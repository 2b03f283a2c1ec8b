import TopoLlvm.JitEngine.ContextJson
import TopoLlvm.JitEngine.PipelineMetadata
import TopoLlvm.Library.JsonDump
import Mathlib.Data.Option.Basic

/-!
# Event lines

The runtime writes every pass event and every finished span as one line of JSON.  The escaper works
on bytes, so a line can be read byte by byte, and as UTF-8 where the strings are.
-/

namespace TopoLlvm
namespace Runtime

open Json (Value)
open JitEngine (Bytes utf8 literalBytes intLexeme)

/-! ## Writers -/

/-- A C string: the bytes before its terminator. -/
structure CString where
  bytes : Bytes
  terminated : (0 : UInt8) ∉ bytes
  deriving DecidableEq

/-- A `const char*`, null or not. -/
abbrev CharPtr := Option CString

/-- `printf` with `%04x`. -/
def printHex4 (number : Nat) : Bytes := utf8 ((Nat.toDigits 16 number).leftpad 4 '0')

/-- `printf` with `%lld` or `%llu`. -/
def printInt (number : Int) : Bytes := utf8 (intLexeme number)

def writeJsonByte (c : UInt8) : Bytes :=
  if c = 0x22 then [0x5C, 0x22]
  else if c = 0x5C then [0x5C, 0x5C]
  else if c = 0x08 then [0x5C, 0x62]
  else if c = 0x0C then [0x5C, 0x66]
  else if c = 0x0A then [0x5C, 0x6E]
  else if c = 0x0D then [0x5C, 0x72]
  else if c = 0x09 then [0x5C, 0x74]
  else if c < 0x20 then [0x5C, 0x75] ++ printHex4 c.toNat
  else [c]

def writeJsonString (s : CharPtr) : Bytes :=
  0x22 :: (s.elim [] (fun s => s.bytes.flatMap writeJsonByte) ++ [0x22])

def emitRecord (pass source target subject : CharPtr) (hasBytes : Bool) (bytes epochNs : Int64) :
    Bytes :=
  let hasSubject := subject.any fun subject => subject.bytes ≠ []
  literalBytes "\x7b\"kind\":\"pass_event\",\"pass\":" ++ (writeJsonString pass ++
    (literalBytes ",\"from\":" ++ (writeJsonString source ++
    (literalBytes ",\"to\":" ++ (writeJsonString target ++
    ((if hasSubject then literalBytes ",\"subject\":" ++ writeJsonString subject else []) ++
    ((if hasBytes then literalBytes ",\"bytes\":" ++ printInt bytes.toInt else []) ++
    (literalBytes ",\"ts_ns\":" ++ (printInt epochNs.toInt ++ literalBytes "\x7d\n")))))))))

def emitPassEvent (pass source target subject : CharPtr) (epochNs : Int64) : Bytes :=
  emitRecord pass source target subject false 0 epochNs

def emitPassEventSized (pass source target subject : CharPtr) (bytes epochNs : Int64) : Bytes :=
  emitRecord pass source target subject true bytes epochNs

def emitSpan (name : CharPtr) (durationNs threadId : UInt64) (epochNs : Int64) : Bytes :=
  literalBytes "\x7b\"name\":" ++ (writeJsonString name ++
    (literalBytes ",\"duration_ns\":" ++ (printInt durationNs.toNat ++
    (literalBytes ",\"thread_id\":" ++ (printInt threadId.toNat ++
    (literalBytes ",\"ts_ns\":" ++ (printInt epochNs.toInt ++ literalBytes "\x7d\n")))))))

/-! ## Readings of the bytes -/

/-- Characters that a literal or a number is made of. -/
def isPrintable (c : Char) : Bool := 0x20 ≤ c.toNat && c.toNat < 0x80

/-- A way to read what is written, given a way to read the strings. -/
structure Reading (raw reads : Bytes → List Char → Prop) : Prop where
  append : ∀ {front back : Bytes} {text text' : List Char}, reads front text → reads back text' →
    reads (front ++ back) (text ++ text')
  printable : ∀ {text : List Char}, text.all isPrintable = true → reads (utf8 text) text
  escaped : ∀ {bytes : Bytes} {chars : List Char}, raw bytes chars →
    reads (bytes.flatMap writeJsonByte) (chars.flatMap Json.writeChar)

/-- A byte read as a character of its own. -/
def byteChar (b : UInt8) : Char := Char.ofNat b.toNat

theorem writeJsonByte_of_le {b : UInt8} (high : 0x80 ≤ b.toNat) : writeJsonByte b = [b] := by
  have apart {low : UInt8} (small : low.toNat < 0x80) : b ≠ low := by
    rintro rfl
    omega
  have visible : ¬ b < 0x20 := fun low =>
    absurd (UInt8.lt_iff_toNat_lt.mp low) (Nat.not_lt_of_le (Nat.le_trans (by decide) high))
  simp [writeJsonByte, apart, visible]

theorem writeChar_of_le {c : Char} (high : 0x80 ≤ c.toNat) : Json.writeChar c = [c] := by
  have apart {low : Char} (small : low.toNat < 0x80) : c ≠ low := by
    rintro rfl
    omega
  have visible : ¬ c.toNat < 0x20 := by omega
  simp [Json.writeChar, apart, visible]

theorem toNat_byteChar (b : UInt8) : (byteChar b).toNat = b.toNat := by
  have valid : b.toNat.isValidChar := .inl (Nat.lt_trans b.toNat_lt (by decide))
  rw [byteChar, Char.ofNat, dif_pos valid]
  rfl

/-- The escaper does to a byte what it does to the character of that number, and leaves no line
feed. -/
theorem writeJsonByte_byteChar (b : UInt8) :
    (writeJsonByte b).map byteChar = Json.writeChar (byteChar b) ∧ 0x0A ∉ writeJsonByte b := by
  by_cases high : 0x80 ≤ b.toNat
  · rw [writeJsonByte_of_le high, writeChar_of_le (by rwa [toNat_byteChar])]
    refine ⟨rfl, fun member => ?_⟩
    obtain rfl := List.mem_singleton.mp member
    exact absurd high (by decide)
  · have table : ∀ code : Fin 128,
        (writeJsonByte (UInt8.ofNat code)).map byteChar =
            Json.writeChar (byteChar (UInt8.ofNat code)) ∧
          0x0A ∉ writeJsonByte (UInt8.ofNat code) := by decide
    simpa using table ⟨b.toNat, by omega⟩

/-- The escaper works on characters although it goes through the bytes. -/
theorem flatMap_writeJsonByte (c : Char) :
    (String.utf8EncodeChar c).flatMap writeJsonByte = utf8 (Json.writeChar c) := by
  by_cases ascii : c.toNat < 0x80
  · have table : ∀ code : Fin 128,
        (String.utf8EncodeChar (Char.ofNat code)).flatMap writeJsonByte =
          utf8 (Json.writeChar (Char.ofNat code)) := by decide
    rw [← c.ofNat_toNat]
    exact table ⟨c.toNat, ascii⟩
  · have high : 0x80 ≤ c.toNat := Nat.le_of_not_lt ascii
    have kept : ∀ b ∈ String.utf8EncodeChar c, writeJsonByte b = [b] := fun b member =>
      writeJsonByte_of_le (JitEngine.le_of_mem_utf8EncodeChar high member)
    rw [writeChar_of_le high, List.flatMap_congr kept]
    simp [utf8]

theorem utf8_printable {text : List Char} (printable : text.all isPrintable = true) :
    (utf8 text).map byteChar = text ∧ 0x0A ∉ utf8 text := by
  have single : ∀ code : Fin 128, isPrintable (Char.ofNat code) = true →
      (String.utf8EncodeChar (Char.ofNat code)).map byteChar = [Char.ofNat code] ∧
        0x0A ∉ String.utf8EncodeChar (Char.ofNat code) := by decide
  induction text with
  | nil => exact ⟨rfl, nofun⟩
  | cons c text ih =>
      obtain ⟨first, rest⟩ := Bool.and_eq_true_iff.mp (List.all_cons ▸ printable)
      have ascii : c.toNat < 0x80 := of_decide_eq_true (Bool.and_eq_true_iff.mp first).2
      have named := single ⟨c.toNat, ascii⟩
      simp only [c.ofNat_toNat] at named
      obtain ⟨read, free⟩ := named first
      rw [JitEngine.utf8_cons, List.map_append, read, (ih rest).1, List.mem_append]
      exact ⟨rfl, not_or.mpr ⟨free, (ih rest).2⟩⟩

/-- UTF-8 text. -/
theorem reading_utf8 : Reading (fun bytes text => bytes = utf8 text)
    (fun bytes text => bytes = utf8 text) where
  append := by
    rintro _ _ text text' rfl rfl
    exact (JitEngine.utf8_append text text').symm
  printable _ := rfl
  escaped := by
    rintro _ chars rfl
    simp only [utf8, List.flatMap_assoc]
    exact List.flatMap_congr fun c _ => flatMap_writeJsonByte c

/-- Byte by byte. -/
theorem reading_bytes : Reading (fun bytes text => bytes.map byteChar = text)
    (fun bytes text => bytes.map byteChar = text) where
  append := by
    rintro front back _ _ rfl rfl
    exact List.map_append
  printable printable := (utf8_printable printable).1
  escaped := by
    rintro bytes _ rfl
    rw [List.map_flatMap, List.flatMap_map]
    exact List.flatMap_congr fun b _ => (writeJsonByte_byteChar b).1

/-- No line feed, whatever the strings are. -/
theorem reading_line : Reading (fun _ _ => True) (fun bytes _ => 0x0A ∉ bytes) where
  append free free' := List.not_mem_append free free'
  printable printable := (utf8_printable printable).2
  escaped _ member := by
    obtain ⟨b, -, inside⟩ := List.mem_flatMap.mp member
    exact (writeJsonByte_byteChar b).2 inside

theorem printable_intLexeme (number : Int) : (intLexeme number).all isPrintable = true := by
  have digits (number : Nat) : (Nat.toDigits 10 number).all isPrintable = true := by
    refine List.all_eq_true.mpr fun c member => ?_
    have digit := Nat.isDigit_of_mem_toDigits (by decide) (by decide) member
    obtain ⟨above, below⟩ := Bool.and_eq_true_iff.mp digit
    have above := UInt32.le_iff_toNat_le.mp (of_decide_eq_true above)
    have below := UInt32.le_iff_toNat_le.mp (of_decide_eq_true below)
    exact Bool.and_eq_true_iff.mpr ⟨decide_eq_true (Nat.le_trans (by decide) above),
      decide_eq_true (Nat.lt_of_le_of_lt below (by decide))⟩
  cases number with
  | ofNat number => exact digits number
  | negSucc number => exact Bool.and_eq_true_iff.mpr ⟨rfl, digits (number + 1)⟩

section Reading

variable {raw reads : Bytes → List Char → Prop}

theorem Reading.literal (reading : Reading raw reads) (text : String)
    (printable : text.toList.all isPrintable = true) :
    reads (literalBytes text) text.toList :=
  reading.printable printable

theorem Reading.int (reading : Reading raw reads) (number : Int) :
    reads (printInt number) (intLexeme number) :=
  reading.printable (printable_intLexeme number)

theorem Reading.string (reading : Reading raw reads) {s : CString} {chars : List Char}
    (read : raw s.bytes chars) : reads (writeJsonString (some s)) (Json.writeString chars) :=
  reading.append (reading.literal "\"" rfl)
    (reading.append (reading.escaped read) (reading.literal "\"" rfl))

end Reading

/-! ## What a line spells -/

/-- What a record tells, for a type of strings; a subject and a count may be missing. -/
structure EventData (S : Type) where
  pass : S
  source : S
  target : S
  subject : Option S
  bytes : Option Int64
  deriving DecidableEq

def EventData.map {S T : Type} (f : S → T) (data : EventData S) : EventData T where
  pass := f data.pass
  source := f data.source
  target := f data.target
  subject := data.subject.map f
  bytes := data.bytes

def intValue (number : Int) : Value := .number (intLexeme number)

def EventData.members (data : EventData (List Char)) (epochNs : Int64) :
    List (List Char × Value) :=
  [("kind".toList, .string "pass_event".toList), ("pass".toList, .string data.pass),
    ("from".toList, .string data.source), ("to".toList, .string data.target)] ++
    (data.subject.map fun subject => ("subject".toList, .string subject)).toList ++
    (data.bytes.map fun bytes => ("bytes".toList, intValue bytes.toInt)).toList ++
    [("ts_ns".toList, intValue epochNs.toInt)]

/-- What a span record tells. -/
structure SpanData (S : Type) where
  name : S
  durationNs : UInt64
  threadId : UInt64
  deriving DecidableEq

def SpanData.map {S T : Type} (f : S → T) (data : SpanData S) : SpanData T where
  name := f data.name
  durationNs := data.durationNs
  threadId := data.threadId

def SpanData.members (data : SpanData (List Char)) (epochNs : Int64) : List (List Char × Value) :=
  [("name".toList, .string data.name), ("duration_ns".toList, intValue data.durationNs.toNat),
    ("thread_id".toList, intValue data.threadId.toNat), ("ts_ns".toList, intValue epochNs.toInt)]

/-- The text of a string or a number. -/
def scalarText : Value → List Char
  | .string chars => Json.writeString chars
  | .number lexeme => lexeme
  | .null | .boolean _ | .array _ | .object _ => []

/-- The text of a flat object, without the line feed. -/
def flatText (members : List (List Char × Value)) : List Char :=
  '\x7b' :: (Json.separate [','] (members.map fun member =>
    Json.memberText member.1 (scalarText member.2)) ++ ['\x7d'])

/-- The member has a plain name and a string or a number of the grammar. -/
def IsFlat (member : List Char × Value) : Prop :=
  member.1.all Json.isPlain = true ∧ Json.Derives (.value member.2) (scalarText member.2)

theorem derives_string (chars : List Char) :
    Json.Derives (.value (.string chars)) (Json.writeString chars) :=
  .string (Json.stringText_writeChar chars)

theorem derives_intValue (number : Int) :
    Json.Derives (.value (intValue number)) (intLexeme number) :=
  .number (JitEngine.isNumber_intLexeme number)

/-- A line with a flat object spells the object. -/
theorem spells_flatText {members : List (List Char × Value)}
    (flat : ∀ member ∈ members, IsFlat member) :
    Json.Spells (flatText members ++ ['\n']) (.object members) := by
  have inside : Json.Derives
      (.value (.object (members.map fun member => (member.1, member.2)))) (flatText members) :=
    Json.derives_object fun member inside =>
      ⟨Json.stringText_plain (flat member inside).1, (flat member inside).2⟩
  rw [List.map_id'' fun _ => rfl] at inside
  have feed : Json.Blank ['\n'] := List.all_eq_true.mp rfl
  exact .padded Json.blank_nil inside feed

theorem EventData.flat (data : EventData (List Char)) (epochNs : Int64) :
    ∀ member ∈ data.members epochNs, IsFlat member := by
  have string (name : String) (plain : name.toList.all Json.isPlain = true) (chars : List Char) :
      IsFlat (name.toList, .string chars) := ⟨plain, derives_string chars⟩
  have number (name : String) (plain : name.toList.all Json.isPlain = true) (number : Int) :
      IsFlat (name.toList, intValue number) := ⟨plain, derives_intValue number⟩
  intro member inside
  simp only [EventData.members, List.mem_append, List.mem_cons, List.not_mem_nil, or_false,
    Option.mem_toList, Option.map_eq_some_iff] at inside
  rcases inside with ((((rfl | rfl | rfl | rfl)) | ⟨subject, -, rfl⟩) | ⟨bytes, -, rfl⟩) | rfl
  · exact string _ rfl _
  · exact string _ rfl _
  · exact string _ rfl _
  · exact string _ rfl _
  · exact string _ rfl _
  · exact number _ rfl _
  · exact number _ rfl _

theorem SpanData.flat (data : SpanData (List Char)) (epochNs : Int64) :
    ∀ member ∈ data.members epochNs, IsFlat member := by
  simp only [SpanData.members, List.forall_mem_cons, List.not_mem_nil, false_imp_iff,
    implies_true, and_true]
  exact ⟨⟨rfl, derives_string _⟩, ⟨rfl, derives_intValue _⟩, ⟨rfl, derives_intValue _⟩,
    ⟨rfl, derives_intValue _⟩⟩

/-! ## Events and spans as lines -/

/-- The arguments of `topo_pass_event_emit`, or of its sized form. -/
structure PassEvent where
  pass : CString
  source : CString
  target : CString
  subject : CString
  bytes : Option Int64

namespace PassEvent

def emit (event : PassEvent) (epochNs : Int64) : Bytes :=
  match event.bytes with
  | none =>
      emitPassEvent (some event.pass) (some event.source) (some event.target) (some event.subject)
        epochNs
  | some bytes =>
      emitPassEventSized (some event.pass) (some event.source) (some event.target)
        (some event.subject) bytes epochNs

/-- The subject is left out when it is empty. -/
def data (event : PassEvent) : EventData Bytes where
  pass := event.pass.bytes
  source := event.source.bytes
  target := event.target.bytes
  subject := if event.subject.bytes = [] then none else some event.subject.bytes
  bytes := event.bytes

end PassEvent

section Lines

variable {raw reads : Bytes → List Char → Prop}

/-- The strings of a record are read one by one. -/
structure EventData.Read (raw : Bytes → List Char → Prop) (data : EventData Bytes)
    (chars : EventData (List Char)) : Prop where
  pass : raw data.pass chars.pass
  source : raw data.source chars.source
  target : raw data.target chars.target
  subject : Option.Rel raw data.subject chars.subject
  bytes : data.bytes = chars.bytes

theorem Reading.nil (reading : Reading raw reads) : reads [] [] :=
  reading.literal "" rfl

theorem Reading.subject (reading : Reading raw reads) {subject : CString}
    {subject' : Option (List Char)}
    (read : Option.Rel raw (if subject.bytes = [] then none else some subject.bytes) subject') :
    reads (if subject.bytes ≠ [] then literalBytes ",\"subject\":" ++ writeJsonString (some subject)
      else []) (subject'.elim [] fun chars => ",\"subject\":".toList ++ Json.writeString chars) := by
  by_cases empty : subject.bytes = []
  · rw [if_pos empty] at read
    cases read
    rw [if_neg (not_not.mpr empty)]
    exact reading.nil
  · rw [if_neg empty] at read
    rw [if_pos empty]
    cases read with
    | some read => exact reading.append (reading.literal ",\"subject\":" rfl) (reading.string read)

theorem Reading.count (reading : Reading raw reads) (bytes : Option Int64) :
    reads (if bytes.isSome then literalBytes ",\"bytes\":" ++ printInt (bytes.getD 0).toInt else [])
      (bytes.elim [] fun bytes => ",\"bytes\":".toList ++ intLexeme bytes.toInt) := by
  cases bytes with
  | none => exact reading.nil
  | some bytes => exact reading.append (reading.literal ",\"bytes\":" rfl) (reading.int _)

theorem PassEvent.emit_eq (event : PassEvent) (epochNs : Int64) :
    event.emit epochNs = emitRecord (some event.pass) (some event.source) (some event.target)
      (some event.subject) event.bytes.isSome (event.bytes.getD 0) epochNs := by
  cases event with
  | mk pass source target subject bytes => cases bytes <;> rfl

theorem PassEvent.emit_reads (reading : Reading raw reads) {event : PassEvent}
    {chars : EventData (List Char)} (read : event.data.Read raw chars) (epochNs : Int64) :
    ∃ body, event.emit epochNs = body ++ [0x0A] ∧
      reads body (flatText (chars.members epochNs)) := by
  have front := reading.append (reading.literal "\x7b\"kind\":\"pass_event\",\"pass\":" rfl)
    (reading.append (reading.string read.pass)
      (reading.append (reading.literal ",\"from\":" rfl)
        (reading.append (reading.string read.source)
          (reading.append (reading.literal ",\"to\":" rfl)
            (reading.string read.target)))))
  have back := reading.append (reading.literal ",\"ts_ns\":" rfl)
    (reading.append (reading.int epochNs.toInt) (reading.literal "\x7d" rfl))
  have whole := reading.append front (reading.append (reading.subject read.subject)
    (reading.append (reading.count event.bytes) back))
  refine ⟨_, ?_, Eq.mp (congrArg (reads _) ?_) whole⟩
  · have close : literalBytes "\x7d\n" = literalBytes "\x7d" ++ [0x0A] := rfl
    rw [event.emit_eq, emitRecord, close]
    simp
  · have same : event.bytes = chars.bytes := read.bytes
    rw [same]
    cases subject : chars.subject <;> cases bytes : chars.bytes <;>
      simp [flatText, EventData.members, subject, bytes, Json.separate, Json.memberText, scalarText,
        intValue, Json.writeString, Json.writeChar]

theorem emitSpan_reads (reading : Reading raw reads) (name : CString) (chars : List Char)
    (read : raw name.bytes chars) (durationNs threadId : UInt64) (epochNs : Int64) :
    ∃ body, emitSpan (some name) durationNs threadId epochNs = body ++ [0x0A] ∧
      reads body (flatText (({ name := chars, durationNs, threadId } :
        SpanData (List Char)).members epochNs)) := by
  have whole := reading.append (reading.literal "\x7b\"name\":" rfl)
    (reading.append (reading.string read)
      (reading.append (reading.literal ",\"duration_ns\":" rfl)
        (reading.append (reading.int durationNs.toNat)
          (reading.append (reading.literal ",\"thread_id\":" rfl)
            (reading.append (reading.int threadId.toNat)
              (reading.append (reading.literal ",\"ts_ns\":" rfl)
                (reading.append (reading.int epochNs.toInt)
                  (reading.literal "\x7d" rfl))))))))
  refine ⟨_, ?_, Eq.mp (congrArg (reads _) ?_) whole⟩
  · have close : literalBytes "\x7d\n" = literalBytes "\x7d" ++ [0x0A] := rfl
    rw [emitSpan, close]
    simp
  · simp [flatText, SpanData.members, Json.separate, Json.memberText, scalarText, intValue]

end Lines

/-! ## Decoding -/

/-- `long long` members. -/
def getInt64 : Value → Option Int64
  | .number lexeme =>
      let digits := if lexeme.head? = some '-' then lexeme.tail else lexeme
      let magnitude := Nat.ofDigitChars 10 digits 0
      if digits.all Char.isDigit then
        some (Int64.ofInt (if lexeme.head? = some '-' then -magnitude else magnitude))
      else none
  | .null | .boolean _ | .string _ | .array _ | .object _ => none

theorem getInt64_intValue (number : Int64) : getInt64 (intValue number.toInt) = some number := by
  have isDigit (number : Nat) : (Nat.toDigits 10 number).all Char.isDigit = true :=
    List.all_eq_true.mpr fun c member => Nat.isDigit_of_mem_toDigits (by decide) (by decide) member
  cases value : number.toInt with
  | ofNat magnitude =>
      simp only [intValue, intLexeme, getInt64, JitEngine.head?_toDigits_ne, if_false, isDigit,
        if_true, Nat.ofDigitChars_ten_toDigits]
      rw [← Int.ofNat_eq_natCast, ← value, Int64.ofInt_toInt]
  | negSucc magnitude =>
      simp only [intValue, intLexeme, getInt64, List.head?_cons, if_true, List.tail_cons, isDigit,
        Nat.ofDigitChars_ten_toDigits]
      rw [Int.natCast_add, Int.cast_ofNat_Int, ← Int.negSucc_eq, ← value, Int64.ofInt_toInt]

/-- A member that may be missing. -/
def optional {A : Type} (read : Value → Option A) : Option Value → Option (Option A)
  | none => some none
  | some value => (read value).map some

/-- The event that a value stands for. -/
def decodeEvent : Value → Option (EventData (List Char))
  | .object members => do
      let kind ← members.lookup "kind".toList >>= JitEngine.getName
      guard (kind = "pass_event".toList)
      let pass ← members.lookup "pass".toList >>= JitEngine.getName
      let source ← members.lookup "from".toList >>= JitEngine.getName
      let target ← members.lookup "to".toList >>= JitEngine.getName
      let subject ← optional JitEngine.getName (members.lookup "subject".toList)
      let bytes ← optional getInt64 (members.lookup "bytes".toList)
      some { pass, source, target, subject, bytes }
  | .null | .boolean _ | .number _ | .string _ | .array _ => none

def decodeSpan : Value → Option (SpanData (List Char))
  | .object members => do
      let name ← members.lookup "name".toList >>= JitEngine.getName
      let durationNs ← members.lookup "duration_ns".toList >>= JitEngine.getUnsigned?
      let threadId ← members.lookup "thread_id".toList >>= JitEngine.getUnsigned?
      some { name, durationNs, threadId }
  | .null | .boolean _ | .number _ | .string _ | .array _ => none

theorem decodeEvent_members (data : EventData (List Char)) (epochNs : Int64) :
    decodeEvent (.object (data.members epochNs)) = some data := by
  obtain ⟨pass, source, target, subject, bytes⟩ := data
  cases subject <;> cases bytes <;>
    simp [decodeEvent, EventData.members, List.lookup_cons, JitEngine.getName, optional,
      getInt64_intValue]

theorem decodeSpan_members (data : SpanData (List Char)) (epochNs : Int64) :
    decodeSpan (.object (data.members epochNs)) = some data := by
  have number (count : UInt64) : JitEngine.getUnsigned? (intValue count.toNat) = some count :=
    JitEngine.getUnsigned?_toDigits count
  simp [decodeSpan, SpanData.members, List.lookup_cons, JitEngine.getName, number]

/-- One record to a line. -/
def IsLine (line : Bytes) : Prop := ∃ body, line = body ++ [0x0A] ∧ 0x0A ∉ body

/-- Read each byte of a line as a character and parse it. -/
def parseLine (line : Bytes) : Option Value := Json.parse (line.map byteChar)

/-- The bytes of characters that stand for bytes. -/
def charBytes (chars : List Char) : Bytes := chars.map fun c => UInt8.ofNat c.toNat

theorem charBytes_byteChar (bytes : Bytes) : charBytes (bytes.map byteChar) = bytes := by
  have back (b : UInt8) : UInt8.ofNat (byteChar b).toNat = b := by
    rw [toNat_byteChar, UInt8.ofNat_toNat]
  simp [charBytes, Function.comp_def, back]

theorem EventData.map_byteChar (data : EventData Bytes) :
    (data.map (·.map byteChar)).map charBytes = data := by
  simp [EventData.map, charBytes_byteChar, Function.comp_def]

/-- The strings of a record are read alike. -/
theorem EventData.read_map {S : Type} (raw : Bytes → List Char → Prop) (f : S → Bytes)
    (g : S → List Char) (read : ∀ string, raw (f string) (g string)) (data : EventData S) :
    (data.map f).Read raw (data.map g) where
  pass := read data.pass
  source := read data.source
  target := read data.target
  subject := by
    change Option.Rel raw (data.subject.map f) (data.subject.map g)
    cases data.subject with
    | none => exact .none
    | some string => exact .some (read string)
  bytes := rfl

theorem EventData.map_id {S : Type} (data : EventData S) : data.map id = data := by
  simp [EventData.map]

theorem PassEvent.isLine (event : PassEvent) (epochNs : Int64) : IsLine (event.emit epochNs) := by
  have read := EventData.read_map (fun _ _ => True) id (fun _ => []) (fun _ => trivial) event.data
  rw [EventData.map_id] at read
  exact event.emit_reads reading_line read epochNs

/-- Byte by byte, the line decodes to the event. -/
theorem PassEvent.decode (event : PassEvent) (epochNs : Int64) :
    ((parseLine (event.emit epochNs)).bind decodeEvent).map (·.map charBytes) =
      some event.data := by
  have read := EventData.read_map (fun bytes text => bytes.map byteChar = text) id (·.map byteChar)
    (fun _ => rfl) event.data
  rw [EventData.map_id] at read
  obtain ⟨body, emitted, text⟩ := event.emit_reads reading_bytes read epochNs
  have spells := spells_flatText (EventData.flat (event.data.map (·.map byteChar)) epochNs)
  have line : (event.emit epochNs).map byteChar =
      flatText ((event.data.map (·.map byteChar)).members epochNs) ++ ['\n'] := by
    rw [emitted, List.map_append, text]
    rfl
  rw [parseLine, line, Json.parse_eq_some_iff.mpr spells, Option.bind_some, decodeEvent_members,
    Option.map_some, EventData.map_byteChar]

/-- Where the strings are UTF-8, so is the line, and it decodes to their characters. -/
theorem PassEvent.utf8_line (event : PassEvent) (epochNs : Int64) {chars : EventData (List Char)}
    (encoded : event.data = chars.map utf8) :
    ∃ text value, event.emit epochNs = utf8 text ∧ Json.Spells text value ∧
      decodeEvent value = some chars := by
  have read := EventData.read_map (fun bytes text => bytes = utf8 text) utf8 id (fun _ => rfl) chars
  rw [EventData.map_id, ← encoded] at read
  obtain ⟨body, emitted, rfl⟩ := event.emit_reads reading_utf8 read epochNs
  refine ⟨_, _, ?_, spells_flatText (chars.flat epochNs), decodeEvent_members chars epochNs⟩
  rw [emitted, JitEngine.utf8_append]
  rfl

theorem CString.ext {left right : CString} (same : left.bytes = right.bytes) : left = right := by
  cases left
  cases right
  cases same
  rfl

/-- The data determine the event. -/
theorem PassEvent.data_injective : Function.Injective PassEvent.data := by
  rintro ⟨pass, source, target, subject, bytes⟩ ⟨pass', source', target', subject', bytes'⟩ same
  simp only [PassEvent.data, EventData.mk.injEq] at same
  obtain ⟨samePass, sameSource, sameTarget, sameSubject, rfl⟩ := same
  have sameSubject : subject.bytes = subject'.bytes := by
    split_ifs at sameSubject with empty empty'
    · rw [empty, empty']
    · exact Option.some.inj sameSubject
  rw [CString.ext samePass, CString.ext sameSource, CString.ext sameTarget,
    CString.ext sameSubject]

section Span

variable (name : CString) (durationNs threadId : UInt64) (epochNs : Int64)

theorem isLine_emitSpan : IsLine (emitSpan (some name) durationNs threadId epochNs) :=
  emitSpan_reads reading_line name [] trivial durationNs threadId epochNs

/-- Byte by byte, the line decodes to the span. -/
theorem decode_emitSpan :
    ((parseLine (emitSpan (some name) durationNs threadId epochNs)).bind decodeSpan).map
        (·.map charBytes) =
      some { name := name.bytes, durationNs, threadId } := by
  obtain ⟨body, emitted, text⟩ := emitSpan_reads reading_bytes name _ rfl durationNs threadId
    epochNs
  have spells := spells_flatText (SpanData.flat
    { name := name.bytes.map byteChar, durationNs, threadId } epochNs)
  have line : (emitSpan (some name) durationNs threadId epochNs).map byteChar =
      flatText (({ name := name.bytes.map byteChar, durationNs, threadId } :
        SpanData (List Char)).members epochNs) ++ ['\n'] := by
    rw [emitted, List.map_append, text]
    rfl
  rw [parseLine, line, Json.parse_eq_some_iff.mpr spells, Option.bind_some, decodeSpan_members,
    Option.map_some, SpanData.map, charBytes_byteChar]

theorem utf8_emitSpan {chars : List Char} (encoded : name.bytes = utf8 chars) :
    ∃ text value, emitSpan (some name) durationNs threadId epochNs = utf8 text ∧
      Json.Spells text value ∧ decodeSpan value = some { name := chars, durationNs, threadId } := by
  obtain ⟨body, emitted, rfl⟩ := emitSpan_reads reading_utf8 name chars encoded durationNs threadId
    epochNs
  refine ⟨_, _, ?_, spells_flatText (SpanData.flat _ epochNs), decodeSpan_members _ epochNs⟩
  rw [emitted, JitEngine.utf8_append]
  rfl

end Span

/-- Every event and every span is written as one line, which decodes byte by byte to exactly what
was written, and as UTF-8 where the strings are; so the line determines the event. -/
theorem event_lines :
    (∀ (event : PassEvent) (epochNs : Int64),
      IsLine (event.emit epochNs) ∧
        ((parseLine (event.emit epochNs)).bind decodeEvent).map (·.map charBytes) =
          some event.data ∧
        (∀ chars, event.data = chars.map utf8 → ∃ text value, event.emit epochNs = utf8 text ∧
          Json.Spells text value ∧ decodeEvent value = some chars) ∧
        ∀ (other : PassEvent) (epochNs' : Int64), other.emit epochNs' = event.emit epochNs →
          other = event) ∧
      ∀ (name : CString) (durationNs threadId : UInt64) (epochNs : Int64),
        IsLine (emitSpan (some name) durationNs threadId epochNs) ∧
          ((parseLine (emitSpan (some name) durationNs threadId epochNs)).bind decodeSpan).map
              (·.map charBytes) = some { name := name.bytes, durationNs, threadId } ∧
          (∀ chars, name.bytes = utf8 chars →
            ∃ text value, emitSpan (some name) durationNs threadId epochNs = utf8 text ∧
              Json.Spells text value ∧
              decodeSpan value = some { name := chars, durationNs, threadId }) ∧
          ∀ (name' : CString) (durationNs' threadId' : UInt64) (epochNs' : Int64),
            emitSpan (some name') durationNs' threadId' epochNs' =
                emitSpan (some name) durationNs threadId epochNs →
              name' = name ∧ durationNs' = durationNs ∧ threadId' = threadId := by
  refine ⟨fun event epochNs => ⟨event.isLine epochNs, event.decode epochNs,
      fun chars => event.utf8_line epochNs, fun other epochNs' same => ?_⟩,
    fun name durationNs threadId epochNs => ⟨isLine_emitSpan .., decode_emitSpan ..,
      fun chars => utf8_emitSpan name durationNs threadId epochNs,
      fun name' durationNs' threadId' epochNs' same => ?_⟩⟩
  · have decoded := other.decode epochNs'
    rw [same, event.decode epochNs] at decoded
    exact PassEvent.data_injective (Option.some.inj decoded).symm
  · have decoded := decode_emitSpan name' durationNs' threadId' epochNs'
    rw [same, decode_emitSpan] at decoded
    obtain ⟨sameName, sameDuration, sameThread⟩ := SpanData.mk.inj (Option.some.inj decoded)
    exact ⟨CString.ext sameName.symm, sameDuration.symm, sameThread.symm⟩

/-- A subject with a quote, a backslash, a line feed, a tab and a control character. -/
def nastyChars : EventData (List Char) where
  pass := "AdaptiveDispatchPass".toList
  source := "aot".toList
  target := "jit".toList
  subject := some "pipe\"line\\scope\nwith\there\x01ctrl".toList
  bytes := some (-4096)

def nastyEvent : PassEvent where
  pass := ⟨utf8 nastyChars.pass, by decide⟩
  source := ⟨utf8 nastyChars.source, by decide⟩
  target := ⟨utf8 nastyChars.target, by decide⟩
  subject := ⟨utf8 (nastyChars.subject.getD []), by decide⟩
  bytes := nastyChars.bytes

theorem event_lines_nasty :
    IsLine (nastyEvent.emit 5) ∧ ∃ text value, nastyEvent.emit 5 = utf8 text ∧
      Json.Spells text value ∧ decodeEvent value = some nastyChars := by
  have lines := event_lines.1 nastyEvent 5
  exact ⟨lines.1, lines.2.2.1 nastyChars (by decide)⟩

theorem ne_of_mem_utf8EncodeChar {c : Char} {b : UInt8} (member : b ∈ String.utf8EncodeChar c) :
    b ≠ 0xFF := by
  have bound := c.val.toNat_lt
  have apart : b.toNat ≠ 255 := by
    simp only [String.utf8EncodeChar] at member
    split_ifs at member <;>
      simp only [List.mem_cons, List.not_mem_nil, or_false] at member
    · rw [member, UInt8.toNat_ofNat']
      omega
    · rcases member with rfl | rfl <;> simp only [UInt8.toNat_ofNat'] <;> omega
    · rcases member with rfl | rfl | rfl <;> simp only [UInt8.toNat_ofNat'] <;> omega
    · rcases member with rfl | rfl | rfl | rfl <;> simp only [UInt8.toNat_ofNat'] <;> omega
  rintro rfl
  exact apart rfl

def strayByte : PassEvent where
  pass := ⟨[0xFF], by decide⟩
  source := ⟨[], by decide⟩
  target := ⟨[], by decide⟩
  subject := ⟨[], by decide⟩
  bytes := none

/-- A pass name that is no UTF-8 makes a line that is no JSON text. -/
theorem emit_not_json :
    ¬ ∃ text value, strayByte.emit 0 = utf8 text ∧ Json.Spells text value := by
  rintro ⟨text, value, encoded, -⟩
  have written : 0xFF ∈ utf8 text := by
    rw [← encoded]
    decide
  obtain ⟨c, -, inside⟩ := List.mem_flatMap.mp written
  exact ne_of_mem_utf8EncodeChar inside rfl

end Runtime
end TopoLlvm
