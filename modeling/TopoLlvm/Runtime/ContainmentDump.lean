import TopoLlvm.Runtime.EventLines
import TopoLlvm.Library.JsonRaw

/-!
# Dumped violations

The runtime records the calls that leave a contained region and dumps them as an array of JSON.
The strings are printed with `%s`, so the array tells what was recorded exactly where no string
needs an escape.
-/

namespace TopoLlvm
namespace Runtime

open Json (Value Spells StringText isPlain)
open JitEngine (Bytes utf8 literalBytes)

/-! ## Recording and dumping -/

structure ViolationEntry (S : Type) where
  caller : S
  callee : S
  deriving DecidableEq

namespace ViolationEntry

variable {S T : Type}

def map (f : S → T) (v : ViolationEntry S) : ViolationEntry T where
  caller := f v.caller
  callee := f v.callee

/-- Both strings have the property. -/
def Both (holds : S → Prop) (v : ViolationEntry S) : Prop := holds v.caller ∧ holds v.callee

end ViolationEntry

section Print

variable {α : Type} (literal : String → List α)

/-- One line of the array, with what stands at its end. -/
def dumpEntry (v : ViolationEntry (List α)) (separator : String) : List α :=
  literal "  \x7b\"caller\": \"" ++ (v.caller ++ (literal "\", \"callee\": \"" ++ (v.callee ++
    (literal "\"\x7d" ++ (literal separator ++ literal "\n")))))

/-- The loop over the violations. -/
def dumpEntries : List (ViolationEntry (List α)) → List α
  | [] => []
  | v :: rest => dumpEntry literal v (if rest.isEmpty then "" else ",") ++ dumpEntries rest

/-- The bracketed array. -/
def dumpArray (violations : List (ViolationEntry (List α))) : List α :=
  literal "[\n" ++ (dumpEntries literal violations ++ literal "]\n")

end Print

/-- `g_violations` and `g_atexitRegistered`. -/
structure Containment where
  violations : List (ViolationEntry CString) := []
  atexitRegistered : Bool := false

namespace Containment

def unknown : CString := ⟨literalBytes "<unknown>", by decide⟩

def violation (s : Containment) (caller callee : CharPtr) : Containment where
  violations := s.violations ++ [⟨caller.getD unknown, callee.getD unknown⟩]
  atexitRegistered := true

def reset (s : Containment) : Containment := { s with violations := [] }

/-- The array of the recorded strings. -/
def dumpedArray (s : Containment) : Bytes :=
  dumpArray literalBytes (s.violations.map (·.map (·.bytes)))

/-- What the dump prints. -/
def dump (s : Containment) : Bytes :=
  if s.violations.isEmpty then []
  else
    literalBytes "\n=== Topo Containment Violations ===\n" ++ (s.dumpedArray ++
      (literalBytes "Total violations: " ++ (printInt s.violations.length ++ literalBytes "\n")))

/-- The calls of the instrumented code, one after another. -/
def record (s : Containment) (calls : List (CharPtr × CharPtr)) : Containment :=
  calls.foldl (fun s call => s.violation call.1 call.2) s

theorem violations_record (s : Containment) (calls : List (CharPtr × CharPtr)) :
    (s.record calls).violations =
      s.violations ++ calls.map fun call => ⟨call.1.getD unknown, call.2.getD unknown⟩ := by
  induction calls generalizing s with
  | nil => exact (List.append_nil _).symm
  | cons call calls ih =>
      change ((s.violation call.1 call.2).record calls).violations = _
      rw [ih]
      exact List.append_assoc ..

end Containment

/-! ## Reading the array -/

/-- The violation that an element stands for. -/
def decodeViolation : Value → Option (ViolationEntry (List Char))
  | .object members => do
      let caller ← members.lookup "caller".toList >>= JitEngine.getName
      let callee ← members.lookup "callee".toList >>= JitEngine.getName
      some { caller, callee }
  | .null | .boolean _ | .number _ | .string _ | .array _ => none

def decodeViolations : Value → Option (List (ViolationEntry (List Char)))
  | .array items => items.mapM decodeViolation
  | .null | .boolean _ | .number _ | .string _ | .object _ => none

/-- The strings need no escapes. -/
abbrev Plain (v : ViolationEntry (List Char)) : Prop := v.Both fun chars => chars.all isPlain = true

def entryValue (v : ViolationEntry (List Char)) : Value :=
  .object [("caller".toList, .string v.caller), ("callee".toList, .string v.callee)]

theorem decodeViolation_entryValue (v : ViolationEntry (List Char)) :
    decodeViolation (entryValue v) = some v := by
  simp [decodeViolation, entryValue, List.lookup_cons, JitEngine.getName]

theorem decodeViolations_entryValue (vs : List (ViolationEntry (List Char))) :
    decodeViolations (.array (vs.map entryValue)) = some vs := by
  change (vs.map entryValue).mapM decodeViolation = some vs
  induction vs with
  | nil => rfl
  | cons v vs ih =>
      rw [List.map_cons, List.mapM_cons, decodeViolation_entryValue, Option.bind_eq_bind,
        Option.bind_some, ih]
      rfl

/-- The text of an element between its braces. -/
def entryText (v : ViolationEntry (List Char)) : List Char :=
  '"' :: ("caller".toList ++ '"' :: ':' :: ' ' :: '"' :: (v.caller ++
    '"' :: ',' :: ' ' :: '"' :: ("callee".toList ++ '"' :: ':' :: ' ' :: '"' :: (v.callee ++ ['"']))))

theorem entryText_append (v : ViolationEntry (List Char)) (rest : List Char) :
    entryText v ++ rest = '"' :: ("caller".toList ++ '"' :: ':' :: ' ' :: '"' :: (v.caller ++
      '"' :: ',' :: ' ' :: '"' :: ("callee".toList ++ '"' :: ':' :: ' ' :: '"' :: (v.callee ++
        '"' :: rest)))) := by
  simp only [entryText, List.cons_append, List.append_assoc, List.nil_append]

/-- What ends the line of an element. -/
def lineEnd (last : Bool) : List Char := if last then ['\n'] else [',', '\n']

/-- A line of the array is the element, indented, and what ends the line. -/
theorem dumpEntries_cons (v : ViolationEntry (List Char))
    (vs : List (ViolationEntry (List Char))) (rest : List Char) :
    dumpEntries String.toList (v :: vs) ++ rest = ' ' :: ' ' :: '\x7b' :: (entryText v ++ '\x7d' ::
      (lineEnd vs.isEmpty ++ (dumpEntries String.toList vs ++ rest))) := by
  have caller : "  \x7b\"caller\": \"".toList =
      ' ' :: ' ' :: '\x7b' :: '"' :: ("caller".toList ++ ['"', ':', ' ', '"']) := rfl
  have callee : "\", \"callee\": \"".toList =
      '"' :: ',' :: ' ' :: '"' :: ("callee".toList ++ ['"', ':', ' ', '"']) := rfl
  have close : "\"\x7d".toList = ['"', '\x7d'] := rfl
  have ends : (if vs.isEmpty then "" else ",").toList ++ "\n".toList = lineEnd vs.isEmpty := by
    cases vs.isEmpty <;> rfl
  rw [dumpEntries, dumpEntry, caller, callee, close, ends]
  simp only [entryText, List.cons_append, List.append_assoc, List.nil_append]

theorem derives_entryText {v : ViolationEntry (List Char)} (plain : Plain v) :
    Json.Derives (.value (entryValue v)) ('\x7b' :: (entryText v ++ ['\x7d'])) := by
  have space : Json.Blank [' '] := List.all_eq_true.mp rfl
  have value {chars : List Char} (plain : chars.all isPlain = true) :
      Json.Derives (.padded (.string chars)) (' ' :: '"' :: (chars ++ ['"'])) := by
    have padded := Json.Derives.padded space (.string (Json.stringText_plain plain)) Json.blank_nil
    rwa [List.append_nil] at padded
  have name (key : List Char) (plain : key.all isPlain = true) : StringText key key :=
    Json.stringText_plain plain
  have whole := Json.Derives.nextMember Json.blank_nil (name "caller".toList rfl) Json.blank_nil
    (value plain.1) (.lastMember space (name "callee".toList rfl) Json.blank_nil (value plain.2))
  refine .object ?_
  simpa only [entryText, List.nil_append, List.cons_append, List.append_assoc] using whole

theorem derives_dumpEntries {v : ViolationEntry (List Char)}
    {vs : List (ViolationEntry (List Char))} (plain : ∀ w ∈ v :: vs, Plain w) :
    Json.Derives (.items ((v :: vs).map entryValue))
      ('\n' :: dumpEntries String.toList (v :: vs)) := by
  have indent : Json.Blank ['\n', ' ', ' '] := List.all_eq_true.mp rfl
  have feed : Json.Blank ['\n'] := List.all_eq_true.mp rfl
  induction vs generalizing v with
  | nil =>
      have element := derives_entryText (plain v List.mem_cons_self)
      have last := Json.Derives.lastItem (.padded indent element feed)
      rw [← List.append_nil (dumpEntries _ _), dumpEntries_cons]
      simpa only [List.cons_append, List.append_assoc, List.nil_append, List.map_cons,
        List.map_nil, lineEnd, dumpEntries, List.isEmpty_nil, if_true] using last
  | cons w vs ih =>
      have element := derives_entryText (plain v List.mem_cons_self)
      have others := ih fun w member => plain w (List.mem_cons_of_mem _ member)
      have whole := Json.Derives.nextItem (.padded indent element Json.blank_nil) others
      rw [← List.append_nil (dumpEntries _ _), dumpEntries_cons, List.append_nil]
      simpa only [List.cons_append, List.append_assoc, List.nil_append, List.map_cons,
        lineEnd, List.isEmpty_cons, Bool.false_eq_true, if_false] using whole

theorem lookup_of_decodeViolation {members : List (List Char × Value)}
    {v : ViolationEntry (List Char)} (decoded : decodeViolation (.object members) = some v) :
    members.lookup "caller".toList = some (.string v.caller) ∧
      members.lookup "callee".toList = some (.string v.callee) := by
  have name {value : Option Value} {chars : List Char}
      (read : value.bind JitEngine.getName = some chars) : value = some (.string chars) := by
    obtain ⟨value, rfl, named⟩ := Option.bind_eq_some_iff.mp read
    cases value with
    | string _ => exact congrArg _ (congrArg _ (Option.some.inj named))
    | null | boolean _ | number _ | array _ | object _ => cases named
  obtain ⟨caller, read, next⟩ := Option.bind_eq_some_iff.mp decoded
  obtain ⟨callee, read', same⟩ := Option.bind_eq_some_iff.mp next
  obtain rfl := Option.some.inj same
  exact ⟨name read, name read'⟩

/-- An element that is read as the violation it was printed for has plain strings, and its text ends
where it was printed to end. -/
theorem plain_of_parseValue {fuel : Nat} {v : ViolationEntry (List Char)} {rest after : List Char}
    {value : Value}
    (found : Json.parseValue fuel ('\x7b' :: (entryText v ++ '\x7d' :: rest)) = some (value, after))
    (decoded : decodeViolation value = some v) : Plain v ∧ after = rest := by
  cases fuel with
  | zero => cases found
  | succ fuel =>
      have opens : (Json.skipBlanks (entryText v ++ '\x7d' :: rest)).head? ≠ some '\x7d' := by
        rw [entryText_append, Json.skipBlanks_cons (by decide)]
        exact nofun
      rw [Json.parseValue, if_neg (by decide), if_neg (by decide), if_pos rfl, if_neg opens]
        at found
      obtain ⟨⟨members, _⟩, inside, same⟩ := Option.map_eq_some_iff.mp found
      obtain ⟨rfl, rfl⟩ := Prod.mk.inj same
      rw [entryText_append] at inside
      obtain ⟨fuel, caller, others, rfl, goesOn⟩ :=
        Json.exists_of_parseMembers_raw Json.blank_nil rfl inside
      obtain ⟨found, found'⟩ := lookup_of_decodeViolation decoded
      rw [List.lookup_cons_self] at found
      obtain rfl := Value.string.inj (Option.some.inj found)
      obtain ⟨plain, ⟨more, comma, later⟩ | ⟨brace, -⟩⟩ := goesOn rfl
      · obtain rfl := (List.cons.inj comma).2
        have apart : ("callee".toList == "caller".toList) = false := by decide
        rw [List.lookup_cons, apart] at found'
        have space : Json.Blank [' '] := List.all_eq_true.mp rfl
        obtain ⟨fuel, callee, others, rfl, goesOn'⟩ :=
          Json.exists_of_parseMembers_raw space rfl later
        rw [List.lookup_cons_self] at found'
        obtain rfl := Value.string.inj (Option.some.inj found')
        obtain ⟨plain', ⟨more, comma, -⟩ | ⟨brace, -⟩⟩ := goesOn' rfl
        · cases comma
        · exact ⟨⟨plain, plain'⟩, (List.cons.inj brace).2.symm⟩
      · cases brace

/-- The parser reads the first element as the violation it was printed for, and goes on with the
next line. -/
theorem parseItems_dumpEntries {v : ViolationEntry (List Char)}
    {vs : List (ViolationEntry (List Char))} {fuel : Nat} {rest after : List Char}
    {items : List Value}
    (found : Json.parseItems fuel ('\n' :: (dumpEntries String.toList (v :: vs) ++ rest)) =
      some (items, after))
    (decoded : items.mapM decodeViolation = some (v :: vs)) :
    Plain v ∧ (vs ≠ [] → ∃ fuel' others, others.mapM decodeViolation = some vs ∧
      Json.parseItems fuel' ('\n' :: (dumpEntries String.toList vs ++ rest)) =
        some (others, after)) := by
  obtain ⟨fuel, item, others, between, rfl, first, next⟩ := Json.exists_of_parseItems found
  rw [dumpEntries_cons] at first
  rw [List.mapM_cons] at decoded
  obtain ⟨head, isHead, last⟩ := Option.bind_eq_some_iff.mp decoded
  obtain ⟨tail, isTail, same⟩ := Option.bind_eq_some_iff.mp last
  obtain ⟨rfl, rfl⟩ := List.cons.inj (Option.some.inj same)
  obtain ⟨plain, rfl⟩ := plain_of_parseValue first isHead
  refine ⟨plain, fun more => ?_⟩
  have ends : lineEnd tail.isEmpty = [',', '\n'] := by
    rw [List.isEmpty_eq_false_iff.mpr more]
    rfl
  rw [ends] at next
  obtain ⟨more, comma, later⟩ | ⟨bracket, -⟩ := next
  · obtain rfl := (List.cons.inj comma).2
    exact ⟨_, _, isTail, later⟩
  · cases bracket

theorem plain_of_parseItems {v : ViolationEntry (List Char)}
    {vs : List (ViolationEntry (List Char))} {fuel : Nat} {rest after : List Char}
    {items : List Value}
    (found : Json.parseItems fuel ('\n' :: (dumpEntries String.toList (v :: vs) ++ rest)) =
      some (items, after))
    (decoded : items.mapM decodeViolation = some (v :: vs)) : ∀ w ∈ v :: vs, Plain w := by
  induction vs generalizing v fuel items with
  | nil => exact List.forall_mem_singleton.mpr (parseItems_dumpEntries found decoded).1
  | cons w vs ih =>
      obtain ⟨plain, more⟩ := parseItems_dumpEntries found decoded
      obtain ⟨fuel, others, decoded, found⟩ := more (List.cons_ne_nil _ _)
      exact List.forall_mem_cons.mpr ⟨plain, ih found decoded⟩

/-- The array tells what was printed exactly where no string needs an escape. -/
theorem dumpArray_spells_iff {vs : List (ViolationEntry (List Char))} (nonempty : vs ≠ []) :
    (∃ value, Spells (dumpArray String.toList vs) value ∧ decodeViolations value = some vs) ↔
      ∀ w ∈ vs, Plain w := by
  obtain ⟨v, vs, rfl⟩ := List.exists_cons_of_ne_nil nonempty
  have opened : dumpArray String.toList (v :: vs) =
      '[' :: '\n' :: (dumpEntries String.toList (v :: vs) ++ [']', '\n']) := rfl
  rw [opened]
  constructor
  · rintro ⟨value, spells, decoded⟩
    obtain ⟨⟨value', rest⟩, inside, same⟩ :=
      Option.bind_eq_some_iff.mp (Json.parse_eq_some_iff.mpr spells)
    simp only at same
    split at same
    · obtain rfl := Option.some.inj same
      have goesOn : (Json.skipBlanks ('\n' :: (dumpEntries String.toList (v :: vs) ++
          [']', '\n']))).head? ≠ some ']' := by
        rw [dumpEntries_cons]
        exact nofun
      rw [Json.skipBlanks_cons (by decide), Json.parseValue, if_neg (by decide), if_pos rfl,
        if_neg goesOn] at inside
      obtain ⟨⟨items, _⟩, found, same⟩ := Option.map_eq_some_iff.mp inside
      obtain ⟨rfl, -⟩ := Prod.mk.inj same
      exact plain_of_parseItems found decoded
    · cases same
  · intro plain
    have feed : Json.Blank ['\n'] := List.all_eq_true.mp rfl
    have whole := Json.Derives.padded Json.blank_nil (.array (derives_dumpEntries plain)) feed
    refine ⟨_, ?_, decodeViolations_entryValue (v :: vs)⟩
    simpa only [List.cons_append, List.append_assoc, List.nil_append, Spells] using whole

/-! ## The bytes of the array -/

/-- The literals that the dump of the array prints. -/
def dumpLiterals : List String :=
  ["[\n", "  \x7b\"caller\": \"", "\", \"callee\": \"", "\"\x7d", ",", "", "\n", "]\n"]

/-- A reading of the bytes goes through the array where it reads the literals. -/
theorem map_dumpArray {α β : Type} {literal : String → List α} {literal' : String → List β}
    {read : List α → List β} (append : ∀ front back, read (front ++ back) = read front ++ read back)
    (text : ∀ s ∈ dumpLiterals, read (literal s) = literal' s)
    (vs : List (ViolationEntry (List α))) :
    read (dumpArray literal vs) = dumpArray literal' (vs.map (·.map read)) := by
  simp only [dumpLiterals, List.forall_mem_cons] at text
  obtain ⟨opening, caller, callee, close, comma, none, feed, closing, -⟩ := text
  have entries : read (dumpEntries literal vs) = dumpEntries literal' (vs.map (·.map read)) := by
    induction vs with
    | nil =>
        have twice := append [] []
        rwa [List.append_nil, List.self_eq_append_left] at twice
    | cons v vs ih =>
        have separator : read (literal (if vs.isEmpty then "" else ",")) =
            literal' (if vs.isEmpty then "" else ",") := by
          cases vs.isEmpty
          · exact comma
          · exact none
        rw [dumpEntries, append, ih, List.map_cons, dumpEntries, List.isEmpty_map]
        simp only [dumpEntry, append, caller, callee, close, feed, separator, ViolationEntry.map]
  rw [dumpArray, append, append, opening, closing, entries]
  rfl

theorem map_byteChar_dumpArray (vs : List (ViolationEntry Bytes)) :
    (dumpArray literalBytes vs).map byteChar =
      dumpArray String.toList (vs.map (·.map (·.map byteChar))) := by
  refine map_dumpArray (fun _ _ => List.map_append) ?_ vs
  simp only [dumpLiterals, List.forall_mem_cons]
  exact ⟨rfl, rfl, rfl, rfl, rfl, rfl, rfl, rfl, nofun⟩

theorem utf8_dumpArray (vs : List (ViolationEntry (List Char))) :
    utf8 (dumpArray String.toList vs) = dumpArray literalBytes (vs.map (·.map utf8)) :=
  map_dumpArray JitEngine.utf8_append (fun _ _ => rfl) vs

/-- A byte that needs no escape. -/
def isPlainByte (b : UInt8) : Bool := 0x20 ≤ b && b ≠ 0x22 && b ≠ 0x5C

theorem all_isPlainByte (bytes : Bytes) :
    (bytes.map byteChar).all isPlain = bytes.all isPlainByte := by
  have apart (b low : UInt8) : byteChar b = byteChar low ↔ b = low := by
    rw [← Char.toNat_inj, toNat_byteChar, toNat_byteChar, UInt8.toNat_inj]
  rw [List.all_map]
  refine congrArg bytes.all (funext fun b => ?_)
  have quote : byteChar b = '"' ↔ b = 0x22 := apart b 0x22
  have backslash : byteChar b = '\\' ↔ b = 0x5C := apart b 0x5C
  simp only [Function.comp_apply, isPlain, isPlainByte, toNat_byteChar, ne_eq, quote, backslash]
  rfl

/-- What a call records. -/
def recorded (call : CharPtr × CharPtr) : ViolationEntry CString where
  caller := call.1.getD Containment.unknown
  callee := call.2.getD Containment.unknown

/-- UTF-8 characters that need no escapes. -/
def IsPlainText (string : CString) : Prop :=
  ∃ chars, string.bytes = utf8 chars ∧ chars.all isPlain = true

/-- Each byte read as a character, the array decodes to the recorded violations. -/
def ReadsBytes (array : Bytes) (violations : List (ViolationEntry CString)) : Prop :=
  (parseLine array).bind decodeViolations =
    some (violations.map (·.map fun string => string.bytes.map byteChar))

/-- Read as UTF-8, the array is JSON that decodes to the recorded violations. -/
def ReadsText (array : Bytes) (violations : List (ViolationEntry CString)) : Prop :=
  ∃ text value vs, array = utf8 text ∧ Spells text value ∧ decodeViolations value = some vs ∧
    vs.map (·.map utf8) = violations.map (·.map (·.bytes))

theorem map_map {S T U : Type} (f : S → T) (g : T → U) (vs : List (ViolationEntry S)) :
    (vs.map (·.map f)).map (·.map g) = vs.map (·.map fun s => g (f s)) :=
  List.map_map

/-- The characters of violations in UTF-8. -/
theorem exists_characters {vs : List (ViolationEntry CString)}
    (text : ∀ v ∈ vs, v.Both IsPlainText) :
    ∃ ws : List (ViolationEntry (List Char)), (∀ w ∈ ws, Plain w) ∧
      ws.map (·.map utf8) = vs.map (·.map (·.bytes)) := by
  induction vs with
  | nil => exact ⟨[], nofun, rfl⟩
  | cons v vs ih =>
      obtain ⟨first, rest⟩ := List.forall_mem_cons.mp text
      obtain ⟨⟨caller, isCaller, plain⟩, callee, isCallee, plain'⟩ := first
      obtain ⟨ws, plainRest, same⟩ := ih rest
      refine ⟨⟨caller, callee⟩ :: ws, List.forall_mem_cons.mpr ⟨⟨plain, plain'⟩, plainRest⟩, ?_⟩
      rw [List.map_cons, List.map_cons, same, ViolationEntry.map, ViolationEntry.map, isCaller,
        isCallee]

section Readings

variable {vs : List (ViolationEntry CString)} (nonempty : vs ≠ [])
include nonempty

theorem readsBytes_iff :
    ReadsBytes (dumpArray literalBytes (vs.map (·.map (·.bytes)))) vs ↔
      ∀ v ∈ vs, v.Both fun string => string.bytes.all isPlainByte = true := by
  have nonempty' : vs.map (·.map fun string => string.bytes.map byteChar) ≠ [] :=
    mt List.map_eq_nil_iff.mp nonempty
  have core := dumpArray_spells_iff nonempty'
  rw [ReadsBytes, parseLine, map_byteChar_dumpArray, map_map, Option.bind_eq_some_iff]
  simp only [Json.parse_eq_some_iff]
  rw [core, List.forall_mem_map]
  simp only [Plain, ViolationEntry.Both, ViolationEntry.map, all_isPlainByte]

theorem readsText_iff :
    ReadsText (dumpArray literalBytes (vs.map (·.map (·.bytes)))) vs ↔
      ∀ v ∈ vs, v.Both IsPlainText := by
  constructor
  · rintro ⟨text, value, ws, array, spells, decoded, same⟩
    have more : ws ≠ [] := by
      rintro rfl
      exact nonempty (List.map_eq_nil_iff.mp same.symm)
    rw [← same, ← utf8_dumpArray] at array
    obtain rfl := JitEngine.utf8_injective array
    have plain := (dumpArray_spells_iff more).mp ⟨value, spells, decoded⟩
    intro v member
    have inside : v.map (·.bytes) ∈ ws.map (·.map utf8) := same ▸ List.mem_map_of_mem member
    obtain ⟨w, member, encoded⟩ := List.mem_map.mp inside
    obtain ⟨caller, callee⟩ := ViolationEntry.mk.inj encoded
    exact ⟨⟨w.caller, caller.symm, (plain w member).1⟩, ⟨w.callee, callee.symm, (plain w member).2⟩⟩
  · intro plain
    obtain ⟨ws, plain, same⟩ := exists_characters plain
    have more : ws ≠ [] := by
      rintro rfl
      exact nonempty (List.map_eq_nil_iff.mp same.symm)
    obtain ⟨value, spells, decoded⟩ := (dumpArray_spells_iff more).mpr plain
    exact ⟨_, value, ws, by rw [utf8_dumpArray, same], spells, decoded, same⟩

end Readings

namespace Containment

/-- What is recorded since a reset is dumped as an array between two lines of text.  It decodes to
the recorded violations exactly where no string has a quote, a backslash or a control character;
read as UTF-8 the strings have to be UTF-8 as well. -/
theorem dumped_array_iff (earlier : Containment) (first : CharPtr × CharPtr)
    (rest : List (CharPtr × CharPtr)) :
    let s := earlier.reset.record (first :: rest)
    s.violations = (first :: rest).map recorded ∧
      s.dump = literalBytes "\n=== Topo Containment Violations ===\n" ++ (s.dumpedArray ++
        (literalBytes "Total violations: " ++ (printInt (rest.length + 1) ++
          literalBytes "\n"))) ∧
      (ReadsBytes s.dumpedArray ((first :: rest).map recorded) ↔
        ∀ call ∈ first :: rest,
          (recorded call).Both fun string => string.bytes.all isPlainByte = true) ∧
      (ReadsText s.dumpedArray ((first :: rest).map recorded) ↔
        ∀ call ∈ first :: rest, (recorded call).Both IsPlainText) := by
  intro s
  have all : s.violations = (first :: rest).map recorded := earlier.reset.violations_record _
  have nonempty : (first :: rest).map recorded ≠ [] := List.cons_ne_nil _ _
  refine ⟨all, ?_, ?_, ?_⟩
  · rw [dump, all]
    simp only [List.map_cons, List.isEmpty_cons, Bool.false_eq_true, if_false, List.length_cons,
      List.length_map, Int.natCast_add, Int.cast_ofNat_Int]
  · rw [dumpedArray, all, readsBytes_iff nonempty, List.forall_mem_map]
  · rw [dumpedArray, all, readsText_iff nonempty, List.forall_mem_map]

/-- The name of a function with a label of its own starts with a control character. -/
def labelled : CString := ⟨0x01 :: literalBytes "save", by decide⟩

def fopen : CString := ⟨literalBytes "fopen", by decide⟩

/-- The array that the call leads to, as text. -/
def labelledText : List Char :=
  dumpArray String.toList [⟨'\x01' :: "save".toList, "fopen".toList⟩]

theorem not_spells_labelledText (value : Value) : ¬ Spells labelledText value := fun spells =>
  absurd (spells.allowed '\x01' (List.elem_iff.mp rfl)) (by decide)

theorem labelled_unreadable :
    let s := ({} : Containment).record [(some labelled, some fopen)]
    s.violations = [⟨labelled, fopen⟩] ∧ parseLine s.dumpedArray = none ∧
      ¬ ∃ text value, s.dumpedArray = utf8 text ∧ Spells text value := by
  intro s
  have array : s.dumpedArray = utf8 labelledText := by
    rw [labelledText, utf8_dumpArray]
    rfl
  have bytes : s.dumpedArray.map byteChar = labelledText :=
    map_byteChar_dumpArray [⟨labelled.bytes, fopen.bytes⟩]
  refine ⟨rfl, ?_, ?_⟩
  · rw [parseLine, bytes, Option.eq_none_iff_forall_ne_some]
    exact fun value found => not_spells_labelledText value (Json.parse_eq_some_iff.mp found)
  · rintro ⟨text, value, same, spells⟩
    obtain rfl := JitEngine.utf8_injective (array.symm.trans same)
    exact not_spells_labelledText value spells

end Containment

end Runtime
end TopoLlvm
