import TopoLlvm.JitEngine.JsonDocument
import TopoLlvm.Library.JsonParser
import TopoLlvm.Library.JsonWriter
import TopoLlvm.Library.Traversal

/-!
# Contexts and costs as JSON

The runtime writes a specialization context and the cost samples by hand; the engine reads them
with a parser that discards a document on a syntax error.
-/

namespace TopoLlvm
namespace JitEngine

open Json (Value)

/-! ## Writers -/

/-- `Context::NarrowedReturn`. -/
structure NarrowedReturn (S : Type) where
  func : S
  fields : List S
  deriving DecidableEq

/-- `topo::jit::Context`, for a type of strings. -/
structure Context (S : Type) where
  prunedEdges : List (S × S)
  narrowedReturns : List (NarrowedReturn S)
  params : List (S × S)

/-- The part of a context that the engine reads. -/
structure ContextData (S : Type) where
  prunedEdges : List (S × S)
  narrowedReturns : List (NarrowedReturn S)
  deriving DecidableEq

def escapeByte (c : UInt8) : Bytes :=
  if c = 0x22 then [0x5C, 0x22]
  else if c = 0x5C then [0x5C, 0x5C]
  else if c = 0x0A then [0x5C, 0x6E]
  else if c = 0x0D then [0x5C, 0x72]
  else if c = 0x09 then [0x5C, 0x74]
  else [c]

def escapeJson (s : Bytes) : Bytes := 0x22 :: (s.flatMap escapeByte ++ [0x22])

section Writers

variable {α : Type} (literal : String → List α) (escape : List α → List α)

def writeEdge (e : List α × List α) : List α :=
  literal "\x7b\"source\":" ++ (escape e.1 ++ (literal ",\"target\":" ++ (escape e.2 ++
    literal "\x7d")))

def writeNarrowedReturn (nr : NarrowedReturn (List α)) : List α :=
  literal "\x7b\"func\":" ++ (escape nr.func ++ (literal ",\"fields\":[" ++
    (Json.separate (literal ",") (nr.fields.map escape) ++ literal "]\x7d")))

def writeParam (p : List α × List α) : List α :=
  literal "[" ++ (escape p.1 ++ (literal "," ++ (escape p.2 ++ literal "]")))

/-- The writes of `serializeContext`, with the literals and the escaper as parameters. -/
def writeContext (ctx : Context (List α)) : List α :=
  literal "\x7b" ++ (literal "\"prunedEdges\":[" ++
    (Json.separate (literal ",") (ctx.prunedEdges.map (writeEdge literal escape)) ++
  (literal "]," ++ (literal "\"narrowedReturns\":[" ++
    (Json.separate (literal ",") (ctx.narrowedReturns.map (writeNarrowedReturn literal escape)) ++
  (literal "]," ++ (literal "\"params\":[" ++
    (Json.separate (literal ",") (ctx.params.map (writeParam literal escape)) ++
  (literal "]" ++ literal "\x7d")))))))))

def writeSample (sample : List α × UInt64) : List α :=
  escape sample.1 ++ (literal ":" ++ literal (Nat.repr sample.2.toNat))

/-- The writes of `serializeCostSamples`. -/
def writeCosts (samples : List (List α × UInt64)) : List α :=
  literal "\x7b" ++ (Json.separate (literal ",") (samples.map (writeSample literal escape)) ++
    literal "\x7d")

end Writers

def literalBytes (text : String) : Bytes := utf8 text.toList

def serializeContext (ctx : Context Bytes) : Bytes := writeContext literalBytes escapeJson ctx

def serializeCostSamples (samples : List (Bytes × UInt64)) : Bytes :=
  writeCosts literalBytes escapeJson samples

/-! ## Readers -/

variable (parse : Parser)

/-- An element of `prunedEdges`. -/
def readEdge (e : Value) : Option (Bytes × Bytes) := do
  let source ← valueString "source".toList e
  let target ← valueString "target".toList e
  return (source, target)

/-- An element of `narrowedReturns`. -/
def readNarrowedReturn (nr : Value) : Option (NarrowedReturn Bytes) := do
  let func ← valueString "func".toList nr
  let fields ← ((member? "fields".toList nr).elim [] elements).mapM getString
  return { func, fields }

/-- No result where a type error is thrown. -/
def deserializeContext (json : Bytes) : Option (ContextData Bytes) :=
  match parse json with
  | none => some { prunedEdges := [], narrowedReturns := [] }
  | some doc => do
      let prunedEdges ←
        ((member? "prunedEdges".toList doc).elim [] elements).mapM readEdge
      let narrowedReturns ←
        ((member? "narrowedReturns".toList doc).elim [] elements).mapM readNarrowedReturn
      return { prunedEdges, narrowedReturns }

/-- The costs in the order of the document's keys. -/
def deserializeCosts (json : Bytes) : List (Bytes × UInt64) :=
  match parse json with
  | none => []
  | some doc => (items doc).filterMap fun (key, value) =>
      (getUnsigned? value).map fun cost => (utf8 key, cost)

/-! ## Bytes and characters -/

theorem utf8_append (front back : List Char) : utf8 (front ++ back) = utf8 front ++ utf8 back :=
  List.flatMap_append ..

theorem utf8_cons (c : Char) (text : List Char) :
    utf8 (c :: text) = String.utf8EncodeChar c ++ utf8 text := rfl

theorem utf8_injective : Function.Injective utf8 := by
  intro text text' same
  have encoded (text : List Char) : text.utf8Encode = (utf8 text).toByteArray := rfl
  have decoded := List.utf8Decode?_utf8Encode (l := text)
  rw [encoded, same, ← encoded, List.utf8Decode?_utf8Encode, Option.some.injEq] at decoded
  simpa using decoded.symm

/-- The escapes on characters. -/
def escapeChar (c : Char) : List Char :=
  if c = '"' then ['\\', '"']
  else if c = '\\' then ['\\', '\\']
  else if c = '\n' then ['\\', 'n']
  else if c = '\r' then ['\\', 'r']
  else if c = '\t' then ['\\', 't']
  else [c]

def escapeText (text : List Char) : List Char := '"' :: (text.flatMap escapeChar ++ ['"'])

theorem escapeByte_of_le {b : UInt8} (high : 0x80 ≤ b.toNat) : escapeByte b = [b] := by
  have apart {low : UInt8} (small : low.toNat < 0x80) : b ≠ low := by
    rintro rfl
    omega
  simp [escapeByte, apart]

theorem le_of_mem_utf8EncodeChar {c : Char} (high : 0x7F < c.val.toNat) {b : UInt8}
    (member : b ∈ String.utf8EncodeChar c) : 0x80 ≤ b.toNat := by
  have bound := c.val.toNat_lt
  unfold String.utf8EncodeChar at member
  rw [if_neg (by omega)] at member
  split at member
  · simp only [List.mem_cons, List.not_mem_nil, or_false] at member
    rcases member with rfl | rfl <;> simp only [UInt8.toNat_ofNat'] <;> omega
  · split at member
    · simp only [List.mem_cons, List.not_mem_nil, or_false] at member
      rcases member with rfl | rfl | rfl <;> simp only [UInt8.toNat_ofNat'] <;> omega
    · simp only [List.mem_cons, List.not_mem_nil, or_false] at member
      rcases member with rfl | rfl | rfl | rfl <;> simp only [UInt8.toNat_ofNat'] <;> omega

/-- The escaper works on characters although it goes through the bytes. -/
theorem flatMap_escapeByte (c : Char) :
    (String.utf8EncodeChar c).flatMap escapeByte = utf8 (escapeChar c) := by
  by_cases ascii : c.val.toNat ≤ 0x7F
  · have table : ∀ code : Fin 128, (String.utf8EncodeChar (Char.ofNat code)).flatMap escapeByte =
        utf8 (escapeChar (Char.ofNat code)) := by decide
    have named : Char.ofNat c.val.toNat = c := Char.ofNat_toNat c
    rw [← named]
    exact table ⟨c.val.toNat, by omega⟩
  · have apart {low : Char} (small : low.val.toNat ≤ 0x7F) : c ≠ low := by
      rintro rfl
      exact ascii small
    have plain : escapeChar c = [c] := by simp [escapeChar, apart]
    have kept : ∀ b ∈ String.utf8EncodeChar c, escapeByte b = [b] := fun b member =>
      escapeByte_of_le (le_of_mem_utf8EncodeChar (by omega) member)
    rw [plain, List.flatMap_congr kept]
    simp [utf8]

theorem escapeJson_utf8 (text : List Char) : escapeJson (utf8 text) = utf8 (escapeText text) := by
  have body : (utf8 text).flatMap escapeByte = utf8 (text.flatMap escapeChar) := by
    simp only [utf8, List.flatMap_assoc]
    exact List.flatMap_congr fun c _ => flatMap_escapeByte c
  rw [escapeJson, body, escapeText, utf8_cons, utf8_append]
  rfl

/-! ## Contexts of UTF-8 strings -/

def NarrowedReturn.encode (nr : NarrowedReturn (List Char)) : NarrowedReturn Bytes :=
  { func := utf8 nr.func, fields := nr.fields.map utf8 }

/-- The context with the UTF-8 encodings of the strings. -/
def Context.encode (ctx : Context (List Char)) : Context Bytes where
  prunedEdges := ctx.prunedEdges.map (Prod.map utf8 utf8)
  narrowedReturns := ctx.narrowedReturns.map NarrowedReturn.encode
  params := ctx.params.map (Prod.map utf8 utf8)

/-- What the engine is to read of the context. -/
def Context.data {S : Type} (ctx : Context S) : ContextData S where
  prunedEdges := ctx.prunedEdges
  narrowedReturns := ctx.narrowedReturns

/-- A map of costs by name. -/
structure CostMap where
  samples : List (List Char × UInt64)
  distinct : (samples.map (·.1)).Nodup

def CostMap.encode (costs : CostMap) : List (Bytes × UInt64) :=
  costs.samples.map (Prod.map utf8 id)

def contextText (ctx : Context (List Char)) : List Char := writeContext String.toList escapeText ctx

def costsText (costs : CostMap) : List Char := writeCosts String.toList escapeText costs.samples

theorem literalBytes_eq (text : String) : literalBytes text = utf8 text.toList := rfl

theorem separate_utf8 {ι κ : Type} (encode : ι → κ) {items : List ι} {text : ι → List Char}
    {bytes : κ → Bytes} (each : ∀ item, bytes (encode item) = utf8 (text item)) :
    Json.separate (utf8 ",".toList) ((items.map encode).map bytes) =
      utf8 (Json.separate ",".toList (items.map text)) := by
  have parts : (items.map encode).map bytes = (items.map text).map utf8 := by
    rw [List.map_map, List.map_map]
    exact List.map_congr_left fun item _ => each item
  rw [parts]
  exact (Json.flatMap_separate _ _ _).symm

theorem writeEdge_utf8 (e : List Char × List Char) :
    writeEdge literalBytes escapeJson (Prod.map utf8 utf8 e) =
      utf8 (writeEdge String.toList escapeText e) := by
  simp only [writeEdge, Prod.map, literalBytes_eq, escapeJson_utf8, utf8_append]

theorem writeNarrowedReturn_utf8 (nr : NarrowedReturn (List Char)) :
    writeNarrowedReturn literalBytes escapeJson nr.encode =
      utf8 (writeNarrowedReturn String.toList escapeText nr) := by
  simp only [writeNarrowedReturn, NarrowedReturn.encode, separate_utf8 utf8 escapeJson_utf8,
    literalBytes_eq, escapeJson_utf8, utf8_append]

theorem writeParam_utf8 (p : List Char × List Char) :
    writeParam literalBytes escapeJson (Prod.map utf8 utf8 p) =
      utf8 (writeParam String.toList escapeText p) := by
  simp only [writeParam, Prod.map, literalBytes_eq, escapeJson_utf8, utf8_append]

theorem writeSample_utf8 (sample : List Char × UInt64) :
    writeSample literalBytes escapeJson (Prod.map utf8 id sample) =
      utf8 (writeSample String.toList escapeText sample) := by
  simp only [writeSample, Prod.map, id, literalBytes_eq, escapeJson_utf8, utf8_append]

theorem serializeContext_encode (ctx : Context (List Char)) :
    serializeContext ctx.encode = utf8 (contextText ctx) := by
  simp only [serializeContext, contextText, writeContext, Context.encode,
    separate_utf8 _ writeEdge_utf8, separate_utf8 _ writeNarrowedReturn_utf8,
    separate_utf8 _ writeParam_utf8, literalBytes_eq, utf8_append]

theorem serializeCostSamples_encode (costs : CostMap) :
    serializeCostSamples costs.encode = utf8 (costsText costs) := by
  simp only [serializeCostSamples, costsText, writeCosts, CostMap.encode,
    separate_utf8 _ writeSample_utf8, literalBytes_eq, utf8_append]

/-! ## Texts that can be read -/

/-- A string whose control characters are all escaped. -/
def Printable (text : List Char) : Prop :=
  ∀ c ∈ text, c.toNat < 0x20 → c = '\n' ∨ c = '\r' ∨ c = '\t'

instance (text : List Char) : Decidable (Printable text) := List.decidableBAll _ text

/-- All strings of the context are printable. -/
def Context.Printable (ctx : Context (List Char)) : Prop :=
  (∀ e ∈ ctx.prunedEdges, JitEngine.Printable e.1 ∧ JitEngine.Printable e.2) ∧
    (∀ nr ∈ ctx.narrowedReturns, JitEngine.Printable nr.func ∧
      ∀ field ∈ nr.fields, JitEngine.Printable field) ∧
    ∀ p ∈ ctx.params, JitEngine.Printable p.1 ∧ JitEngine.Printable p.2

def CostMap.Printable (costs : CostMap) : Prop :=
  ∀ sample ∈ costs.samples, JitEngine.Printable sample.1

open Json (Derives StringText CharText Spells derives_array derives_object)

theorem charText_escapeChar {c : Char}
    (printable : c.toNat < 0x20 → c = '\n' ∨ c = '\r' ∨ c = '\t') :
    CharText (escapeChar c) c := by
  unfold escapeChar
  split
  · subst_vars
    exact .escaped rfl
  · split
    · subst_vars
      exact .escaped rfl
    · split
      · subst_vars
        exact .escaped rfl
      · split
        · subst_vars
          exact .escaped rfl
        · split
          · subst_vars
            exact .escaped rfl
          · refine .unescaped (Nat.le_of_not_lt fun control => ?_) ‹_› ‹_›
            rcases printable control with rfl | rfl | rfl <;> contradiction

theorem stringText_escape {text : List Char} (printable : Printable text) :
    StringText (text.flatMap escapeChar) text := by
  induction text with
  | nil => exact .nil
  | cons c text ih =>
      exact .cons (charText_escapeChar (printable c List.mem_cons_self))
        (ih fun other member => printable other (List.mem_cons_of_mem _ member))

theorem derives_escapeText {text : List Char} (printable : Printable text) :
    Derives (.value (.string text)) (escapeText text) :=
  .string (stringText_escape printable)

/-- The value of an edge, and so on for the other parts. -/
def edgeValue (e : List Char × List Char) : Value :=
  .object [("source".toList, .string e.1), ("target".toList, .string e.2)]

def narrowedReturnValue (nr : NarrowedReturn (List Char)) : Value :=
  .object [("func".toList, .string nr.func), ("fields".toList, .array (nr.fields.map .string))]

def paramValue (p : List Char × List Char) : Value := .array [.string p.1, .string p.2]

def contextValue (ctx : Context (List Char)) : Value :=
  .object [("prunedEdges".toList, .array (ctx.prunedEdges.map edgeValue)),
    ("narrowedReturns".toList, .array (ctx.narrowedReturns.map narrowedReturnValue)),
    ("params".toList, .array (ctx.params.map paramValue))]

def costsValue (costs : CostMap) : Value :=
  .object (costs.samples.map fun sample =>
    (sample.1, .number (Nat.toDigits 10 sample.2.toNat)))

/-- A written object with names that need no escape. -/
theorem derives_named (members : List (List Char × Value × List Char))
    (plain : members.all (fun m => m.1.all Json.isPlain) = true)
    (each : ∀ m ∈ members, Derives (.value m.2.1) m.2.2) :
    Derives (.value (.object (members.map fun m => (m.1, m.2.1))))
      ('\x7b' :: (Json.separate [','] (members.map fun m => Json.memberText m.1 m.2.2) ++
        ['\x7d'])) :=
  derives_object fun m member =>
    ⟨Json.stringText_plain (List.all_eq_true.mp plain m member), each m member⟩

theorem derives_edge {e : List Char × List Char} (printable : Printable e.1 ∧ Printable e.2) :
    Derives (.value (edgeValue e)) (writeEdge String.toList escapeText e) := by
  simpa [edgeValue, writeEdge, Json.separate, Json.memberText] using
    derives_named [("source".toList, .string e.1, escapeText e.1),
      ("target".toList, .string e.2, escapeText e.2)] rfl
      (by simp [derives_escapeText, printable.1, printable.2])

theorem derives_narrowedReturn {nr : NarrowedReturn (List Char)}
    (printable : Printable nr.func ∧ ∀ field ∈ nr.fields, Printable field) :
    Derives (.value (narrowedReturnValue nr)) (writeNarrowedReturn String.toList escapeText nr) := by
  have fields : Derives (.value (.array (nr.fields.map .string)))
      ('[' :: (Json.separate [','] (nr.fields.map escapeText) ++ [']'])) :=
    derives_array fun field member => derives_escapeText (printable.2 field member)
  simpa [narrowedReturnValue, writeNarrowedReturn, Json.separate, Json.memberText] using
    derives_named [("func".toList, .string nr.func, escapeText nr.func),
      ("fields".toList, .array (nr.fields.map .string), _)] rfl
      (List.forall_mem_cons.mpr ⟨derives_escapeText printable.1,
        List.forall_mem_singleton.mpr fields⟩)

theorem derives_param {p : List Char × List Char} (printable : Printable p.1 ∧ Printable p.2) :
    Derives (.value (paramValue p)) (writeParam String.toList escapeText p) := by
  have pair : ∀ text ∈ [p.1, p.2], Printable text :=
    List.forall_mem_cons.mpr ⟨printable.1, List.forall_mem_singleton.mpr printable.2⟩
  have items : Derives (.value (.array ([p.1, p.2].map .string)))
      ('[' :: (Json.separate [','] ([p.1, p.2].map escapeText) ++ [']'])) :=
    derives_array fun text member => derives_escapeText (pair text member)
  simpa [paramValue, writeParam, Json.separate] using items

/-- The text of a printable context spells its value. -/
theorem spells_contextText {ctx : Context (List Char)} (printable : ctx.Printable) :
    Spells (contextText ctx) (contextValue ctx) := by
  obtain ⟨edges, returns, params⟩ := printable
  have prunedEdges : Derives (.value (.array (ctx.prunedEdges.map edgeValue)))
      ('[' :: (Json.separate [','] (ctx.prunedEdges.map (writeEdge String.toList escapeText)) ++
        [']'])) :=
    derives_array fun e member => derives_edge (edges e member)
  have narrowedReturns : Derives (.value (.array (ctx.narrowedReturns.map narrowedReturnValue)))
      ('[' :: (Json.separate [',']
        (ctx.narrowedReturns.map (writeNarrowedReturn String.toList escapeText)) ++ [']'])) :=
    derives_array fun nr member => derives_narrowedReturn (returns nr member)
  have others : Derives (.value (.array (ctx.params.map paramValue)))
      ('[' :: (Json.separate [','] (ctx.params.map (writeParam String.toList escapeText)) ++
        [']'])) :=
    derives_array fun p member => derives_param (params p member)
  refine Derives.pad ?_
  simpa [contextValue, contextText, writeContext, Json.separate, Json.memberText] using
    derives_named [("prunedEdges".toList, .array (ctx.prunedEdges.map edgeValue), _),
      ("narrowedReturns".toList, .array (ctx.narrowedReturns.map narrowedReturnValue), _),
      ("params".toList, .array (ctx.params.map paramValue), _)] rfl
      (List.forall_mem_cons.mpr ⟨prunedEdges, List.forall_mem_cons.mpr
        ⟨narrowedReturns, List.forall_mem_singleton.mpr others⟩⟩)

theorem spells_costsText {costs : CostMap} (printable : costs.Printable) :
    Spells (costsText costs) (costsValue costs) := by
  refine Derives.pad ?_
  have object := derives_object fun sample member =>
    ⟨stringText_escape (printable sample member),
      Derives.number (Json.isNumber_toDigits sample.2.toNat)⟩
  have each (sample : List Char × UInt64) : writeSample String.toList escapeText sample =
      Json.memberText (sample.1.flatMap escapeChar) (Nat.toDigits 10 sample.2.toNat) := by
    simp [writeSample, escapeText, Json.memberText]
  simpa [costsValue, costsText, writeCosts, funext each] using object

/-! ## Texts that are discarded -/

/-- A text with a character that no JSON text has. -/
def Spoiled (text : List Char) : Prop := ∃ c ∈ text, Json.isAllowed c = false

theorem spoiled_escapeText {text : List Char} (control : ¬ Printable text) :
    Spoiled (escapeText text) := by
  unfold Printable at control
  push Not at control
  obtain ⟨c, member, low, newline, carriage, tab⟩ := control
  have visible {other : Char} (high : 0x20 ≤ other.toNat) : c ≠ other := by
    rintro rfl
    omega
  have kept : escapeChar c = [c] := by
    simp [escapeChar, visible, newline, carriage, tab]
  have allowed : Json.isAllowed c = false := by
    have space : c ≠ ' ' := visible (by decide)
    have below : ¬ 0x20 ≤ c.toNat := by omega
    simp [Json.isAllowed, Json.isBlank, space, tab, newline, carriage, below]
  refine ⟨c, List.mem_cons_of_mem _ (List.mem_append_left _ (List.mem_flatMap.mpr
    ⟨c, member, ?_⟩)), allowed⟩
  rw [kept]
  exact List.mem_singleton_self c

theorem Spoiled.left {front : List Char} (spoiled : Spoiled front) (back : List Char) :
    Spoiled (front ++ back) := by
  obtain ⟨c, member, control⟩ := spoiled
  exact ⟨c, List.mem_append_left _ member, control⟩

theorem Spoiled.right {back : List Char} (spoiled : Spoiled back) (front : List Char) :
    Spoiled (front ++ back) := by
  obtain ⟨c, member, control⟩ := spoiled
  exact ⟨c, List.mem_append_right _ member, control⟩

theorem spoiled_separate {ι : Type} {items : List ι} {item : ι} {text : ι → List Char}
    (separator : List Char) (member : item ∈ items) (spoiled : Spoiled (text item)) :
    Spoiled (Json.separate separator (items.map text)) := by
  obtain ⟨c, inside, control⟩ := spoiled
  exact ⟨c, Json.mem_separate (List.mem_map_of_mem member) inside, control⟩

theorem Spoiled.not_spells {text : List Char} (spoiled : Spoiled text) (value : Value) :
    ¬ Spells text value := by
  obtain ⟨c, member, control⟩ := spoiled
  exact fun spells => Bool.false_ne_true (control.symm.trans (spells.allowed c member))

theorem spoiled_edge {e : List Char × List Char} (control : ¬ (Printable e.1 ∧ Printable e.2)) :
    Spoiled (writeEdge String.toList escapeText e) := by
  by_cases first : Printable e.1
  · have second := spoiled_escapeText fun printable => control ⟨first, printable⟩
    exact (((second.left _).right _).right _).right _
  · exact ((spoiled_escapeText first).left _).right _

theorem spoiled_narrowedReturn {nr : NarrowedReturn (List Char)}
    (control : ¬ (Printable nr.func ∧ ∀ field ∈ nr.fields, Printable field)) :
    Spoiled (writeNarrowedReturn String.toList escapeText nr) := by
  by_cases first : Printable nr.func
  · have others : ¬ ∀ field ∈ nr.fields, Printable field := fun printable =>
      control ⟨first, printable⟩
    push Not at others
    obtain ⟨field, member, unprintable⟩ := others
    have inside := spoiled_separate ",".toList member (spoiled_escapeText unprintable)
    exact (((inside.left _).right _).right _).right _
  · exact ((spoiled_escapeText first).left _).right _

theorem spoiled_param {p : List Char × List Char} (control : ¬ (Printable p.1 ∧ Printable p.2)) :
    Spoiled (writeParam String.toList escapeText p) := by
  by_cases first : Printable p.1
  · have second := spoiled_escapeText fun printable => control ⟨first, printable⟩
    exact (((second.left _).right _).right _).right _
  · exact ((spoiled_escapeText first).left _).right _

/-- The text of a context with another control character spells nothing. -/
theorem spoiled_contextText {ctx : Context (List Char)} (control : ¬ ctx.Printable) :
    Spoiled (contextText ctx) := by
  by_cases edges : ∀ e ∈ ctx.prunedEdges, Printable e.1 ∧ Printable e.2
  · by_cases returns : ∀ nr ∈ ctx.narrowedReturns, Printable nr.func ∧
        ∀ field ∈ nr.fields, Printable field
    · have params : ¬ ∀ p ∈ ctx.params, Printable p.1 ∧ Printable p.2 := fun params =>
        control ⟨edges, returns, params⟩
      simp only [not_forall] at params
      obtain ⟨p, member, unprintable⟩ := params
      have inside := spoiled_separate ",".toList member (spoiled_param unprintable)
      exact ((((((((((inside.left _).right _).right _).right _).right _).right _).right _).right
        _).right _))
    · simp only [not_forall] at returns
      obtain ⟨nr, member, unprintable⟩ := returns
      have inside := spoiled_separate ",".toList member
        (spoiled_narrowedReturn unprintable)
      exact (((((inside.left _).right _).right _).right _).right _).right _
  · simp only [not_forall] at edges
    obtain ⟨e, member, unprintable⟩ := edges
    have inside := spoiled_separate ",".toList member (spoiled_edge unprintable)
    exact ((inside.left _).right _).right _

theorem spoiled_costsText {costs : CostMap} (control : ¬ costs.Printable) :
    Spoiled (costsText costs) := by
  unfold CostMap.Printable at control
  simp only [not_forall] at control
  obtain ⟨sample, member, unprintable⟩ := control
  have name : Spoiled (writeSample String.toList escapeText sample) :=
    (spoiled_escapeText unprintable).left _
  exact ((spoiled_separate _ member name).left _).right _

/-! ## What is read back -/

section Read

variable {parse} (conforms : Conforms parse)
include conforms

theorem parse_of_spells {text : List Char} {value : Value} (spells : Spells text value) :
    parse (utf8 text) = some value :=
  (conforms _ _).mpr ⟨text, rfl, spells⟩

theorem parse_of_spoiled {text : List Char} (spoiled : Spoiled text) :
    parse (utf8 text) = none := by
  refine Option.eq_none_iff_forall_ne_some.mpr fun value found => ?_
  obtain ⟨other, same, spells⟩ := (conforms _ _).mp found
  exact spoiled.not_spells value (utf8_injective same ▸ spells)

end Read

theorem readEdge_edgeValue (e : List Char × List Char) :
    readEdge (edgeValue e) = some (Prod.map utf8 utf8 e) := rfl

theorem readNarrowedReturn_narrowedReturnValue (nr : NarrowedReturn (List Char)) :
    readNarrowedReturn (narrowedReturnValue nr) = some nr.encode := by
  have fields : (nr.fields.map Value.string).mapM getString = some (nr.fields.map utf8) :=
    Traversal.mapM_map
      (fun chars => show getString (.string chars) = some (utf8 chars) from rfl) nr.fields
  have member : member? "fields".toList (narrowedReturnValue nr) =
      some (.array (nr.fields.map .string)) := rfl
  have func : valueString "func".toList (narrowedReturnValue nr) = some (utf8 nr.func) := rfl
  simp only [readNarrowedReturn, func, member, Option.elim_some, elements, fields]
  rfl

/-- The value of a context is read as the context. -/
theorem deserializeContext_of_value {json : Bytes} {ctx : Context (List Char)}
    (parsed : parse json = some (contextValue ctx)) :
    deserializeContext parse json = some ctx.encode.data := by
  have prunedEdges : member? "prunedEdges".toList (contextValue ctx) =
      some (.array (ctx.prunedEdges.map edgeValue)) := rfl
  have narrowedReturns : member? "narrowedReturns".toList (contextValue ctx) =
      some (.array (ctx.narrowedReturns.map narrowedReturnValue)) := rfl
  simp only [deserializeContext, parsed, prunedEdges, narrowedReturns, Option.elim_some, elements,
    Traversal.mapM_map readEdge_edgeValue, Traversal.mapM_map readNarrowedReturn_narrowedReturnValue]
  rfl

/-- The value of a cost map is read as the costs. -/
theorem getUnsigned?_toDigits (number : UInt64) :
    getUnsigned? (.number (Nat.toDigits 10 number.toNat)) = some number := by
  have digits : (Nat.toDigits 10 number.toNat).all Char.isDigit = true :=
    List.all_eq_true.mpr fun c member => Nat.isDigit_of_mem_toDigits (by decide) (by decide) member
  simp [getUnsigned?, digits, Nat.ofDigitChars_ten_toDigits, number.toNat_lt]

theorem deserializeCosts_of_value {json : Bytes} {costs : CostMap}
    (parsed : parse json = some (costsValue costs)) :
    deserializeCosts parse json = (entries costs.samples).map (Prod.map utf8 id) := by
  have members : costs.samples.map (fun sample =>
      (sample.1, Value.number (Nat.toDigits 10 sample.2.toNat))) =
        costs.samples.map (Prod.map id fun cost : UInt64 => .number (Nat.toDigits 10 cost.toNat)) :=
    rfl
  simp only [deserializeCosts, parsed, costsValue, items, members, entries_map, List.filterMap_map]
  rw [← List.filterMap_eq_map]
  exact List.filterMap_congr fun sample _ => by simp [getUnsigned?_toDigits, Prod.map]

/-- Names are looked up as their encodings. -/
theorem lookup_encode (map : List (List Char × UInt64)) (name : List Char) :
    (map.map (Prod.map utf8 id)).lookup (utf8 name) = map.lookup name := by
  induction map with
  | nil => rfl
  | cons entry map ih =>
      rw [List.map_cons, List.lookup_cons, ih, lookup_cons, Prod.map_fst]
      by_cases here : name = entry.1
      · simp [here]
      · have apart : (utf8 name == utf8 entry.1) = false :=
          beq_eq_false_iff_ne.mpr fun same => here (utf8_injective same)
        rw [apart, if_neg here]

theorem lookup_encode_of_ne (map : List (List Char × UInt64)) {name : Bytes}
    (apart : ∀ text, name ≠ utf8 text) : (map.map (Prod.map utf8 id)).lookup name = none := by
  refine List.lookup_eq_none_iff.mpr fun entry member => ?_
  obtain ⟨sample, -, rfl⟩ := List.mem_map.mp member
  exact bne_iff_ne.mpr (apart sample.1)

/-- The costs that are read are those that were written, for every name. -/
theorem lookup_entries_samples (costs : CostMap) (name : Bytes) :
    ((entries costs.samples).map (Prod.map utf8 id)).lookup name = costs.encode.lookup name := by
  unfold CostMap.encode
  by_cases text : ∃ text, name = utf8 text
  · obtain ⟨text, rfl⟩ := text
    rw [lookup_encode, lookup_encode, lookup_entries, lookup_reverse costs.distinct]
  · push Not at text
    rw [lookup_encode_of_ne _ text, lookup_encode_of_ne _ text]

/-! ## The round trip -/

/-- A context and costs are recovered exactly where the escaper has an escape for each of their
control characters, or where there is nothing to recover. -/
theorem contextJson_roundtrip_iff (conforms : Conforms parse) (ctx : Context (List Char))
    (costs : CostMap) :
    (deserializeContext parse (serializeContext ctx.encode) = some ctx.encode.data ∧
        ∀ name, (deserializeCosts parse (serializeCostSamples costs.encode)).lookup name =
          costs.encode.lookup name) ↔
      (ctx.Printable ∨ ctx.prunedEdges = [] ∧ ctx.narrowedReturns = []) ∧ costs.Printable := by
  rw [serializeContext_encode, serializeCostSamples_encode]
  refine and_congr ?_ ?_
  · by_cases printable : ctx.Printable
    · have parsed := parse_of_spells conforms (spells_contextText printable)
      exact iff_of_true (deserializeContext_of_value parse parsed) (.inl printable)
    · have discarded := parse_of_spoiled conforms (spoiled_contextText printable)
      rw [deserializeContext, discarded, or_iff_right printable, Option.some.injEq]
      constructor
      · intro same
        exact ⟨List.map_eq_nil_iff.mp (congrArg ContextData.prunedEdges same).symm,
          List.map_eq_nil_iff.mp (congrArg ContextData.narrowedReturns same).symm⟩
      · rintro ⟨edges, returns⟩
        simp [Context.data, Context.encode, edges, returns]
  · by_cases printable : costs.Printable
    · have parsed := parse_of_spells conforms (spells_costsText printable)
      refine iff_of_true (fun name => ?_) printable
      rw [deserializeCosts_of_value parse parsed, lookup_entries_samples]
    · have discarded := parse_of_spoiled conforms (spoiled_costsText printable)
      refine iff_of_false (fun same => printable fun sample member => ?_) printable
      have missing := same (utf8 sample.1)
      rw [deserializeCosts, discarded, CostMap.encode, lookup_encode] at missing
      have absent := List.lookup_eq_none_iff.mp missing.symm sample member
      simp at absent

/-! ## A parser, and a pruned edge with a control character -/

/-- Decode the bytes and parse the text. -/
def parseBytes : Parser := fun bytes =>
  bytes.toByteArray.utf8Decode?.bind fun text => Json.parse text.toList

theorem conforms_parseBytes : Conforms parseBytes := by
  intro bytes value
  have decodes (text : List Char) :
      bytes.toByteArray.utf8Decode? = some text.toArray ↔ bytes = utf8 text := by
    constructor
    · intro decoded
      have encoded : text.utf8Encode = bytes.toByteArray := by
        have known : bytes.toByteArray.utf8Decode?.isSome := by rw [decoded]; rfl
        have back := @ByteArray.utf8Encode_get_utf8Decode? bytes.toByteArray known
        simpa [decoded] using back
      have same : (utf8 text).toByteArray = bytes.toByteArray := encoded
      simpa using congrArg ByteArray.data same.symm
    · rintro rfl
      exact List.utf8Decode?_utf8Encode
  rw [parseBytes, Option.bind_eq_some_iff]
  constructor
  · rintro ⟨text, decoded, parsed⟩
    exact ⟨text.toList, (decodes text.toList).mp decoded, Json.parse_eq_some_iff.mp parsed⟩
  · rintro ⟨text, encoded, spells⟩
    exact ⟨text.toArray, (decodes text).mpr encoded, Json.parse_eq_some_iff.mpr spells⟩

/-- A context with a pruned edge and a parameter. -/
def edgeContext (source : List Char) : Context (List Char) where
  prunedEdges := [(source, "b".toList)]
  narrowedReturns := [{ func := "f".toList, fields := ["x\t".toList, "é\"".toList] }]
  params := [("key".toList, [])]

def loadCosts : CostMap where
  samples := [("ns::run::load".toList, 12), ("ns::run".toList, 18446744073709551615)]
  distinct := by decide

theorem contextJson_roundtrip_iff_printable :
    deserializeContext parseBytes (serializeContext (edgeContext "a".toList).encode) =
      some (edgeContext "a".toList).encode.data := by
  have printable : (edgeContext "a".toList).Printable := by
    unfold Context.Printable
    decide
  have costs : loadCosts.Printable := by
    unfold CostMap.Printable
    decide
  exact ((contextJson_roundtrip_iff parseBytes conforms_parseBytes (edgeContext "a".toList)
    loadCosts).mpr ⟨.inl printable, costs⟩).1

/-- The source of the edge is a control character: the engine reads an empty context. -/
theorem contextJson_loses_control :
    deserializeContext parseBytes (serializeContext (edgeContext ['\x01']).encode) =
        some { prunedEdges := [], narrowedReturns := [] } ∧
      deserializeContext parseBytes (serializeContext (edgeContext ['\x01']).encode) ≠
        some (edgeContext ['\x01']).encode.data := by
  have control : ¬ (edgeContext ['\x01']).Printable := by
    unfold Context.Printable
    decide
  have discarded := parse_of_spoiled conforms_parseBytes (spoiled_contextText control)
  rw [serializeContext_encode, deserializeContext, discarded]
  exact ⟨rfl, by decide⟩

end JitEngine
end TopoLlvm
