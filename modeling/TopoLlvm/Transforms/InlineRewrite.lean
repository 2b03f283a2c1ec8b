import TopoLlvm.Library.Relocation
import TopoLlvm.Library.Worklist
import TopoLlvm.Transforms.DemandedFields

/-!
# Columns of one pipeline function

`transformPipelineInlineRewrite` copies the fields that a pipeline function uses of an array of
structs into columns at its entry, lets the accesses that it recognises go to the columns, and copies
the columns back before each return.
-/

namespace TopoLlvm
namespace InlineRewrite

open ReturnSpecialization

/-- The array parameter and the types that the pass compares, by their numbers. -/
structure Site where
  argIndex : Nat
  wrapperSty : Nat
  elemSty : Nat
  arraySize : Nat
  /-- The types of the fields of an element. -/
  fieldTypes : List Nat
  /-- The element type of an array type. -/
  elementType : Nat → Option Nat
  /-- `ArrayType::get` of a field's type and the size of the array. -/
  columnType : Nat → Nat
  /-- A float, a double or an integer. -/
  isScalar : Nat → Bool
  isBitCast : Nat → Bool

/-- What becomes of an instruction. -/
inductive Rewrite where
  /-- A GEP to a field of an element, replaced by one into the column. -/
  | column (fieldIdx : Nat) (elementIdx : Operand)
  /-- A load or store of an element, replaced by one of an item of column 0. -/
  | direct (elementIdx : Operand)
  deriving DecidableEq

namespace Site

variable (site : Site) (func : Function)

/-- A use of a pointer into the array. -/
def pointerUse (_ : Operand) (user : Nat) (_ : Unit) : Worklist.Verdict Operand Unit :=
  match func.insts[user]? with
  | some (.gep ..) => .go [.inst user] ()
  | some (.other opcode _) => .go (if site.isBitCast opcode then [.inst user] else []) ()
  | _ => .go [] ()

def derivedPtrs : List Operand :=
  match Worklist.walk (site.pointerUse func) func.users (func.insts.length + 1)
    (.arg site.argIndex) () with
  | .stopped _ => []
  | .finished visited _ => visited

/-- A constant index; `unsigned` keeps 32 bits of it. -/
def fieldIdx : Option Operand → Option Nat
  | some (.constant value) =>
      if value % 2 ^ 32 < site.fieldTypes.length then some (value % 2 ^ 32) else none
  | _ => none

/-- The index of the element that a pointer has been advanced to. -/
def elementIdx (pointer : Operand) : Option Operand :=
  match pointer with
  | .inst index =>
      match func.insts[index]? with
      | some (.gep source _ indices) =>
          if site.elementType source = some site.elemSty ∧ indices.length = 2 then indices[1]?
          else if source = site.wrapperSty then indices[2]?
          else none
      | _ => none
  | _ => none

/-- The field and the element that a GEP addresses: through the wrapper with all indices, or through
an element with the index in the GEP before. -/
def fieldGEP (index : Nat) : Option (Nat × Operand) :=
  match func.insts[index]? with
  | some (.gep source base indices) =>
      if source = site.wrapperSty ∧ base ∈ site.derivedPtrs func ∧ 4 ≤ indices.length then
        (site.fieldIdx indices[3]?).bind fun field => (indices[2]?).map fun element => (field, element)
      else if source = site.elemSty ∧ base ∈ site.derivedPtrs func ∧ indices.length = 2 then
        (site.fieldIdx indices[1]?).bind fun field =>
          (site.elementIdx func base).map fun element => (field, element)
      else none
  | _ => none

/-- The index of an element that a GEP into the storage addresses. -/
def elemGEP (pointer : Operand) : Option Operand :=
  match pointer with
  | .inst index =>
      match func.insts[index]? with
      | some (.gep source base indices) =>
          if site.elementType source = some site.elemSty ∧ base ∈ site.derivedPtrs func ∧
            indices.length = 2 then indices[1]? else none
      | _ => none
  | _ => none

/-- A load or store that goes to an element itself. -/
def field0Access (index : Nat) : Option Operand :=
  match func.insts[index]? with
  | some (.load type pointer) => if site.isScalar type then site.elemGEP func pointer else none
  | some (.store _ _ pointer) => site.elemGEP func pointer
  | _ => none

def rewrite (index : Nat) : Option Rewrite :=
  match site.fieldGEP func index with
  | some (field, element) => some (.column field element)
  | none => (site.field0Access func index).map .direct

/-- The fields that get a column. -/
def liveFields : List Nat :=
  (List.range site.fieldTypes.length).filter fun field =>
    (List.range func.insts.length).any fun index =>
      match site.rewrite func index with
      | some (.column used _) => used = field
      | some (.direct _) => field = 0
      | none => false

/-- The function returns somewhere and some access is recognised. -/
def transforms : Bool :=
  (func.insts.any fun inst => match inst with | .ret _ => true | _ => false) &&
    (List.range func.insts.length).any fun index => (site.rewrite func index).isSome

end Site

/-! ## The rewritten function -/

section

variable (site : Site) (setting : Setting) (func : Function) (args : List Value)
  (columns : Nat → Value)

def wrapperGEP (element field : Nat) : Value :=
  setting.gep site.wrapperSty (args.getD site.argIndex (.word 0))
    [.word 0, .word 0, .word element, .word field]

def columnGEP (field : Nat) (element : Value) : Value :=
  setting.gep (site.columnType field) (columns field) [.word 0, element]

/-- Load a value of a type at one place and store it at another. -/
def moveValue (type : Nat) (source target : Value) (memory : Memory) : Memory :=
  memory.write target.address (setting.encode type (setting.decode type
    ((List.range (setting.size type)).map fun offset => memory (source.address + offset))))

def moveField (fieldTypes : List Nat) (source target : Nat → Nat → Value) (memory : Memory)
    (place : Nat × Nat) : Memory :=
  moveValue setting (fieldTypes.getD place.2 0) (source place.1 place.2) (target place.1 place.2)
    memory

/-- The places in the order in which the loops visit them. -/
def places : List (Nat × Nat) :=
  (List.range site.arraySize).flatMap fun element =>
    (site.liveFields func).map fun field => (element, field)

/-- The loop at the entry, from the array to the columns. -/
def scatter (memory : Memory) : Memory :=
  (places site func).foldl (moveField setting site.fieldTypes (wrapperGEP site setting args)
    fun element field => columnGEP site setting columns field (.word element)) memory

/-- The loop before a return, from the columns to the array. -/
def gather (memory : Memory) : Memory :=
  (places site func).foldl (moveField setting site.fieldTypes
    (fun element field => columnGEP site setting columns field (.word element))
    (wrapperGEP site setting args)) memory

/-- The pointer that a recognised access is given. -/
def rewrittenPointer (state : State) (field : Nat) (element : Operand) : Value :=
  columnGEP site setting columns field (state.eval setting args 2 element)

/-- Execute what an instruction has become. -/
def performRewritten (state : State) (inst : Inst) : State :=
  match site.rewrite func state.point, inst with
  | some (.column field element), .gep .. =>
      state.give (rewrittenPointer site setting args columns state field element)
  | some (.direct element), .load type _ =>
      state.give (setting.decode type ((List.range (setting.size type)).map fun offset =>
        state.memory
          ((rewrittenPointer site setting args columns state 0 element).address + offset)))
  | some (.direct element), .store type value _ =>
      { state with
        memory := state.memory.write
          (rewrittenPointer site setting args columns state 0 element).address
          (setting.encode type (state.eval setting args 0 value)) }.next
  | _, .ret value =>
      { state with
        memory := gather site setting func args columns state.memory
        exit := .returned (value.map (state.eval setting args 0)) }
  | _, inst => state.perform setting func args inst

variable {site setting func args columns} {state : State}

theorem performRewritten_column {field source : Nat} {element base : Operand}
    {indices : List Operand} (found : site.rewrite func state.point = some (.column field element)) :
    performRewritten site setting func args columns state (.gep source base indices) =
      state.give (rewrittenPointer site setting args columns state field element) := by
  simp only [performRewritten, found]

theorem performRewritten_load {type : Nat} {element pointer : Operand}
    (found : site.rewrite func state.point = some (.direct element)) :
    performRewritten site setting func args columns state (.load type pointer) =
      state.give (setting.decode type ((List.range (setting.size type)).map fun offset =>
        state.memory
          ((rewrittenPointer site setting args columns state 0 element).address + offset))) := by
  simp only [performRewritten, found]

theorem performRewritten_store {type : Nat} {element value pointer : Operand}
    (found : site.rewrite func state.point = some (.direct element)) :
    performRewritten site setting func args columns state (.store type value pointer) =
      State.next { state with
        memory := state.memory.write
          (rewrittenPointer site setting args columns state 0 element).address
          (setting.encode type (state.eval setting args 0 value)) } := by
  simp only [performRewritten, found]

theorem performRewritten_ret (value : Option Operand) :
    performRewritten site setting func args columns state (.ret value) =
      { state with
        memory := gather site setting func args columns state.memory
        exit := .returned (value.map (state.eval setting args 0)) } := by
  unfold performRewritten
  cases site.rewrite func state.point with
  | none => rfl
  | some rewrite => cases rewrite <;> rfl

/-- Other instructions stay as they are. -/
theorem performRewritten_plain {inst : Inst} (notRet : ∀ value, inst ≠ .ret value)
    (notColumn : ∀ field element, site.rewrite func state.point = some (.column field element) →
      ∀ source base indices, inst ≠ .gep source base indices)
    (notDirect : ∀ element, site.rewrite func state.point = some (.direct element) →
      (∀ type pointer, inst ≠ .load type pointer) ∧
        ∀ type value pointer, inst ≠ .store type value pointer) :
    performRewritten site setting func args columns state inst =
      state.perform setting func args inst := by
  unfold performRewritten
  split
  · rename_i found
    exact absurd rfl (notColumn _ _ found _ _ _)
  · rename_i found
    exact absurd rfl ((notDirect _ found).1 _ _)
  · rename_i found
    exact absurd rfl ((notDirect _ found).2 _ _ _)
  · exact absurd rfl (notRet _)
  · rfl

variable (site setting func args columns)

def stepRewritten (state : State) : Option State :=
  match state.exit with
  | .running =>
      (func.insts[state.point]?).map (performRewritten site setting func args columns state)
  | _ => none

/-- Activations of the rewritten function. -/
def rewrittenMachine (memory : Memory) : Transition.Machine State Unit where
  initial state := state = start (scatter site setting func args columns memory)
  step state _ := stepRewritten site setting func args columns state

end

end InlineRewrite
end TopoLlvm
