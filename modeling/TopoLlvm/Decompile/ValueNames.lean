import Mathlib.Data.List.Basic
import Mathlib.Data.List.Nodup

/-!
# Names of values

The lifter refers to values by name.  The names come from the IR, from metadata, from debug
information and from a counter, and nothing keeps them apart: two values share a name where two of
these sources give the same one.
-/

namespace TopoLlvm
namespace Decompile
namespace ValueNames

/-- A `Value*`: the arguments are numbered first. -/
abbrev ValueId := Nat

/-- Where the names of the values of a function come from. -/
structure Function where
  /-- The names that the arguments have in the IR. -/
  args : List (Option String)
  /-- The names of the parameters in the metadata, if it has the function. -/
  params : List String
  /-- The names that the other values, the globals and the functions have in the IR. -/
  irName : ValueId → Option String
  /-- The name of the local variable that debug information has for an `alloca`. -/
  debugName : ValueId → Option String

inductive Operand where
  /-- A constant that is spelled out. -/
  | literal
  | globalVariable (id : ValueId)
  | function (id : ValueId)
  | value (id : ValueId)

inductive Callee where
  | direct (id : ValueId)
  | indirect (id : ValueId)

/-- What is lifted, with the values that it refers to. -/
inductive Instruction where
  | alloca (id : ValueId)
  | store (pointer value : Operand)
  | load (id : ValueId) (pointer : Operand)
  | ret (value : Option Operand)
  /-- A call or an `invoke`; a result that is void has no id. -/
  | call (id : Option ValueId) (callee : Callee) (args : List Operand)
  /-- A call of a closure, whose body is lifted as a function of its own. -/
  | lambda (id : ValueId)
  /-- Binary operators and comparisons. -/
  | binary (id : ValueId) (lhs rhs : Operand)
  /-- The condition of a branch, a loop or a `switch`. -/
  | condition (value : Operand)
  | gep (id : ValueId) (pointer : Operand) (indices : List Operand)
  | phi (id : ValueId) (incoming : Option Operand)
  | select (id : ValueId) (condition trueValue falseValue : Operand)
  | cast (id : ValueId) (operand : Operand)
  /-- The induction variable of a counted loop, its start, its comparison and its increment. -/
  | counted (id : ValueId) (init : Option Operand) (compare : Operand) (increment : List Operand)
  /-- What refers to no value. -/
  | other

/-- A place where a value is referred to by name. -/
inductive Reference where
  /-- Through `getValueName`. -/
  | value (id : ValueId)
  /-- The declaration of an `alloca`. -/
  | alloca (id : ValueId)
  | globalVariable (id : ValueId)
  | function (id : ValueId)
  /-- The function that a call names. -/
  | callee (id : ValueId)
  deriving DecidableEq

def Reference.id : Reference → ValueId
  | value id | alloca id | globalVariable id | function id | callee id => id

def Operand.references : Operand → List Reference
  | literal => []
  | globalVariable id => [.globalVariable id]
  | function id => [.function id]
  | value id => [.value id]

def Callee.reference : Callee → Reference
  | direct id => .callee id
  | indirect id => .value id

/-- The names that an instruction asks for, in order. -/
def Instruction.references : Instruction → List Reference
  | alloca id => [.alloca id]
  | store pointer value => pointer.references ++ value.references
  | load id pointer => .value id :: pointer.references
  | ret value => value.toList.flatMap Operand.references
  | call id callee args =>
      callee.reference :: args.flatMap Operand.references ++ id.toList.map .value
  | lambda id => [.value id]
  | binary id lhs rhs => lhs.references ++ rhs.references ++ [.value id]
  | condition value => value.references
  | gep id pointer indices =>
      pointer.references ++ indices.flatMap Operand.references ++ [.value id]
  | phi id incoming => .value id :: incoming.toList.flatMap Operand.references
  | select id test trueValue falseValue =>
      test.references ++ trueValue.references ++ falseValue.references ++ [.value id]
  | cast id operand => .value id :: operand.references
  | counted id init compare increment =>
      .value id :: init.toList.flatMap Operand.references ++ compare.references ++
        increment.flatMap Operand.references
  | other => []

/-- The state of the lifter within a function. -/
structure LifterState where
  nameMap : ValueId → Option String
  tmpCounter : Nat

def LifterState.setName (state : LifterState) (id : ValueId) (name : String) : LifterState :=
  { state with nameMap := fun other => if other = id then some name else state.nameMap other }

def tmpName (counter : Nat) : String := "_tmp" ++ toString counter

namespace Function

variable (func : Function)

/-- The name of an argument; none of a value that is no argument. -/
def argName (id : ValueId) : Option String :=
  func.args[id]?.map fun name =>
    name.getD ((func.params[id]?).getD ("arg" ++ toString id))

/-- The arguments are named before anything is lifted. -/
def initialState : LifterState where
  nameMap := func.argName
  tmpCounter := 0

def getValueName (id : ValueId) (state : LifterState) : String × LifterState :=
  match state.nameMap id with
  | some name => (name, state)
  | none =>
      match func.irName id with
      | some name => (name, state.setName id name)
      | none =>
          let name := tmpName state.tmpCounter
          (name, { state.setName id name with tmpCounter := state.tmpCounter + 1 })

/-- The name that a reference is lifted to. -/
def nameOf (state : LifterState) : Reference → String × LifterState
  | .value id => func.getValueName id state
  | .alloca id =>
      match func.debugName id with
      | some srcName => (srcName, state.setName id srcName)
      | none => func.getValueName id state
  | .globalVariable id => ((func.irName id).getD "_global", state)
  | .function id => ((func.irName id).getD "_func", state)
  | .callee id => ((func.irName id).getD "", state)

end Function

/-- No name stands for two values. -/
def Unambiguous (names : List (ValueId × String)) : Prop :=
  ∀ first ∈ names, ∀ second ∈ names, first.2 = second.2 → first.1 = second.1

/-! ## Sources of names -/

/-- A name that is given, or one from the counter. -/
inductive Source where
  | given (name : String)
  | generated (counter : Nat)

def Source.name : Source → String
  | given name => name
  | generated counter => tmpName counter

namespace Function

variable (func : Function)

/-- The name that a value has without the counter, behind some references: from debug information
once its `alloca` is declared, else as an argument or from the IR. -/
def knownName (seen : List Reference) (id : ValueId) : Option String :=
  if .alloca id ∈ seen ∧ (func.debugName id).isSome then func.debugName id
  else (func.argName id).or (func.irName id)

def givenName (seen : List Reference) : Reference → Option String
  | .value id => func.knownName seen id
  | .alloca id => (func.debugName id).or (func.knownName seen id)
  | .globalVariable id => some ((func.irName id).getD "_global")
  | .function id => some ((func.irName id).getD "_func")
  | .callee id => some ((func.irName id).getD "")

/-- The sources of the names behind some references; the values without a name are counted in the
order in which they are met. -/
def sourcesFrom (seen : List Reference) (unnamed : List ValueId) :
    List Reference → List (ValueId × Source)
  | [] => []
  | reference :: references =>
      match func.givenName seen reference with
      | some name =>
          (reference.id, .given name) ::
            sourcesFrom (seen ++ [reference]) unnamed references
      | none =>
          let unnamed := if reference.id ∈ unnamed then unnamed else unnamed ++ [reference.id]
          (reference.id, .generated (unnamed.idxOf reference.id)) ::
            sourcesFrom (seen ++ [reference]) unnamed references

def sources (body : List Instruction) : List (ValueId × Source) :=
  func.sourcesFrom [] [] (body.flatMap Instruction.references)

end Function

/-- Given names of different values differ, and differ from the generated names of others. -/
structure Apart (sources : List (ValueId × Source)) : Prop where
  given : ∀ first second name, (first, Source.given name) ∈ sources →
    (second, Source.given name) ∈ sources → first = second
  generated : ∀ first second counter, (first, Source.given (tmpName counter)) ∈ sources →
    (second, Source.generated counter) ∈ sources → first = second

namespace Function

variable {func : Function} {state : LifterState} {seen : List Reference} {unnamed : List ValueId}
  {reference : Reference} {id : ValueId} {name : String}

/-- The lifter has named what was met: a value with the name that is known, if any, and the others
by their place in the count. -/
structure Tracks (func : Function) (seen : List Reference) (unnamed : List ValueId)
    (state : LifterState) : Prop where
  known : ∀ id name, func.knownName seen id = some name →
    state.nameMap id = some name ∨ state.nameMap id = none ∧ func.irName id = some name
  counted : ∀ id ∈ unnamed, func.knownName seen id = none →
    state.nameMap id = some (tmpName (unnamed.idxOf id))
  fresh : ∀ id, id ∉ unnamed → func.knownName seen id = none → state.nameMap id = none
  counter : state.tmpCounter = unnamed.length

/-- A reference that declares no local variable leaves the known names as they are. -/
theorem Tracks.next (tracks : Tracks func seen unnamed state)
    (same : ∀ id, func.knownName (seen ++ [reference]) id = func.knownName seen id) :
    Tracks func (seen ++ [reference]) unnamed state := by
  refine ⟨fun id name => ?_, fun id member => ?_, fun id absent => ?_, tracks.counter⟩
  · rw [same]
    exact tracks.known id name
  · rw [same]
    exact tracks.counted id member
  · rw [same]
    exact tracks.fresh id absent

end Function

/-! ## Shadowed locals -/

end ValueNames
end Decompile
end TopoLlvm
