import TopoLlvm.Library.Reorder
import TopoLlvm.Transforms.TopoParallel

/-!
# Calls as tasks

A straight-line body, and the same body after the calls of its stages have become tasks: the
caller packs the arguments and spawns a wrapper for each call, awaits all and loads the results.
What callees and instructions do is a parameter.
-/

namespace TopoLlvm
namespace TopoParallel

open Reorder (Action Before runAll)

/-- An operand: the value it names, and whether the parameter has an `sret` attribute. -/
structure Argument where
  value : Nat
  structRet : Bool

/-- An instruction of a straight-line body, with the memory that it or its callee may use. -/
structure Statement (Fn Cell : Type) where
  /-- The value it computes. -/
  name : Nat
  callee : Option Fn
  operands : List Argument
  isVoid : Bool
  reads : Set Cell
  writes : Set Cell
  /-- The object that its `sret` operand points to. -/
  object : Cell

namespace Statement

variable {Fn Cell : Type} (statement : Statement Fn Cell)

def hasStructRet : Bool := statement.operands.any (·.structRet)

/-- `hasSret` of the pass. -/
def firstIsStructRet : Bool := statement.operands.head?.any (·.structRet)

/-- The memory that it may write, with the object for its result. -/
def stores : Set Cell :=
  {cell | cell ∈ statement.writes ∨ (statement.hasStructRet = true ∧ cell = statement.object)}

/-- The fields of the argument structure. -/
def packed : List Nat := (statement.operands.filter (!·.structRet)).map (·.value)

/-- The result goes through the buffer. -/
def storesResult : Bool := !statement.isVoid && !statement.firstIsStructRet

end Statement

/-- A body whose values are defined once and before their uses. -/
structure Body (Fn Cell : Type) where
  statements : List (Statement Fn Cell)
  distinct : (statements.map (·.name)).Nodup
  defined : ∀ definition ∈ statements, ∀ use ∈ statements,
    (∃ operand ∈ use.operands, operand.value = definition.name) → Before statements definition use

/-! ## The pass -/

/-- An instruction, or calls that are spawned and awaited together. -/
inductive Op (Fn Cell : Type) where
  | statement (statement : Statement Fn Cell)
  | parallel (calls : List (Statement Fn Cell))

section

variable {Fn Cell : Type}

namespace Op

def defines (name : Nat) : Op Fn Cell → Bool
  | statement here => here.name = name
  | parallel calls => calls.any (·.name = name)

def isStatement (name : Nat) : Op Fn Cell → Bool
  | statement here => here.name = name
  | parallel _ => false

def call [DecidableEq Fn] (stage : Stage Fn) : Op Fn Cell → Option (Statement Fn Cell)
  | statement here => if stage.calls here.callee then some here else none
  | parallel _ => none

/-- The calls move to the first of them. -/
def spawn (firstCall : Nat) (targets : List (Statement Fn Cell)) : Op Fn Cell → List (Op Fn Cell)
  | statement here =>
      if here.name = firstCall then [parallel targets]
      else if targets.any (·.name = here.name) then []
      else [statement here]
  | parallel calls => [parallel calls]

end Op

variable [DecidableEq Fn]

def targetCalls (stage : Stage Fn) (ops : List (Op Fn Cell)) : List (Statement Fn Cell) :=
  ops.filterMap (Op.call stage)

/-- Every operand is defined before the first call, if it is defined in the body. -/
def operandsDominateSpawn (ops : List (Op Fn Cell)) (firstCall : Nat)
    (targets : List (Statement Fn Cell)) : Bool :=
  targets.all fun call => call.operands.all fun operand =>
    !ops.any (Op.defines operand.value) ||
      (ops.takeWhile (!Op.isStatement firstCall ·)).any (Op.defines operand.value)

def parallelizeStage (ops : List (Op Fn Cell)) (stage : Stage Fn) : List (Op Fn Cell) :=
  match targetCalls stage ops with
  | [] => ops
  | firstCall :: rest =>
      if operandsDominateSpawn ops firstCall.name (firstCall :: rest) then
        ops.flatMap (Op.spawn firstCall.name (firstCall :: rest))
      else ops

/-- The body after the stages have been rewritten one after the other. -/
def Body.parallelized (body : Body Fn Cell) (stages : List (Stage Fn)) : List (Op Fn Cell) :=
  stages.foldl parallelizeStage (body.statements.map .statement)

end

/-! ## What the bodies do -/

/-- Values, memory, and the structures that tasks take their arguments and leave their results
in. -/
inductive Location (Cell : Type) where
  | value (name : Nat)
  | cell (cell : Cell)
  | argument (task : Nat) (field : Nat)
  | buffer (task : Nat)

abbrev State (Cell : Type) := Location Cell → Nat

/-- What an instruction or a callee does. -/
structure Effect (Cell : Type) where
  result : Nat
  /-- What it puts where its `sret` argument points to. -/
  structRet : Option Nat
  writes : Cell → Option Nat

/-- What instructions and callees do with their arguments, `sret` pointers apart. -/
structure Interpretation (Fn Cell : Type) where
  exec : Statement Fn Cell → List (Option Nat) → (Cell → Nat) → Effect Cell
  frame : ∀ statement args memory, ∀ cell ∉ statement.writes,
    (exec statement args memory).writes cell = none
  depends : ∀ statement args memory other, (∀ cell ∈ statement.reads, memory cell = other cell) →
    exec statement args memory = exec statement args other

/-- The steps of an execution. -/
inductive Event (Fn Cell : Type) where
  | statement (statement : Statement Fn Cell)
  /-- The caller stores the arguments of a task. -/
  | pack (call : Statement Fn Cell)
  /-- The wrapper of a task. -/
  | task (call : Statement Fn Cell)
  /-- The caller loads the result of a task. -/
  | load (call : Statement Fn Cell)

section

variable {Fn Cell : Type}

/-- The arguments of a call in the body. -/
def arguments (state : State Cell) (operands : List Argument) : List (Option Nat) :=
  operands.map fun operand =>
    if operand.structRet then none else some (state (.value operand.value))

/-- The arguments that a wrapper takes from its structure, from a field on. -/
def unpack (state : State Cell) (task : Nat) : Nat → List Argument → List (Option Nat)
  | _, [] => []
  | fieldIdx, operand :: operands =>
      if operand.structRet then none :: unpack state task fieldIdx operands
      else some (state (.argument task fieldIdx)) :: unpack state task (fieldIdx + 1) operands

variable [DecidableEq Cell] (interp : Interpretation Fn Cell)

/-- What an event writes. -/
def update (event : Event Fn Cell) (state : State Cell) (location : Location Cell) : Option Nat :=
  match event, location with
  | .statement here, .value name =>
      if name = here.name ∧ here.isVoid = false then
        some (interp.exec here (arguments state here.operands) (state ∘ .cell)).result
      else none
  | .statement here, .cell cell =>
      let effect := interp.exec here (arguments state here.operands) (state ∘ .cell)
      if here.hasStructRet ∧ cell = here.object then effect.structRet <|> effect.writes cell
      else effect.writes cell
  | .pack call, .argument task field =>
      if task = call.name then call.packed[field]?.map (state ∘ .value) else none
  | .task call, .cell cell =>
      (interp.exec call (unpack state call.name 0 call.operands) (state ∘ .cell)).writes cell
  | .task call, .buffer task =>
      let effect := interp.exec call (unpack state call.name 0 call.operands) (state ∘ .cell)
      if task = call.name then
        if call.storesResult then some effect.result
        else if call.hasStructRet then effect.structRet
        else none
      else none
  | .load call, .value name =>
      if name = call.name ∧ call.storesResult then some (state (.buffer call.name)) else none
  | _, _ => none

end

/-- The orders in which the parts of an operation may happen: a task runs at any time after it is
spawned and before all are awaited. -/
inductive Schedule {Fn Cell : Type} : Op Fn Cell → List (Event Fn Cell) → Prop
  | statement (here : Statement Fn Cell) : Schedule (.statement here) [.statement here]
  | parallel {calls : List (Statement Fn Cell)} {events : List (Event Fn Cell)} :
      events.Perm (calls.map .pack ++ calls.map .task) → (calls.map .pack).Sublist events →
        (∀ call ∈ calls, Before events (.pack call) (.task call)) →
          Schedule (.parallel calls) (events ++ calls.map .load)

inductive Executes {Fn Cell : Type} : List (Op Fn Cell) → List (Event Fn Cell) → Prop
  | nil : Executes [] []
  | cons {op : Op Fn Cell} {ops : List (Op Fn Cell)} {events rest : List (Event Fn Cell)} :
      Schedule op events → Executes ops rest → Executes (op :: ops) (events ++ rest)

end TopoParallel
end TopoLlvm
