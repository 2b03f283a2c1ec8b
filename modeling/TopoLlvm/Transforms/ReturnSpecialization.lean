import TopoLlvm.Library.Machine
import Mathlib.Data.Finset.Card
import Mathlib.Logic.Function.Basic

/-!
# Return fields that nobody demands

`ReturnSpecializationPass` replaces what a function writes to undemanded fields of its result by
`undef`: the values of stores through the `sret` parameter, or of the `insertvalue` chains that are
returned.  It does not ask whether the function reads such a field back.
-/

namespace TopoLlvm
namespace ReturnSpecialization

/-! ## Functions -/

inductive Operand where
  | inst (index : Nat)
  | arg (index : Nat)
  /-- A `ConstantInt`. -/
  | constant (value : Nat)
  | global (index : Nat)
  | undef
  deriving DecidableEq

/-- An instruction.  Types are known by number; a block is known by its first instruction, and a
phi node tells its predecessors by their terminators. -/
inductive Inst where
  | store (type : Nat) (value pointer : Operand)
  | load (type : Nat) (pointer : Operand)
  | gep (source : Nat) (base : Operand) (indices : List Operand)
  | insertValue (aggregate value : Operand) (indices : List Nat)
  | extractValue (aggregate : Operand) (indices : List Nat)
  | call (callee : Operand) (args : List Operand)
  | invoke (callee : Operand) (args : List Operand) (normalDest unwindDest : Nat)
  | phi (incoming : List (Nat × Operand))
  | other (opcode : Nat) (operands : List Operand)
  | br (target : Nat)
  | switch (condition : Operand) (targets : List Nat)
  | ret (value : Option Operand)
  | resume (value : Operand)
  deriving DecidableEq

namespace Inst

def operands : Inst → List Operand
  | store _ value pointer => [value, pointer]
  | load _ pointer => [pointer]
  | gep _ base indices => base :: indices
  | insertValue aggregate value _ => [aggregate, value]
  | extractValue aggregate _ => [aggregate]
  | call callee args => callee :: args
  | invoke callee args _ _ => callee :: args
  | phi incoming => incoming.map Prod.snd
  | other _ operands => operands
  | br _ => []
  | switch condition _ => [condition]
  | ret value => value.toList
  | resume value => [value]

/-- `setOperand` on the value of a store or of an `insertvalue`. -/
def setUndef : Inst → Inst
  | store type _ pointer => store type .undef pointer
  | insertValue aggregate _ indices => insertValue aggregate .undef indices
  | inst => inst

end Inst

/-- Where a field of the result lies. -/
structure Field where
  offset : Nat
  size : Nat
  deriving DecidableEq

/-- A function; `fields` are those of the struct that it returns, through its first parameter if
that is marked `sret`. -/
structure Function where
  insts : List Inst
  isDeclaration : Bool
  hasInternalLinkage : Bool
  hasUses : Bool
  hasStructRet : Bool
  fields : Option (List Field)

namespace Function

variable (func : Function)

/-- `Value::users`. -/
def users (value : Operand) : List Nat :=
  (List.range func.insts.length).filter fun index =>
    (func.insts[index]?.elim [] Inst.operands).contains value

/-- The stores behind a chain of `getelementptr`; fuel bounds the length of the chain. -/
def collectStoresFromGEP : Nat → Operand → List Nat
  | 0, _ => []
  | fuel + 1, value =>
      (func.users value).flatMap fun (user : Nat) =>
        match func.insts[user]? with
        | some (.store _ _ pointer) => if pointer = value then [user] else []
        | some (.gep ..) => collectStoresFromGEP fuel (.inst user)
        | _ => []

def collectFieldStores (fieldIdx : Nat) : List Nat :=
  (func.users (.arg 0)).flatMap fun (user : Nat) =>
    match func.insts[user]? with
    | some (.gep _ _ (.constant first :: .constant second :: _)) =>
        if first = 0 ∧ second = fieldIdx then
          func.collectStoresFromGEP func.insts.length (.inst user)
        else []
    | _ => []

/-- The `insertvalue` instructions behind a returned value that insert a field. -/
def insertsOf (fieldIdx : Nat) : Nat → Operand → List Nat
  | 0, _ => []
  | fuel + 1, current =>
      match current with
      | .inst index =>
          match func.insts[index]? with
          | some (.insertValue aggregate _ indices) =>
              (if indices = [fieldIdx] then [index] else []) ++ insertsOf fieldIdx fuel aggregate
          | _ => []
      | _ => []

def collectInsertValueStores (fieldIdx : Nat) : List Nat :=
  func.insts.flatMap fun inst =>
    match inst with
    | .ret (some value) => func.insertsOf fieldIdx func.insts.length value
    | _ => []

/-- The fields that are not demanded, where the pass rewrites the body. -/
def deadFields (demand : Option (Finset Nat)) : List Nat :=
  if func.isDeclaration || !func.hasInternalLinkage || !func.hasUses then []
  else
    match func.fields, demand with
    | some fields, some liveFields =>
        if fields.isEmpty || liveFields.card = fields.length then []
        else (List.range fields.length).filter fun field => field ∉ liveFields
    | _, _ => []

/-- The instructions whose value is replaced. -/
def deadInsts (demand : Option (Finset Nat)) : List Nat :=
  (func.deadFields demand).flatMap fun field =>
    if func.hasStructRet then func.collectFieldStores field
    else func.collectInsertValueStores field

def run (demand : Option (Finset Nat)) : Function :=
  { func with
    insts := func.insts.mapIdx fun index inst =>
      if (func.deadInsts demand).contains index then inst.setUndef else inst }

end Function

/-! ## Activations -/

inductive Value where
  | word (bits : Nat)
  | aggregate (fields : List Value)

namespace Value

def address : Value → Nat
  | word bits => bits
  | aggregate _ => 0

def insert (new : Value) : List Nat → Value → Value
  | [], _ => new
  | index :: path, aggregate fields => aggregate (fields.modify index (insert new path))
  | _ :: _, word bits => word bits

def extract : List Nat → Value → Value
  | [], value => value
  | index :: path, aggregate fields => extract path (fields.getD index (word 0))
  | _ :: _, word bits => word bits

end Value

abbrev Memory := Nat → UInt8

/-- Write bytes from an address on. -/
def Memory.write (memory : Memory) (address : Nat) (bytes : List UInt8) : Memory := fun other =>
  if address ≤ other then (bytes[other - address]?).getD (memory other) else memory other

/-- A call that has been made, with what it was given and what came of it. -/
structure Event where
  callee : Value
  args : List Value
  result : Value

structure CallResult where
  result : Value
  unwinds : Bool
  address : Nat
  bytes : List UInt8

/-- The target and the rest of the program: how types lie in memory, what the remaining instructions
give at a time, and what calls read and do.  Calls know what has been called before. -/
structure Setting where
  size : Nat → Nat
  encode : (type : Nat) → Value → List UInt8
  length_encode : ∀ type value, (encode type value).length = size type
  decode : (type : Nat) → List UInt8 → Value
  gep : (source : Nat) → Value → List Value → Value
  globals : Nat → Value
  other : (opcode clock : Nat) → List Value → Value
  choose : Value → List Nat → Nat
  call : List Event → Value → List Value → Memory → CallResult
  reads : List Event → Value → List Value → List Nat
  call_frame : ∀ history callee args memory other,
    (∀ address ∈ reads history callee args, memory address = other address) →
    call history callee args memory = call history callee args other
  /-- What an undefined operand is taken for. -/
  undefined : (clock position : Nat) → Value

inductive Exit where
  | running
  | returned (value : Option Value)
  | unwound (value : Value)

/-- The state of an activation. -/
structure State where
  values : Nat → Value
  memory : Memory
  point : Nat
  clock : Nat
  calls : List Event
  exit : Exit

section

variable (setting : Setting) (func : Function) (args : List Value)

/-- The value of an operand at its position in an instruction. -/
def State.eval (state : State) (position : Nat) : Operand → Value
  | .inst index => state.values index
  | .arg index => args.getD index (.word 0)
  | .constant value => .word value
  | .global index => setting.globals index
  | .undef => setting.undefined state.clock position

def State.evalAll (state : State) (position : Nat) (operands : List Operand) : List Value :=
  operands.mapIdx fun index operand => state.eval setting args (position + index) operand

namespace Function

/-- The phi nodes at the beginning of a block. -/
def phisAt (target : Nat) : List Nat :=
  (List.range' target (func.insts.length - target)).takeWhile fun index =>
    match func.insts[index]? with
    | some (.phi _) => true
    | _ => false

def phiSource (index source : Nat) : Operand :=
  match func.insts[index]? with
  | some (.phi incoming) => (incoming.lookup source).getD .undef
  | _ => .undef

end Function

/-- Go on with the next instruction. -/
def State.next (state : State) : State :=
  { state with point := state.point + 1, clock := state.clock + 1 }

/-- Give the instruction a value and go on. -/
def State.give (state : State) (value : Value) : State :=
  { state with values := Function.update state.values state.point value }.next

/-- Go to a block; its phi nodes take their values at once. -/
def State.jump (state : State) (target : Nat) : State :=
  { state with
    values := fun index =>
      if index ∈ func.phisAt target then
        state.eval setting args index (func.phiSource index state.point)
      else state.values index
    point := target + (func.phisAt target).length
    clock := state.clock + 1 }

def State.outcome (state : State) (callee : Operand) (operands : List Operand) : CallResult :=
  setting.call state.calls (state.eval setting args 0 callee) (state.evalAll setting args 1 operands)
    state.memory

/-- The state after a call, before it goes on. -/
def State.called (state : State) (callee : Operand) (operands : List Operand) : State :=
  let outcome := state.outcome setting args callee operands
  { state with
    values := Function.update state.values state.point outcome.result
    memory := state.memory.write outcome.address outcome.bytes
    calls := state.calls ++ [{
      callee := state.eval setting args 0 callee
      args := state.evalAll setting args 1 operands
      result := outcome.result }] }

/-- Execute an instruction. -/
def State.perform (state : State) : Inst → State
  | .store type value pointer =>
      { state with
        memory := state.memory.write (state.eval setting args 1 pointer).address
          (setting.encode type (state.eval setting args 0 value)) }.next
  | .load type pointer =>
      state.give (setting.decode type ((List.range (setting.size type)).map fun offset =>
        state.memory ((state.eval setting args 0 pointer).address + offset)))
  | .gep source base indices =>
      state.give (setting.gep source (state.eval setting args 0 base)
        (state.evalAll setting args 1 indices))
  | .insertValue aggregate value indices =>
      state.give (.insert (state.eval setting args 1 value) indices
        (state.eval setting args 0 aggregate))
  | .extractValue aggregate indices =>
      state.give (.extract indices (state.eval setting args 0 aggregate))
  | .call callee operands =>
      let outcome := state.outcome setting args callee operands
      if outcome.unwinds then
        { state.called setting args callee operands with exit := .unwound outcome.result }
      else (state.called setting args callee operands).next
  | .invoke callee operands normalDest unwindDest =>
      (state.called setting args callee operands).jump setting func args
        (if (state.outcome setting args callee operands).unwinds then unwindDest else normalDest)
  | .phi _ => state.next
  | .other opcode operands =>
      state.give (setting.other opcode state.clock (state.evalAll setting args 0 operands))
  | .br target => state.jump setting func args target
  | .switch condition targets =>
      state.jump setting func args (setting.choose (state.eval setting args 0 condition) targets)
  | .ret value => { state with exit := .returned (value.map (state.eval setting args 0)) }
  | .resume value => { state with exit := .unwound (state.eval setting args 0 value) }

def State.step (state : State) : Option State :=
  match state.exit with
  | .running => (func.insts[state.point]?).map (state.perform setting func args)
  | _ => none

end

end ReturnSpecialization
end TopoLlvm
