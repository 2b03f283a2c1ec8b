import Mathlib.Logic.Function.Basic
import TopoLlvm.Transforms.ArenaIR

/-!
# Runs of a module

What functions do with pointers.  A pointer is known by the object it points into, and an object
holds everything that has been stored to it, so that a load may return any of it.  What lies
outside the module is an environment that knows what it has been given: it may store and return
what it knows and call any function with it.
-/

namespace TopoLlvm
namespace LifetimeArena

/-- Where an object comes from. -/
inductive Source (Fn : Type) where
  | site (fn : Fn) (call : Nat)
  | slot (fn : Fn) (index : Nat)
  | foreign
  deriving DecidableEq

structure Object (Fn : Type) where
  source : Source Fn
  serial : Nat
  deriving DecidableEq

/-- A value; null is data. -/
inductive Value (Fn : Type) where
  | data
  | pointer (object : Object Fn)
  deriving DecidableEq

structure Heap (Fn : Type) where
  memory : Object Fn → List (Value Fn)
  /-- What the environment has been given; it knows all foreign objects. -/
  exposed : List (Object Fn)
  allocated : Nat

structure Frame (Fn : Type) where
  fn : Fn
  registers : Operand → Value Fn
  point : Nat

inductive Activation (Fn : Type) where
  | code (frame : Frame Fn)
  | environment

structure State (Fn : Type) where
  stack : List (Activation Fn)
  heap : Heap Fn

/-- What happens to pointers. -/
inductive Event (Fn : Type) where
  /-- A move gives a value that one of its operands has. -/
  | take (fn : Fn) (index : Nat) (source : Operand) (value : Value Fn)
  | store (fn : Fn) (value address : Operand) (object : Object Fn) (stored : Value Fn)
  | free (fn : Fn) (index : Nat) (operands : List Operand) (arguments : List (Value Fn))
  /-- The result of an intrinsic and what it stores. -/
  | intrinsic (fn : Fn) (index : Nat) (results : List (Value Fn))
  | call (callee : Fn) (arguments : List (Value Fn))
  /-- Arguments of a function outside the module. -/
  | expose (arguments : List (Value Fn))
  deriving DecidableEq

variable {Fn : Type}

namespace Heap

variable (heap : Heap Fn)

def Known (object : Object Fn) : Prop := object.source = .foreign ∨ object ∈ heap.exposed

/-- The value is available to the environment. -/
def KnownValue (value : Value Fn) : Prop := ∀ object, value = .pointer object → heap.Known object

/-- The value is among the arguments or in an object that they point into. -/
def Within (arguments : List (Value Fn)) (value : Value Fn) : Prop :=
  value = .data ∨ value ∈ arguments ∨ ∃ object, .pointer object ∈ arguments ∧
    value ∈ heap.memory object

def expose (values : List (Value Fn)) : Heap Fn :=
  { heap with exposed := heap.exposed ++ values.filterMap fun
      | .pointer object => some object
      | .data => none }

variable [DecidableEq Fn]

def write (object : Object Fn) (value : Value Fn) : Heap Fn :=
  { heap with memory := Function.update heap.memory object (value :: heap.memory object) }

def writes (stores : List (Object Fn × Value Fn)) : Heap Fn :=
  stores.foldl (fun heap store => heap.write store.1 store.2) heap

/-- A new object. -/
def fresh (source : Source Fn) : Object Fn := ⟨source, heap.allocated⟩

def allocate (source : Source Fn) : Heap Fn where
  memory := Function.update heap.memory (heap.fresh source) []
  exposed := heap.exposed
  allocated := heap.allocated + 1

end Heap

namespace Body

variable (body : Body Fn)

/-- The operand that a phi node takes after a terminator. -/
def phiSource (index source : Nat) : Option Operand :=
  match body.insts[index]? with
  | some (.phi incoming) => incoming.lookup source
  | _ => none

/-- All phi nodes on the way take their values at once. -/
def enter (registers : Operand → Value Fn) (source target : Nat) : Operand → Value Fn
  | .inst index =>
      if index ∈ body.phisAt target then ((body.phiSource index source).map registers).getD .data
      else registers (.inst index)
  | value => registers value

def takes (fn : Fn) (registers : Operand → Value Fn) (source target : Nat) : List (Event Fn) :=
  (body.phisAt target).filterMap fun index =>
    (body.phiSource index source).map fun operand => .take fn index operand (registers operand)

end Body

namespace Frame

/-- The registers after the result of an instruction. -/
def result (frame : Frame Fn) (value : Value Fn) : Operand → Value Fn :=
  Function.update frame.registers (.inst frame.point) value

/-- Go on with one of the next instructions. -/
def goOn (frame : Frame Fn) (body : Body Fn) (value : Value Fn) (next : Nat) : Frame Fn :=
  { frame with
    registers := body.enter (frame.result value) frame.point next
    point := next }

def goOnTakes (frame : Frame Fn) (body : Body Fn) (value : Value Fn) (next : Nat) :
    List (Event Fn) :=
  body.takes frame.fn (frame.result value) frame.point next

/-- The frame of a call. -/
def entry (fn : Fn) (arguments : List (Value Fn)) : Frame Fn where
  fn
  registers
    | .param index => arguments.getD index .data
    | .global index => .pointer ⟨.foreign, index⟩
    | .inst _ | .constant => .data
  point := 0

end Frame

variable [DecidableEq Fn] (module : Module Fn)

/-- Calls of the function are nothing but calls. -/
def Module.isPlain (fn : Fn) : Bool :=
  !isAllocFunction (module.name fn) && !isFreeFunction (module.name fn) &&
    !isIntrinsic (module.name fn)

/-- The function may be what the call calls. -/
def Callee.CanBe (callee : Callee Fn) (fn : Fn) : Prop :=
  callee = .direct fn ∨ ∃ address, callee = .indirect address

section

variable (fn : Fn) (index : Nat) (registers : Operand → Value Fn) (heap : Heap Fn)

/-- An instruction that is not a transfer of control, with its result and what it does. -/
inductive Effect : Inst Fn → Value Fn → Heap Fn → List (Event Fn) → Prop
  | gep {inBounds : Bool} {base : Operand} {indices : List Operand} :
      Effect (.gep inBounds base indices) (registers base) heap
        [.take fn index base (registers base)]
  | bitcast {source : Operand} :
      Effect (.bitcast source) (registers source) heap [.take fn index source (registers source)]
  | select {condition onTrue onFalse chosen : Operand} : chosen = onTrue ∨ chosen = onFalse →
      Effect (.select condition onTrue onFalse) (registers chosen) heap
        [.take fn index chosen (registers chosen)]
  | load {address : Operand} {object : Object Fn} {value : Value Fn} :
      registers address = .pointer object → value = .data ∨ value ∈ heap.memory object →
      Effect (.load address) value heap []
  | store {value address : Operand} {object : Object Fn} : registers address = .pointer object →
      Effect (.store value address) .data (heap.write object (registers value))
        [.store fn value address object (registers value)]
  | alloca :
      Effect .alloca (.pointer (heap.fresh (.slot fn index))) (heap.allocate (.slot fn index)) []
  | allocate {isInvoke : Bool} {callee : Fn} {arguments : List Operand} :
      isAllocFunction (module.name callee) = true →
      Effect (.call isInvoke (.direct callee) arguments)
        (.pointer (heap.fresh (.site fn index))) (heap.allocate (.site fn index)) []
  | arenaAlloc {isCalloc : Bool} {sizes : List Operand} :
      Effect (.arenaAlloc isCalloc sizes)
        (.pointer (heap.fresh (.site fn index))) (heap.allocate (.site fn index)) []
  /-- Allocations may fail. -/
  | exhausted {isInvoke : Bool} {callee : Fn} {arguments : List Operand} :
      isAllocFunction (module.name callee) = true →
      Effect (.call isInvoke (.direct callee) arguments) .data heap []
  | arenaExhausted {isCalloc : Bool} {sizes : List Operand} :
      Effect (.arenaAlloc isCalloc sizes) .data heap []
  | free {isInvoke : Bool} {callee : Fn} {arguments : List Operand} :
      isFreeFunction (module.name callee) = true →
      Effect (.call isInvoke (.direct callee) arguments) .data heap
        [.free fn index arguments (arguments.map registers)]
  | erased : Effect .erased .data heap []
  /-- Intrinsics copy between the objects they are given, and may return one. -/
  | intrinsic {isInvoke : Bool} {callee : Fn} {arguments : List Operand} {result : Value Fn}
      {stores : List (Object Fn × Value Fn)} : isIntrinsic (module.name callee) = true →
      (∀ value ∈ result :: stores.map Prod.snd, heap.Within (arguments.map registers) value) →
      (∀ store ∈ stores, .pointer store.1 ∈ arguments.map registers) →
      Effect (.call isInvoke (.direct callee) arguments) result (heap.writes stores)
        [.intrinsic fn index (result :: stores.map Prod.snd)]
  /-- Any other instruction may give its operands away. -/
  | other {operands : List Operand} {result : Value Fn} :
      (heap.expose (operands.map registers)).KnownValue result →
      Effect (.other operands) result (heap.expose (operands.map registers)) []

end

/-- What a function may return where it is; data where it is left by an exception. -/
def Frame.Returns (frame : Frame Fn) (value : Value Fn) : Prop :=
  value = .data ∨ ∃ body operand, module.body frame.fn = some body ∧
    body.insts[frame.point]? = some (.ret (some operand)) ∧ value = frame.registers operand

inductive Step : State Fn → List (Event Fn) → State Fn → Prop
  | execute {frame : Frame Fn} {rest : List (Activation Fn)} {heap after : Heap Fn}
      {body : Body Fn} {inst : Inst Fn} {value : Value Fn} {events : List (Event Fn)} {next : Nat} :
      module.body frame.fn = some body → body.insts[frame.point]? = some inst →
      Effect module frame.fn frame.point frame.registers heap inst value after events →
      next ∈ body.next frame.point →
      Step ⟨.code frame :: rest, heap⟩ (events ++ frame.goOnTakes body value next)
        ⟨.code (frame.goOn body value next) :: rest, after⟩
  | call {frame : Frame Fn} {rest : List (Activation Fn)} {heap : Heap Fn} {body : Body Fn}
      {isInvoke : Bool} {callee : Callee Fn} {arguments : List Operand} {target : Fn} :
      module.body frame.fn = some body →
      body.insts[frame.point]? = some (.call isInvoke callee arguments) → callee.CanBe target →
      module.isPlain target = true → (module.body target).isSome = true →
      Step ⟨.code frame :: rest, heap⟩ [.call target (arguments.map frame.registers)]
        ⟨.code (.entry target (arguments.map frame.registers)) :: .code frame :: rest, heap⟩
  | callOut {frame : Frame Fn} {rest : List (Activation Fn)} {heap : Heap Fn} {body : Body Fn}
      {isInvoke : Bool} {callee : Callee Fn} {arguments : List Operand} {target : Fn} :
      module.body frame.fn = some body →
      body.insts[frame.point]? = some (.call isInvoke callee arguments) → callee.CanBe target →
      module.isPlain target = true → module.body target = none →
      Step ⟨.code frame :: rest, heap⟩ [.expose (arguments.map frame.registers)]
        ⟨.environment :: .code frame :: rest, heap.expose (arguments.map frame.registers)⟩
  | ret {frame caller : Frame Fn} {rest : List (Activation Fn)} {heap : Heap Fn} {body : Body Fn}
      {value : Value Fn} {next : Nat} : frame.Returns module value →
      module.body caller.fn = some body → next ∈ body.next caller.point →
      Step ⟨.code frame :: .code caller :: rest, heap⟩ (caller.goOnTakes body value next)
        ⟨.code (caller.goOn body value next) :: rest, heap⟩
  | retOut {frame : Frame Fn} {rest : List (Activation Fn)} {heap : Heap Fn} {value : Value Fn} :
      frame.Returns module value →
      Step ⟨.code frame :: .environment :: rest, heap⟩ []
        ⟨.environment :: rest, heap.expose [value]⟩
  | comeBack {caller : Frame Fn} {rest : List (Activation Fn)} {heap : Heap Fn} {body : Body Fn}
      {value : Value Fn} {next : Nat} : heap.KnownValue value →
      module.body caller.fn = some body → next ∈ body.next caller.point →
      Step ⟨.environment :: .code caller :: rest, heap⟩ (caller.goOnTakes body value next)
        ⟨.code (caller.goOn body value next) :: rest, heap⟩
  | callIn {rest : List (Activation Fn)} {heap : Heap Fn} {target : Fn}
      {arguments : List (Value Fn)} : (∀ value ∈ arguments, heap.KnownValue value) →
      (module.body target).isSome = true →
      Step ⟨.environment :: rest, heap⟩ []
        ⟨.code (.entry target arguments) :: .environment :: rest, heap⟩
  | storeOut {rest : List (Activation Fn)} {heap : Heap Fn} {object : Object Fn}
      {value : Value Fn} : heap.Known object → heap.KnownValue value →
      Step ⟨.environment :: rest, heap⟩ [] ⟨.environment :: rest, heap.write object value⟩
  | loadOut {rest : List (Activation Fn)} {heap : Heap Fn} {object : Object Fn}
      {value : Value Fn} : heap.Known object → value ∈ heap.memory object →
      Step ⟨.environment :: rest, heap⟩ [] ⟨.environment :: rest, heap.expose [value]⟩

/-- Runs with what happens in them. -/
inductive Runs : State Fn → List (Event Fn) → State Fn → Prop
  | nil {state : State Fn} : Runs state [] state
  | step {state next last : State Fn} {events more : List (Event Fn)} :
      Step module state events next → Runs next more last → Runs state (events ++ more) last

/-- Nothing has been called yet. -/
def State.initial : State Fn where
  stack := [.environment]
  heap := { memory := fun _ => [], exposed := [], allocated := 0 }

end LifetimeArena
end TopoLlvm
