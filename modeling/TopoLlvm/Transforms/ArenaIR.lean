import TopoLlvm.Library.Worklist
import TopoLlvm.Transforms.ArenaTeardown

/-!
# The escape walk of the arena pass

Functions as `LifetimeArenaPass` looks at them, and the walk over the uses of a pointer that
decides whether it stays within the functions of a lifetime scope.
-/

namespace TopoLlvm
namespace LifetimeArena

open TopoLlvm.Runtime (Name)
open Worklist (Verdict Outcome)

/-- A value of a function. -/
inductive Operand where
  | inst (index : Nat)
  | param (index : Nat)
  | global (index : Nat)
  | constant
  deriving DecidableEq

inductive Callee (Fn : Type) where
  | direct (fn : Fn)
  | indirect (address : Operand)

/-- An instruction; its index is also the name of its value. -/
inductive Inst (Fn : Type) where
  | gep (inBounds : Bool) (base : Operand) (indices : List Operand)
  | bitcast (source : Operand)
  /-- By the terminators of the predecessors. -/
  | phi (incoming : List (Nat × Operand))
  | select (condition onTrue onFalse : Operand)
  | load (address : Operand)
  | store (value address : Operand)
  | alloca
  | call (isInvoke : Bool) (callee : Callee Fn) (arguments : List Operand)
  /-- What a converted allocation becomes. -/
  | arenaAlloc (isCalloc : Bool) (sizes : List Operand)
  /-- What an erased call leaves. -/
  | erased
  | ret (value : Option Operand)
  | other (operands : List Operand)

namespace Inst

variable {Fn : Type}

def operands : Inst Fn → List Operand
  | gep _ base indices => base :: indices
  | bitcast source => [source]
  | phi incoming => incoming.map Prod.snd
  | select condition onTrue onFalse => [condition, onTrue, onFalse]
  | load address => [address]
  | store value address => [value, address]
  | alloca | erased => []
  | call _ (.direct _) arguments => arguments
  | call _ (.indirect address) arguments => address :: arguments
  | arenaAlloc _ sizes => sizes
  | ret value => value.toList
  | other operands => operands

/-- The result is one of the operands, up to an offset. -/
def isMove : Inst Fn → Bool
  | gep .. | bitcast _ | phi _ | select .. => true
  | _ => false

def isAlloca : Inst Fn → Bool
  | alloca => true
  | _ => false

def isGep : Inst Fn → Bool
  | gep .. => true
  | _ => false

def indices : Inst Fn → List Operand
  | gep _ _ indices => indices
  | _ => []

end Inst

/-- The instructions of a function with their flow. -/
structure Body (Fn : Type) where
  insts : List (Inst Fn)
  /-- The instructions that are executed next; phi nodes are executed on the way to them. -/
  next : Nat → List Nat
  /-- The phi nodes of the block that begins with an instruction. -/
  phisAt : Nat → List Nat
  /-- Indices are numbers. -/
  typed : ∀ inst ∈ insts, ∀ k, Operand.inst k ∈ inst.indices → ∀ other, insts[k]? = some other →
    other.isAlloca = false ∧ other.isGep = false

structure Module (Fn : Type) where
  name : Fn → Name
  /-- None for a declaration. -/
  body : Fn → Option (Body Fn)

def isAllocFunction (name : Name) : Bool :=
  (["malloc", "_Znwm", "_Znwj", "_Znam", "_Znaj", "calloc"].map String.toList).contains name

def isFreeFunction (name : Name) : Bool :=
  (["free", "_ZdlPv", "_ZdaPv", "_ZdlPvm", "_ZdaPvm"].map String.toList).contains name

def isIntrinsic (name : Name) : Bool := "llvm.".toList.isPrefixOf name

/-- The order in which LLVM lists the users of a value. -/
structure UseOrder (Fn : Type) where
  users : Body Fn → Operand → List Nat
  mem_users : ∀ body value index, index ∈ users body value ↔
    ∃ inst, body.insts[index]? = some inst ∧ value ∈ inst.operands

/-- Users by their positions. -/
def UseOrder.inOrder {Fn : Type} : UseOrder Fn where
  users body value := (List.range body.insts.length).filter fun index =>
    body.insts[index]?.any fun inst => decide (value ∈ inst.operands)
  mem_users body value index := by
    rw [List.mem_filter, List.mem_range, Option.any_eq_true]
    constructor
    · rintro ⟨-, inst, there, used⟩
      exact ⟨inst, there, of_decide_eq_true used⟩
    · rintro ⟨inst, there, used⟩
      exact ⟨(List.getElem?_eq_some_iff.mp there).1, inst, there, decide_eq_true used⟩

namespace Body

variable {Fn : Type} (body : Body Fn)

def isAlloca (index : Nat) : Bool := body.insts[index]?.any Inst.isAlloca

def stripOffsets : Nat → Operand → Operand
  | fuel + 1, .inst index =>
      match body.insts[index]? with
      | some (.gep true base _) => stripOffsets fuel base
      | some (.bitcast source) => stripOffsets fuel source
      | _ => .inst index
  | _, value => value

def stripInBoundsOffsets (value : Operand) : Operand := body.stripOffsets body.insts.length value

/-- The stack slot that a pointer is stored to. -/
def slotOf (address : Operand) : Option Nat :=
  match body.stripInBoundsOffsets address with
  | .inst index => if body.isAlloca index then some index else none
  | _ => none

/-- A use of the address of a stack slot, with the loads from the slot found so far. -/
def slotUse (address : Operand) (user : Nat) (loads : List Operand) :
    Verdict Operand (List Operand) :=
  match body.insts[user]? with
  | some (.load _) => .go [] (loads ++ [.inst user])
  | some (.gep ..) => .go [.inst user] loads
  | some (.store value _) => if value = address then .stop loads else .go [] loads
  | _ => .stop loads

variable (order : UseOrder Fn)

def searchSlot (slot : Nat) : Outcome Operand (List Operand) :=
  Worklist.walk body.slotUse (order.users body) (body.insts.length + 1) (.inst slot) []

/-- The loads from a stack slot, unless its address leaks. -/
def slotLoads (slot : Nat) : Option (List Operand) :=
  match body.searchSlot order slot with
  | .finished _ loads => some loads
  | .stopped _ => none

end Body

namespace Module

variable {Fn : Type} [DecidableEq Fn] (module : Module Fn) (order : UseOrder Fn)
  (scopeFunctions : List Fn) (body : Body Fn)

/-- A use of the pointer, with the calls that free it found so far. -/
def use (value : Operand) (user : Nat) (matchedFrees : List Nat) :
    Verdict Operand (List Nat) :=
  match body.insts[user]? with
  | some (.gep ..) | some (.bitcast _) | some (.phi _) | some (.select ..) =>
      .go [.inst user] matchedFrees
  | some (.load _) => .go [] matchedFrees
  | some (.store _ address) =>
      if address = value then .go [] matchedFrees
      else
        match (body.slotOf address).bind (body.slotLoads order) with
        | some loads => .go loads matchedFrees
        | none => .stop matchedFrees
  | some (.call false (.direct fn) _) =>
      if isFreeFunction (module.name fn) then
        .go [] (if user ∈ matchedFrees then matchedFrees else matchedFrees ++ [user])
      else if isIntrinsic (module.name fn) then .go [] matchedFrees
      else if fn ∈ scopeFunctions then .go [] matchedFrees
      else .stop matchedFrees
  -- The overflow check of the size is an intrinsic.
  | some (.arenaAlloc isCalloc _) => if isCalloc then .go [] matchedFrees else .stop matchedFrees
  | _ => .stop matchedFrees

/-- Follow an allocation's result; the walk is ended where the pointer escapes. -/
def escapesScope (root : Operand) : Outcome Operand (List Nat) :=
  Worklist.walk (module.use order scopeFunctions body) (order.users body) (body.insts.length + 1)
    root []

end Module
end LifetimeArena
end TopoLlvm
