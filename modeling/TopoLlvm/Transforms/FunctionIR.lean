import TopoLlvm.Library.Iterations
import TopoLlvm.Transforms.LoopIR

/-!
# Functions as flow graphs

Functions of any shape, for passes that look at all loops of a function.  An execution is the list
of the blocks it visits with the bytes accessed there; a call is one instruction of its caller.
-/

namespace TopoLlvm
namespace Transforms

open Overwrite Iterations

/-- The instruction may read or write memory. -/
def Opcode.mayReadOrWriteMemory : Opcode → Bool
  | .binary _ | .pure _ => false
  | .call site => site.mayRead || site.mayWrite
  | .load _ | .store _ | .fence | .atomicRMW _ | .atomicCmpXchg => true

/-- The instruction may write memory. -/
def Opcode.mayWriteToMemory : Opcode → Bool
  | .binary _ | .pure _ | .load _ => false
  | .call site => site.mayWrite
  | .store _ | .fence | .atomicRMW _ | .atomicCmpXchg => true

theorem Interpretation.exec_unwritten (interp : Interpretation) {opcode : Opcode}
    (silent : opcode.mayWriteToMemory = false) (operands : List Value) (memory : Memory) :
    (interp.exec opcode operands memory).2 = [] := by
  cases opcode with
  | binary op => rfl
  | pure name => rfl
  | load type => rfl
  | call site => exact interp.call_unwritten site silent operands memory
  | _ => cases silent

/-- What instructions do, and which bytes this depends on. -/
structure MemoryModel extends Interpretation where
  reads : Opcode → List Value → Memory → List Nat
  reads_silent : ∀ opcode : Opcode, opcode.mayReadOrWriteMemory = false →
    ∀ operands memory, reads opcode operands memory = []
  exec_reads : ∀ opcode operands memory other,
    (∀ address ∈ reads opcode operands memory, memory address = other address) →
    toInterpretation.exec opcode operands memory = toInterpretation.exec opcode operands other

/-- A value of a function. -/
inductive Ref where
  | const (value : Value)
  | argument (index : Nat)
  | phi (block index : Nat)
  | inst (block index : Nat)
  deriving DecidableEq

/-- A phi node, by its values from each predecessor. -/
structure PhiNode where
  incoming : List (Nat × Ref)

/-- The end of a block.  An `invoke` is its call and a switch on how that returns. -/
inductive Terminator where
  | switch (condition : Ref) (cases : List (Value × Nat)) (default : Nat)
  | leave

def Terminator.next (registers : Ref → Value) : Terminator → Option Nat
  | switch condition cases default => some ((cases.lookup (registers condition)).getD default)
  | leave => none

structure Block where
  phis : List PhiNode
  insts : List (Inst Ref)
  terminator : Terminator

/-- A loop as `LoopInfo` reports it, with the blocks of the loops inside. -/
structure NaturalLoop where
  header : Nat
  blocks : List Nat
  header_mem : header ∈ blocks

/-- Where a visit of a block is with respect to the loop. -/
def NaturalLoop.place (loop : NaturalLoop) (block : Nat) : Place :=
  if block = loop.header then .header else if block ∈ loop.blocks then .inside else .outside

/-- The body of a function, with the outermost loops; block 0 is the entry. -/
structure Code where
  isDeclaration : Bool
  blocks : List Block
  loops : List NaturalLoop
  disjoint : loops.Pairwise fun loop other => loop.blocks.Disjoint other.blocks

/-- A state in which a block is entered. -/
structure Entered where
  block : Nat
  previous : Option Nat
  registers : Ref → Value
  memory : Memory

/-- What has been executed of a block. -/
structure Progress where
  registers : Ref → Value
  memory : Memory
  footprint : Footprint Nat

namespace Code

variable (code : Code) (model : MemoryModel)

/-- Execute an instruction at an index of a block. -/
def execInst (block : Nat) (progress : Progress) (entry : Inst Ref × Nat) : Progress :=
  let operands := entry.1.operands.map progress.registers
  let result := model.exec entry.1.opcode operands progress.memory
  { registers := Function.update progress.registers (.inst block entry.2) result.1
    memory := overwrite progress.memory result.2
    footprint := progress.footprint.append
      ⟨model.reads entry.1.opcode operands progress.memory, result.2.map Prod.fst⟩ }

/-- All phi nodes of a block take their values at once. -/
def enterPhis (state : Entered) (phis : List PhiNode) : Ref → Value
  | .phi block index =>
      if block = state.block then
        ((phis[index]?.bind fun phi => state.previous.bind fun previous =>
          phi.incoming.lookup previous).map state.registers).getD default
      else state.registers (.phi block index)
  | ref => state.registers ref

/-- Execute a block that is entered, up to its terminator. -/
def execBlock (state : Entered) (block : Block) : Progress :=
  block.insts.zipIdx.foldl (execInst model state.block)
    { registers := enterPhis state block.phis, memory := state.memory, footprint := .none }

/-- The state in which the next block is entered. -/
def next (state : Entered) (block : Block) : Option Entered :=
  let progress := execBlock model state block
  (block.terminator.next progress.registers).map fun target =>
    { block := target, previous := some state.block, registers := progress.registers
      memory := progress.memory }

/-- The blocks visited from a state on, with the bytes accessed there; at most a number of them. -/
def visits : Nat → Entered → List (Nat × Footprint Nat)
  | 0, _ => []
  | fuel + 1, state =>
      match code.blocks[state.block]? with
      | none => []
      | some block =>
          (state.block, (execBlock model state block).footprint) ::
            ((next model state block).map (visits fuel)).getD []

/-- The state in which the function is called. -/
def start (arguments : Nat → Value) (memory : Memory) : Entered where
  block := 0
  previous := none
  registers
    | .const value => value
    | .argument index => arguments index
    | .phi _ _ | .inst _ _ => default
  memory

/-- A run of the function as a loop sees it. -/
def loopVisits (loop : NaturalLoop) (arguments : Nat → Value) (memory : Memory) (fuel : Nat) :
    List (Visit Nat) :=
  (code.visits model fuel (start arguments memory)).map fun visit =>
    ⟨loop.place visit.1, visit.2⟩

/-- No two iterations of an execution of the loop access a common byte that one of them writes,
whatever the arguments and the memory. -/
def IsParallel (loop : NaturalLoop) : Prop :=
  ∀ arguments memory fuel, ¬ Carried (code.loopVisits model loop arguments memory fuel)

/-- In every run the accesses of each iteration avoid what the earlier iterations of the same
execution of the loop have written, and its writes avoid what they have read. -/
def PassesGate (loop : NaturalLoop) : Prop :=
  ∀ arguments memory fuel, Gate.closed.Passes (code.loopVisits model loop arguments memory fuel)

variable {code model} {loop : NaturalLoop}

theorem execInst_footprint_writes {block : Nat} {progress : Progress} {entry : Inst Ref × Nat}
    (silent : entry.1.opcode.mayWriteToMemory = false) :
    (execInst model block progress entry).footprint.writes = progress.footprint.writes := by
  simp [execInst, Footprint.append, model.exec_unwritten silent]

theorem execBlock_footprint_writes {state : Entered} {block : Block}
    (silent : ∀ inst ∈ block.insts, inst.opcode.mayWriteToMemory = false) :
    (execBlock model state block).footprint.writes = [] := by
  have kept (entries : List (Inst Ref × Nat)) (progress : Progress)
      (all : ∀ entry ∈ entries, entry.1.opcode.mayWriteToMemory = false) :
      (entries.foldl (execInst model state.block) progress).footprint.writes =
        progress.footprint.writes := by
    induction entries generalizing progress with
    | nil => rfl
    | cons entry entries ih =>
        rw [List.forall_mem_cons] at all
        rw [List.foldl_cons, ih _ all.2, execInst_footprint_writes all.1]
  exact kept _ _ fun entry member => silent _ (List.fst_mem_of_mem_zipIdx member)

theorem visits_footprint_writes {fuel : Nat} {state : Entered} {visit : Nat × Footprint Nat}
    (visited : visit ∈ code.visits model fuel state)
    (silent : ∀ block, code.blocks[visit.1]? = some block →
      ∀ inst ∈ block.insts, inst.opcode.mayWriteToMemory = false) :
    visit.2.writes = [] := by
  induction fuel generalizing state with
  | zero => cases visited
  | succ fuel ih =>
      rw [visits] at visited
      cases there : code.blocks[state.block]? with
      | none => simp [there] at visited
      | some block =>
          rw [there, List.mem_cons] at visited
          rcases visited with rfl | visited
          · exact execBlock_footprint_writes (silent block there)
          · cases went : next model state block with
            | none => simp [went] at visited
            | some following => exact ih (by simpa [went] using visited)

/-- A loop without instructions that may write memory passes the gate. -/
theorem passesGate_of_unwritten
    (silent : ∀ index ∈ loop.blocks, ∀ block, code.blocks[index]? = some block →
      ∀ inst ∈ block.insts, inst.opcode.mayWriteToMemory = false) :
    code.PassesGate model loop := by
  intro arguments memory fuel
  refine Gate.closed_passes_iff.mpr (not_carried_of_writes_nil fun visit member stays => ?_)
  obtain ⟨visited, there, rfl⟩ := List.mem_map.mp member
  refine visits_footprint_writes there (silent visited.1 ?_)
  unfold NaturalLoop.place at stays
  split at stays
  · rename_i same
    exact same ▸ loop.header_mem
  · split at stays
    · assumption
    · exact absurd rfl stays

end Code
end Transforms
end TopoLlvm
