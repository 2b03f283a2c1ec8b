import TopoLlvm.Library.Text
import TopoLlvm.Transforms.FunctionIR
import TopoLlvm.Transforms.OutlineFidelity
import Mathlib.Data.List.Infix

/-!
# Metadata for parallel loops

Phase 1 of `LoopParallelizePass` promises of every outermost loop of a parallel stage's functions
that its iterations do not depend on each other through memory.  It asks nothing of the loops, so
the promise is kept exactly where they pass a gate that the pass does not have.
-/

namespace TopoLlvm
namespace Transforms

open Iterations

/-- A logic block of the symbol table. -/
structure LogicBlockEntry where
  calledFunctions : List Symbol
  stages : List Int
  isPipeline : Bool

/-- The namespace of a qualified name, with its separator. -/
def nsPrefix (blockName : Symbol) : Symbol :=
  match Text.rsplit [':', ':'] blockName with
  | some (before, _) => before ++ [':', ':']
  | none => []

/-- The callees of a logic block that have a stage. -/
def LogicBlockEntry.stageFuncs (block : LogicBlockEntry) (blockName : Symbol) :
    List (Int × Symbol) :=
  block.calledFunctions.zipIdx.filterMap fun (callee, index) =>
    if 8 < callee.length ∧ callee.take 8 = "<assign:".toList then none
    else
      let stage := block.stages.getD index (-1)
      if stage < 0 then none
      else some (stage, if block.isPipeline then callee else nsPrefix blockName ++ callee)

/-- The functions that share a stage of a logic block with another callee. -/
def findParallelStageFunctions (logicBlocks : List (Symbol × LogicBlockEntry)) : List Symbol :=
  logicBlocks.flatMap fun (blockName, block) =>
    let stageFuncs := block.stageFuncs blockName
    (stageFuncs.filter fun entry => 2 ≤ stageFuncs.countP (·.1 = entry.1)).map Prod.snd

/-- The name contains an excluded pattern. -/
def isExcluded (name : Symbol) (excludeList : List Symbol) : Bool :=
  excludeList.any fun pattern => pattern <:+: name

/-- An entry of a loop's metadata. -/
inductive LoopProperty (Group : Type) where
  | parallelAccesses (group : Group)
  | other (name : Symbol)

/-- A function with the metadata of its instructions, by block and index, and of its loops, by
header. -/
structure AnnotatedFunction (Group : Type) where
  code : Code
  accessGroup : Nat → Nat → Option Group
  loopID : Nat → List (LoopProperty Group)

/-- An access group: a node that the module had, or one that the pass has created. -/
inductive GroupNode (Group : Type) where
  | given (group : Group)
  | distinct (number : Nat)
  deriving DecidableEq

section Input

variable {Group : Type}

def LoopProperty.load : LoopProperty Group → LoopProperty (GroupNode Group)
  | parallelAccesses group => .parallelAccesses (.given group)
  | other name => .other name

/-- A function of the module as the pass finds it. -/
def AnnotatedFunction.load (func : AnnotatedFunction Group) :
    AnnotatedFunction (GroupNode Group) where
  code := func.code
  accessGroup block index := (func.accessGroup block index).map .given
  loopID header := (func.loopID header).map .load

end Input

namespace AnnotatedFunction

variable {Group : Type} (func : AnnotatedFunction Group)

/-- The instruction at an index of a block may access memory. -/
def accesses (block index : Nat) : Bool :=
  ((func.code.blocks[block]?.bind fun code => code.insts[index]?).any fun inst =>
    inst.opcode.mayReadOrWriteMemory)

/-- Put the loop's accesses into a group that the loop declares parallel. -/
def annotateLoop (group : Group) (loop : NaturalLoop) : AnnotatedFunction Group where
  code := func.code
  accessGroup block index :=
    if block ∈ loop.blocks ∧ func.accesses block index = true then some group
    else func.accessGroup block index
  loopID header :=
    if header = loop.header then func.loopID header ++ [.parallelAccesses group]
    else func.loopID header

/-- The loop declares a group parallel that all its accesses are in. -/
def Declares (loop : NaturalLoop) (group : Group) : Prop :=
  LoopProperty.parallelAccesses group ∈ func.loopID loop.header ∧
    ∀ block ∈ loop.blocks, ∀ index, func.accesses block index = true →
      func.accessGroup block index = some group

end AnnotatedFunction

/-- What phase 1 is given besides the functions. -/
structure PhaseOneInput (FunctionId : Type) where
  logicBlocks : List (Symbol × LogicBlockEntry)
  /-- The functions that qualified names are mapped to. -/
  matched : List (Symbol × FunctionId)
  nodup : (matched.map Prod.fst).Nodup
  exclude : List Symbol

/-- The state of phase 1, with the number of loops annotated so far. -/
structure Annotation (FunctionId Group : Type) where
  functions : FunctionId → AnnotatedFunction (GroupNode Group)
  annotated : Nat
  perFnCount : Symbol → Nat

variable {FunctionId Group : Type}

/-- Annotate loops, with new groups from a number on. -/
def AnnotatedFunction.annotateLoops : Nat → List NaturalLoop → AnnotatedFunction (GroupNode Group) →
    AnnotatedFunction (GroupNode Group)
  | _, [], func => func
  | number, loop :: loops, func =>
      annotateLoops (number + 1) loops (func.annotateLoop (.distinct number) loop)

namespace PhaseOneInput

variable (input : PhaseOneInput FunctionId) (functions : FunctionId → AnnotatedFunction Group)

/-- The loops of the function are annotated under the name. -/
def selects (entry : Symbol × FunctionId) : Bool :=
  (findParallelStageFunctions input.logicBlocks).contains entry.1 &&
    !isExcluded entry.1 input.exclude && !(functions entry.2).code.isDeclaration

variable [DecidableEq FunctionId]

/-- Annotate the loops of one mapped function. -/
def annotateFunction (state : Annotation FunctionId Group) (entry : Symbol × FunctionId) :
    Annotation FunctionId Group :=
  if input.selects state.functions entry then
    let func := state.functions entry.2
    { functions := Function.update state.functions entry.2
        (func.annotateLoops state.annotated func.code.loops)
      annotated := state.annotated + func.code.loops.length
      perFnCount := Function.update state.perFnCount entry.1
        (state.perFnCount entry.1 + func.code.loops.length) }
  else state

def annotateLoopsPhase1 : Annotation FunctionId Group :=
  input.matched.foldl input.annotateFunction
    { functions := fun name => (functions name).load, annotated := 0, perFnCount := fun _ => 0 }

end PhaseOneInput

namespace Annotation

/-- Every loop to which phase 1 attaches a group of all its memory instructions is parallel. -/
def Sound (output : Annotation FunctionId Group) (model : MemoryModel) : Prop :=
  ∀ name, ∀ loop ∈ (output.functions name).code.loops,
    (∃ number, (output.functions name).Declares loop (.distinct number)) →
      (output.functions name).code.IsParallel model loop

end Annotation

namespace AnnotatedFunction

variable {func : AnnotatedFunction Group} {loop other : NaturalLoop} {group : Group}

theorem declares_annotateLoop : (func.annotateLoop group loop).Declares loop group := by
  refine ⟨by simp [annotateLoop], fun block inside index accesses => ?_⟩
  exact if_pos ⟨inside, accesses⟩

/-- Annotating a loop leaves the metadata of disjoint loops alone. -/
theorem Declares.annotateLoop {created : Group} (declares : func.Declares other group)
    (disjoint : loop.blocks.Disjoint other.blocks) :
    (func.annotateLoop created loop).Declares other group := by
  obtain ⟨member, grouped⟩ := declares
  have apart : other.header ≠ loop.header := fun same =>
    disjoint (same ▸ loop.header_mem) other.header_mem
  refine ⟨?_, fun block inside index accesses => ?_⟩
  · simpa only [AnnotatedFunction.annotateLoop, if_neg apart] using member
  · exact (if_neg fun both => disjoint both.1 inside).trans (grouped block inside index accesses)

@[simp] theorem annotateLoops_code {number : Nat} {loops : List NaturalLoop}
    {func : AnnotatedFunction (GroupNode Group)} :
    (func.annotateLoops number loops).code = func.code := by
  induction loops generalizing number func with
  | nil => rfl
  | cons loop loops ih => exact ih

variable {func : AnnotatedFunction (GroupNode Group)} {number : Nat} {loops : List NaturalLoop}

theorem Declares.annotateLoops {group : GroupNode Group} (declares : func.Declares other group)
    (disjoint : ∀ loop ∈ loops, other.blocks.Disjoint loop.blocks) :
    (func.annotateLoops number loops).Declares other group := by
  induction loops generalizing number func with
  | nil => exact declares
  | cons loop loops ih =>
      rw [List.forall_mem_cons] at disjoint
      exact ih (declares.annotateLoop (List.disjoint_comm.mp disjoint.1)) disjoint.2

/-- Each of the annotated loops keeps a group of its own. -/
theorem declares_annotateLoops
    (disjoint : loops.Pairwise fun loop other => loop.blocks.Disjoint other.blocks) :
    ∀ loop ∈ loops, ∃ created, (func.annotateLoops number loops).Declares loop
      (.distinct created) := by
  induction disjoint generalizing number func with
  | nil => exact nofun
  | cons apart _ ih =>
      rw [List.forall_mem_cons]
      exact ⟨⟨number, declares_annotateLoop.annotateLoops apart⟩, ih⟩

end AnnotatedFunction

namespace PhaseOneInput

variable (input : PhaseOneInput FunctionId) (functions : FunctionId → AnnotatedFunction Group)

/-- What phase 1 has done to a function after some of the mapped ones. -/
structure Progress (before : List (Symbol × FunctionId)) (state : Annotation FunctionId Group)
    (name : FunctionId) : Prop where
  code : (state.functions name).code = (functions name).code
  annotated : (∃ entry ∈ before, entry.2 = name ∧ input.selects functions entry = true) →
    ∀ loop ∈ (functions name).code.loops,
      ∃ number, (state.functions name).Declares loop (.distinct number)
  untouched : (∀ entry ∈ before, entry.2 = name → input.selects functions entry = false) →
    state.functions name = (functions name).load

variable {input functions} [DecidableEq FunctionId] {before : List (Symbol × FunctionId)}
  {state : Annotation FunctionId Group}

theorem Progress.annotateFunction (progress : ∀ name, input.Progress functions before state name)
    (entry : Symbol × FunctionId) (name : FunctionId) :
    input.Progress functions (before ++ [entry]) (input.annotateFunction state entry) name := by
  have same : input.selects state.functions entry = input.selects functions entry := by
    simp only [selects, (progress entry.2).code]
  rw [PhaseOneInput.annotateFunction, same]
  cases selected : input.selects functions entry with
  | false =>
      rw [if_neg Bool.false_ne_true]
      refine ⟨(progress name).code, ?_, fun none => (progress name).untouched fun earlier member =>
        none earlier (List.mem_append_left _ member)⟩
      rintro ⟨earlier, member, named, chosen⟩
      rcases List.mem_append.mp member with member | member
      · exact (progress name).annotated ⟨earlier, member, named, chosen⟩
      · rw [List.mem_singleton.mp member, selected] at chosen
        cases chosen
  | true =>
      rw [if_pos rfl]
      by_cases here : name = entry.2
      · subst here
        refine ⟨by simp [(progress entry.2).code], fun _ loop member => ?_, fun none => ?_⟩
        · rw [← (progress entry.2).code] at member
          simpa using AnnotatedFunction.declares_annotateLoops
            (state.functions entry.2).code.disjoint loop member
        · have := none entry (by simp) rfl
          rw [selected] at this
          cases this
      · refine ⟨by simp [Function.update_of_ne here, (progress name).code], ?_, fun none => ?_⟩
        · rintro ⟨earlier, member, rfl, chosen⟩
          rcases List.mem_append.mp member with member | member
          · simpa [Function.update_of_ne here] using
              (progress earlier.2).annotated ⟨earlier, member, rfl, chosen⟩
          · exact absurd (congrArg Prod.snd (List.mem_singleton.mp member)) here
        · simpa [Function.update_of_ne here] using
            (progress name).untouched fun earlier member =>
              none earlier (List.mem_append_left _ member)

theorem Progress.foldl (before entries : List (Symbol × FunctionId))
    (progress : ∀ name, input.Progress functions before state name) (name : FunctionId) :
    input.Progress functions (before ++ entries)
      (entries.foldl input.annotateFunction state) name := by
  induction entries generalizing before state with
  | nil => simpa using progress name
  | cons entry entries ih =>
      simpa using ih (before ++ [entry]) (Progress.annotateFunction progress entry)

variable (input functions)

theorem annotateFunction_counts (state : Annotation FunctionId Group)
    (entry : Symbol × FunctionId) :
    let after := input.annotateFunction state entry
    (∀ name, name ≠ entry.1 → after.perFnCount name = state.perFnCount name) ∧
      after.annotated + state.perFnCount entry.1 =
        state.annotated + after.perFnCount entry.1 := by
  unfold annotateFunction
  dsimp only
  split
  · refine ⟨fun name other => Function.update_of_ne other _ _, ?_⟩
    simp only [Function.update_self]
    omega
  · exact ⟨fun _ _ => rfl, rfl⟩

theorem foldl_counts {entries : List (Symbol × FunctionId)}
    (nodup : (entries.map Prod.fst).Nodup) (state : Annotation FunctionId Group)
    (fresh : ∀ entry ∈ entries, state.perFnCount entry.1 = 0) :
    let after := entries.foldl input.annotateFunction state
    (∀ name, name ∉ entries.map Prod.fst → after.perFnCount name = state.perFnCount name) ∧
      after.annotated =
        state.annotated + (entries.map fun entry => after.perFnCount entry.1).sum := by
  induction entries generalizing state with
  | nil => exact ⟨fun _ _ => rfl, rfl⟩
  | cons entry entries ih =>
      rw [List.map_cons, List.nodup_cons] at nodup
      rw [List.forall_mem_cons] at fresh
      obtain ⟨kept, counted⟩ := input.annotateFunction_counts state entry
      have apart {later : Symbol × FunctionId} (member : later ∈ entries) : later.1 ≠ entry.1 :=
        fun same => nodup.1 (same ▸ List.mem_map_of_mem member)
      obtain ⟨others, total⟩ := ih nodup.2 (input.annotateFunction state entry)
        fun later member => (kept _ (apart member)).trans (fresh.2 later member)
      refine ⟨fun name absent => ?_, ?_⟩
      · rw [List.map_cons, List.mem_cons, not_or] at absent
        exact (others name absent.2).trans (kept name absent.1)
      · have here := others entry.1 nodup.1
        rw [fresh.1, Nat.add_zero] at counted
        rw [List.foldl_cons, List.map_cons, List.sum_cons, total, here, counted, Nat.add_assoc]

/-- The counts reported for the functions add up to the number of annotated loops. -/
theorem sum_perFnCount :
    (input.matched.map fun entry =>
      (input.annotateLoopsPhase1 functions).perFnCount entry.1).sum =
        (input.annotateLoopsPhase1 functions).annotated := by
  obtain ⟨-, total⟩ := input.foldl_counts input.nodup
    { functions := fun name => (functions name).load, annotated := 0, perFnCount := fun _ => 0 }
    fun _ _ => rfl
  exact (total.trans (Nat.zero_add _)).symm

end PhaseOneInput

end Transforms
end TopoLlvm
