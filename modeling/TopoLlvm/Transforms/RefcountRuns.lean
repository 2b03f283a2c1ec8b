import TopoLlvm.Library.SplitUpdates
import TopoLlvm.Transforms.SmartPointers
import Mathlib.Data.BitVec

/-!
# Counters of shared pointers

`IndirectionPass` makes a load, an operation and a store of the increments and decrements of a
counter that come in pairs.  Any number of threads run the functions of a module: as long as every
such store finds the value that was loaded, the module does what it did before the pass, and a store
that finds another value leaves the counter wrong.
-/

namespace TopoLlvm
namespace Indirection
namespace Refcount

open TopoLlvm.Backend
open Transition (Machine)

/-- The instruction at a position of a block of a function. -/
def inst? (module : Module) (place : FunctionId × Nat × Nat) : Option Inst :=
  ((module.function place.1).blocks[place.2.1]?).bind (·[place.2.2]?)

/-- What threads do: where they are, what they read there, and how they go on.  The memory holds
counters of one width. -/
structure Semantics (w : Nat) (Local Cell Choice : Type) where
  /-- The instruction that comes next; none where a thread is in code of another module. -/
  place : Local → Option (FunctionId × Nat × Nat)
  cell : Local → Operand → Cell
  word : Local → Operand → BitVec w
  /-- What an operation other than an addition or a subtraction stores. -/
  exchange : Local → BitVec w → BitVec w
  /-- Behind an operation, with the old value as its result. -/
  resume : Local → BitVec w → Local
  /-- Everything else that a thread may do. -/
  perform : Option Inst → Choice → Local → (Cell → BitVec w) →
    Option (Local × (Cell → BitVec w))

section Runs

variable {w : Nat} {Local Cell Choice : Type} (semantics : Semantics w Local Cell Choice)

namespace Semantics

def next (module : Module) (here : Local) : Option Inst := (semantics.place here).bind (inst? module)

def change (here : Local) (operation : RMWOp) (value : Operand) : BitVec w → BitVec w :=
  match operation with
  | .add => fun old => old + semantics.word here value
  | .sub => fun old => old - semantics.word here value
  | .other => semantics.exchange here

def update (here : Local) : Option Inst → Option (SplitUpdates.Update Cell (BitVec w) Local)
  | some (.atomicRMW operation value pointer _) =>
      some
        { cell := semantics.cell here pointer
          change := semantics.change here operation value
          resume := semantics.resume here }
  | _ => none

def other (choice : Choice) (here : Local) (memory : Cell → BitVec w) :
    Option Inst → Option (Local × (Cell → BitVec w))
  | some (.atomicRMW ..) => none
  | inst => semantics.perform inst choice here memory

/-- What threads do in a module. -/
def program (module : Module) : SplitUpdates.Program Cell (BitVec w) Local Choice where
  update here := semantics.update here (semantics.next module here)
  other choice here memory := semantics.other choice here memory (semantics.next module here)

/-- The operation that comes next is a load, an operation and a store. -/
def split (module : Module) (here : Local) : Bool :=
  match semantics.next module here with
  | some (.atomicRMW _ _ _ split) => split
  | _ => false

end Semantics

/-- The runs of threads in a module. -/
def machine {Thread : Type} [DecidableEq Thread] [DecidableEq Cell] (module : Module)
    (memory : Cell → BitVec w) (threads : Thread → Local) :
    Machine (SplitUpdates.State Thread Cell (BitVec w) Local) (Thread × Choice) :=
  SplitUpdates.machine (semantics.program module) (semantics.split module) memory threads

end Runs

/-! ## What the pass changes -/

/-- A decrement or an increment by one. -/
def IsStep (inst : Inst) : Prop :=
  ∃ operation pointer, (operation = .add ∨ operation = .sub) ∧
    inst = .atomicRMW operation (.constant 1) pointer false

/-- Some decrements and increments are split. -/
def Splits (before after : Option Inst) : Prop :=
  after = before ∨ ∃ inst, before = some inst ∧ IsStep inst ∧ after = some inst.split

theorem Splits.trans {first second third : Option Inst} (one : Splits first second)
    (two : Splits second third) : Splits first third := by
  obtain rfl | ⟨inst, rfl, isStep, rfl⟩ := one
  · exact two
  · obtain rfl | ⟨other, same, ⟨operation, pointer, -, rfl⟩, -⟩ := two
    · exact .inr ⟨inst, rfl, isStep, rfl⟩
    · -- What is split already is not split again.
      obtain ⟨operation, pointer, -, rfl⟩ := isStep
      cases same

/-- Every position of a pair holds a decrement or an increment; the first may be pending. -/
theorem isStep_of_mem_refcountPairs {block : List Inst} {start position : Nat}
    {pending : Option (Nat × Operand)} (member : position ∈ refcountPairs start pending block) :
    (∃ counter, pending = some (position, counter)) ∨
      ∃ index inst, position = start + index ∧ block[index]? = some inst ∧ IsStep inst := by
  induction block generalizing start pending with
  | nil => cases member
  | cons inst rest ih =>
      have here (isStep : IsStep inst) :
          ∃ index found, start = start + index ∧ (inst :: rest)[index]? = some found ∧
            IsStep found := ⟨0, inst, rfl, rfl, isStep⟩
      have later {pending : Option (Nat × Operand)}
          (member : position ∈ refcountPairs (start + 1) pending rest) :
          (∃ counter, pending = some (position, counter)) ∨
            ∃ index found, position = start + index ∧ (inst :: rest)[index]? = some found ∧
              IsStep found := by
        obtain held | ⟨index, found, rfl, here, isStep⟩ := ih member
        · exact .inl held
        · exact .inr ⟨index + 1, found, by omega, here, isStep⟩
      have none_pending (member : position ∈ refcountPairs (start + 1) none rest) :
          (∃ counter, pending = some (position, counter)) ∨
            ∃ index found, position = start + index ∧ (inst :: rest)[index]? = some found ∧
              IsStep found :=
        (later member).imp_left fun ⟨_, absent⟩ => (by cases absent)
      have skipped (member : position ∈
            refcountPairs (start + 1) (if inst.ordersMemory then none else pending) rest) :
          (∃ counter, pending = some (position, counter)) ∨
            ∃ index found, position = start + index ∧ (inst :: rest)[index]? = some found ∧
              IsStep found := by
        split at member
        · exact none_pending member
        · exact later member
      cases inst with
      | atomicRMW operation value pointer split =>
          cases split with
          | true => exact skipped member
          | false =>
              unfold refcountPairs at member
              dsimp only at member
              split at member
              · rename_i decrement
                obtain ⟨rfl, rfl⟩ := decrement
                obtain ⟨counter, same⟩ | found := later member
                · cases same
                  exact .inr (here ⟨.sub, pointer, .inr rfl, rfl⟩)
                · exact .inr found
              · split at member
                · rename_i first counter
                  split at member
                  · rename_i increment
                    obtain ⟨rfl, rfl, rfl⟩ := increment
                    obtain rfl | rfl | rest := by simpa using member
                    · exact .inl ⟨pointer, rfl⟩
                    · exact .inr (here ⟨.add, pointer, .inl rfl, rfl⟩)
                    · exact none_pending rest
                  · exact none_pending member
                · exact none_pending member
      | alloca | gep | load | store | call | phi | select | ordering | other => exact skipped member

theorem splits_eliminateInBlock (block : List Inst) (position : Nat) :
    Splits block[position]? (eliminateInBlock block)[position]? := by
  rw [eliminateInBlock, List.getElem?_mapIdx]
  cases here : block[position]? with
  | none => exact .inl rfl
  | some inst =>
      rw [Option.map_some]
      split
      · rename_i listed
        obtain ⟨counter, none⟩ | ⟨index, found, same, there, isStep⟩ :=
          isStep_of_mem_refcountPairs (List.contains_iff_mem.mp listed)
        · cases none
        · rw [Nat.zero_add] at same
          subst same
          cases here.symm.trans there
          exact .inr ⟨inst, rfl, isStep, rfl⟩
      · exact .inl rfl

/-- A module in which some decrements and increments of another are split. -/
def SplitsIn (before after : Module) : Prop := ∀ place, Splits (inst? before place) (inst? after place)

theorem SplitsIn.share {module : Module} {progress : Progress}
    (splits : SplitsIn module progress.module) (symbols : SymbolTable)
    (matched : List (Name × FunctionId)) (id : FunctionId) :
    SplitsIn module (progress.share symbols matched id).module := by
  rintro ⟨other, block, position⟩
  refine (splits _).trans ?_
  have changed : (progress.share symbols matched id).module.function =
      Function.update progress.module.function id
        (eliminateBatchRefcount (progress.module.function id)).1 := rfl
  simp only [inst?, changed]
  by_cases same : other = id
  · rw [same, Function.update_self, eliminateBatchRefcount, List.getElem?_map]
    cases (progress.module.function id).blocks[block]? with
    | none => exact .inl rfl
    | some insts => exact splits_eliminateInBlock insts position
  · rw [Function.update_of_ne same]
    exact .inl rfl

theorem SplitsIn.optimizeSharedPtr {module : Module} {progress : Progress}
    (splits : SplitsIn module progress.module) (symbols : SymbolTable) (mapping : SymbolMapping)
    (matched : List (Name × FunctionId)) (allowed : Option (List FunctionId)) :
    SplitsIn module (optimizeSharedPtr symbols mapping matched allowed progress).module := by
  refine List.foldlRecOn (motive := fun progress : Progress => SplitsIn module progress.module)
    _ _ splits fun progress splits lb _ => ?_
  split
  · refine List.foldlRecOn (motive := fun progress : Progress => SplitsIn module progress.module)
      _ _ splits fun progress splits calledFn _ => ?_
    split
    · exact splits.share symbols matched _
    · exact splits
  · exact splits

theorem splitsIn_run (mapping : SymbolMapping) (matched : List (Name × FunctionId))
    (symbols : SymbolTable) (config : IndirectionConfig) (functionFilter : Option (List Name))
    (module : Module) :
    SplitsIn module (run mapping matched symbols config functionFilter module).module := by
  have same : SplitsIn module module := fun _ => .inl rfl
  unfold run
  dsimp only
  split
  · exact same
  · split
    · refine SplitsIn.optimizeSharedPtr ?_ symbols mapping matched _
      split <;> exact same
    · split <;> exact same

/-! ## Runs -/

section Correct

variable {w : Nat} {Local Cell Choice Thread : Type} (semantics : Semantics w Local Cell Choice)
  {before after : Module}

/-- Threads go the same way, whether an operation is split or not. -/
theorem program_eq (splits : SplitsIn before after) :
    semantics.program after = semantics.program before := by
  have next (here : Local) : Splits (semantics.next before here) (semantics.next after here) := by
    unfold Semantics.next
    cases semantics.place here with
    | none => exact .inl rfl
    | some place => exact splits place
  have update (here : Local) : semantics.update here (semantics.next after here) =
      semantics.update here (semantics.next before here) := by
    obtain same | ⟨inst, found, ⟨operation, pointer, -, rfl⟩, same⟩ := next here
    · rw [same]
    · rw [same, found]
      rfl
  have other (choice : Choice) (here : Local) (memory : Cell → BitVec w) :
      semantics.other choice here memory (semantics.next after here) =
        semantics.other choice here memory (semantics.next before here) := by
    obtain same | ⟨inst, found, ⟨operation, pointer, -, rfl⟩, same⟩ := next here
    · rw [same]
    · rw [same, found]
      rfl
  unfold Semantics.program
  simp only [update, other]

/-- An operation that is split adds or subtracts. -/
theorem injective_of_split (unsplit : ∀ place operation value pointer,
      inst? before place ≠ some (.atomicRMW operation value pointer true))
    (splits : SplitsIn before after) {here : Local}
    {update : SplitUpdates.Update Cell (BitVec w) Local}
    (parts : semantics.split after here = true)
    (updates : (semantics.program after).update here = some update) :
    Function.Injective update.change := by
  simp only [Semantics.program, Semantics.split, Semantics.next] at parts updates
  cases found : semantics.place here with
  | none => simp [found] at parts
  | some place =>
      simp only [found, Option.bind_some] at parts updates
      obtain same | ⟨_, _, ⟨operation, pointer, isStep, rfl⟩, same⟩ := splits place
      · split at parts
        · rename_i operation value pointer split atomic
          subst parts
          exact absurd (same.symm.trans atomic) (unsplit place operation value pointer)
        · cases parts
      · rw [same] at updates
        cases updates
        obtain rfl | rfl := isStep
        · exact add_left_injective (semantics.word here (.constant 1))
        · exact sub_left_injective

variable [DecidableEq Thread] [DecidableEq Cell]

/-- The module behind the pass runs as the module before it as long as every store of a counter finds
the value that was loaded, so also where no counter is written between such a load and its store; a
store that finds another value leaves another counter than the operation would. -/
theorem refcounts_of_runs (mapping : SymbolMapping) (matched : List (Name × FunctionId))
    (symbols : SymbolTable) (config : IndirectionConfig) (functionFilter : Option (List Name))
    (before after : Module) (memory : Cell → BitVec w) (threads : Thread → Local)
    (optimized : (run mapping matched symbols config functionFilter before).module = after)
    (unsplit : ∀ place operation value pointer,
      inst? before place ≠ some (.atomicRMW operation value pointer true)) :
    (∀ state, (machine semantics before memory threads).Reachable Machine.anyStep state ↔
      (machine semantics after memory threads).Reachable
        (SplitUpdates.Fresh (semantics.program after)) state ∧ state.loaded = fun _ => none) ∧
    (∀ state, (machine semantics after memory threads).Reachable
        (SplitUpdates.Undisturbed (semantics.program after) (semantics.split after)) state →
      (machine semantics before memory threads).Reachable Machine.anyStep state.forget) ∧
    ∀ state label next, (machine semantics after memory threads).Reachable Machine.anyStep state →
      (machine semantics after memory threads).step state label = some next →
        ¬ SplitUpdates.Fresh (semantics.program after) state label →
          ∃ update, (semantics.program before).update (state.threads label.1) = some update ∧
            next.memory update.cell ≠ update.change (state.memory update.cell) := by
  have splits : SplitsIn before after :=
    optimized ▸ splitsIn_run mapping matched symbols config functionFilter before
  have same := program_eq semantics splits
  have whole : semantics.split before = SplitUpdates.whole := by
    funext here
    unfold Semantics.split Semantics.next
    cases semantics.place here with
    | none => rfl
    | some place =>
        rw [Option.bind_some]
        split
        · rename_i operation value pointer split atomic
          cases split with
          | false => rfl
          | true => exact absurd atomic (unsplit place operation value pointer)
        · rfl
  rw [machine, machine, whole, ← same]
  refine ⟨fun state => SplitUpdates.reachable_whole_iff, fun state reach => ?_, ?_⟩
  · exact SplitUpdates.forget_reachable (SplitUpdates.fresh_of_undisturbed reach).1
  · intro state label next reach stepped stale
    refine SplitUpdates.memory_ne_of_not_fresh (fun here update parts updates => ?_) reach stepped
      stale
    exact injective_of_split semantics unsplit splits parts updates

end Correct

/-! ## Two threads -/

/-- A thread at each position of a block, with one counter. -/
def positions : Semantics 32 Nat Unit Unit where
  place position := some (0, 0, position)
  cell _ _ := ()
  word _ _ := 1
  exchange _ old := old
  resume position _ := position + 1
  perform _ _ _ _ := none

/-- Release a counter and take it again. -/
def releasing : Module where
  ids := [0]
  function _ :=
    { name := "drop".toList
      isDeclaration := false
      params := []
      blocks := [[.atomicRMW .sub (.constant 1) (.global 0) false,
        .atomicRMW .add (.constant 1) (.global 0) false]] }
  usedByConstants := []

/-- A pipeline with one stage. -/
def dropSymbols : SymbolTable where
  findFunction _ := none
  logicBlocks := [⟨true, some ⟨[("drop".toList, 0)]⟩, ["drop".toList]⟩]

def dropMapping : SymbolMapping := ⟨(∅ : FunctionMap).insert "drop".toList 0, [], []⟩

/-- The module behind the pass. -/
def released : Module := (run dropMapping [] dropSymbols ⟨true, false, true⟩ none releasing).module

/-- Both operations are split, and two threads in turn leave the counter as it was. -/
theorem releasing_kept :
    inst? released (0, 0, 0) = some (.atomicRMW .sub (.constant 1) (.global 0) true) ∧
    inst? released (0, 0, 1) = some (.atomicRMW .add (.constant 1) (.global 0) true) ∧
    ∃ state, (machine positions released (fun _ => 1) (fun _ : Bool => 0)).Reachable
        (SplitUpdates.Fresh (positions.program released)) state ∧
      state.memory () = 1 ∧ state.threads false = 2 ∧ state.threads true = 2 := by
  refine ⟨rfl, rfl, ?_⟩
  have unsplit : ∀ place operation value pointer,
      inst? releasing place ≠ some (.atomicRMW operation value pointer true) := by
    rintro ⟨id, block, position⟩ operation value pointer
    match block, position with
    | 0, 0 | 0, 1 | 0, more + 2 | more + 1, _ => simp [inst?, releasing]
  have runs := refcounts_of_runs positions dropMapping [] dropSymbols ⟨true, false, true⟩ none
    releasing released (fun _ => 1) (fun _ : Bool => 0) rfl unsplit
  obtain ⟨state, run, rest⟩ : ∃ state,
      (machine positions releasing (fun _ => 1) (fun _ : Bool => 0)).exec
          { memory := fun _ => 1, threads := fun _ => 0, loaded := fun _ => none }
          [(false, ()), (true, ()), (false, ()), (true, ())] = some state ∧
        state.memory () = 1 ∧ state.threads false = 2 ∧ state.threads true = 2 :=
    ⟨_, rfl, rfl, rfl, rfl⟩
  exact ⟨state, ((runs.1 state).mp (Machine.reachable_exec _ (.start rfl) run)).1, rest⟩

end Refcount
end Indirection
end TopoLlvm
