import TopoLlvm.Library.Machine
import Mathlib.Logic.Function.Basic

/-!
# Updates in two steps

Threads share cells.  An update of a cell is one step, or where it is split a load and later a store
of what the update makes of the value loaded.  Runs in which every store finds the value that was
loaded reach what runs with updates in one step reach.
-/

namespace SplitUpdates

open Transition (Machine)

/-- An update of a cell, with where the thread goes on from the value that it found. -/
structure Update (Cell Word Local : Type*) where
  cell : Cell
  change : Word → Word
  resume : Word → Local

structure Program (Cell Word Local Choice : Type*) where
  update : Local → Option (Update Cell Word Local)
  /-- What a thread does where it does not update. -/
  other : Choice → Local → (Cell → Word) → Option (Local × (Cell → Word))

structure State (Thread Cell Word Local : Type*) where
  memory : Cell → Word
  threads : Thread → Local
  /-- Between the load and the store of an update. -/
  loaded : Thread → Option Word

variable {Thread Cell Word Local Choice : Type*}

section Step

variable [DecidableEq Thread] [DecidableEq Cell]

namespace State

variable (state : State Thread Cell Word Local) (thread : Thread)

def load (update : Update Cell Word Local) : State Thread Cell Word Local :=
  { state with loaded := Function.update state.loaded thread (some (state.memory update.cell)) }

def store (update : Update Cell Word Local) (old : Word) : State Thread Cell Word Local where
  memory := Function.update state.memory update.cell (update.change old)
  threads := Function.update state.threads thread (update.resume old)
  loaded := Function.update state.loaded thread none

def forget : State Thread Cell Word Local := { state with loaded := fun _ => none }

omit [DecidableEq Cell] in
@[simp] theorem loaded_load (update : Update Cell Word Local) :
    (state.load thread update).loaded thread = some (state.memory update.cell) :=
  Function.update_self ..

@[simp] theorem loaded_store (update : Update Cell Word Local) (old : Word) :
    (state.store thread update old).loaded thread = none := Function.update_self ..

@[simp] theorem memory_store (update : Update Cell Word Local) (old : Word) :
    (state.store thread update old).memory update.cell = update.change old :=
  Function.update_self ..

theorem forget_store (update : Update Cell Word Local) (old : Word) :
    (state.store thread update old).forget = state.forget.store thread update old := by
  simp [store, forget]

end State

variable (program : Program Cell Word Local Choice) (split : Local → Bool)

def step (state : State Thread Cell Word Local) (label : Thread × Choice) :
    Option (State Thread Cell Word Local) :=
  match program.update (state.threads label.1) with
  | some update =>
      match state.loaded label.1 with
      | some old => some (state.store label.1 update old)
      | none =>
          if split (state.threads label.1) then some (state.load label.1 update)
          else some (state.store label.1 update (state.memory update.cell))
  | none =>
      (program.other label.2 (state.threads label.1) state.memory).map fun (next, memory) =>
        { state with memory, threads := Function.update state.threads label.1 next }

/-- The runs from a memory and from where the threads are. -/
def machine (memory : Cell → Word) (threads : Thread → Local) :
    Machine (State Thread Cell Word Local) (Thread × Choice) where
  initial state := state = { memory, threads, loaded := fun _ => none }
  step := step program split

/-- A store finds the value that was loaded. -/
def Fresh (state : State Thread Cell Word Local) (label : Thread × Choice) : Prop :=
  ∀ update old, program.update (state.threads label.1) = some update →
    state.loaded label.1 = some old → state.memory update.cell = old

variable {program split} {memory : Cell → Word} {threads : Thread → Local}
  {state next : State Thread Cell Word Local} {label : Thread × Choice}

/-- What a step does: a load, a store, an update in one step, or something else. -/
theorem step_cases (stepped : step program split state label = some next) :
    (∃ update, program.update (state.threads label.1) = some update ∧
      ((state.loaded label.1 = none ∧ split (state.threads label.1) = true ∧
          next = state.load label.1 update) ∨
        (∃ old, state.loaded label.1 = some old ∧ next = state.store label.1 update old) ∨
        (state.loaded label.1 = none ∧ split (state.threads label.1) = false ∧
          next = state.store label.1 update (state.memory update.cell)))) ∨
    (program.update (state.threads label.1) = none ∧ ∃ further memory,
      program.other label.2 (state.threads label.1) state.memory = some (further, memory) ∧
      next = { state with
        memory, threads := Function.update state.threads label.1 further }) := by
  rw [step] at stepped
  cases here : program.update (state.threads label.1) with
  | none =>
      rw [here] at stepped
      obtain ⟨⟨further, memory⟩, other, rfl⟩ := Option.map_eq_some_iff.mp stepped
      exact .inr ⟨rfl, further, memory, other, rfl⟩
  | some update =>
      rw [here] at stepped
      refine .inl ⟨update, rfl, ?_⟩
      cases loaded : state.loaded label.1 with
      | some old =>
          rw [loaded] at stepped
          cases stepped
          exact .inr (.inl ⟨old, rfl, rfl⟩)
      | none =>
          rw [loaded] at stepped
          cases parts : split (state.threads label.1) with
          | true =>
              simp only [parts, if_true, Option.some.injEq] at stepped
              exact .inl ⟨rfl, rfl, stepped.symm⟩
          | false =>
              simp only [parts, Bool.false_eq_true, if_false, Option.some.injEq] at stepped
              exact .inr (.inr ⟨rfl, rfl, stepped.symm⟩)

/-- A step leaves the other threads where they are. -/
theorem step_other (stepped : step program split state label = some next) {thread : Thread}
    (apart : thread ≠ label.1) :
    next.threads thread = state.threads thread ∧ next.loaded thread = state.loaded thread := by
  obtain ⟨update, _, ⟨_, _, rfl⟩ | ⟨_, _, rfl⟩ | ⟨_, _, rfl⟩⟩ | ⟨_, _, _, _, rfl⟩ :=
    step_cases stepped
  · exact ⟨rfl, Function.update_of_ne apart ..⟩
  · exact ⟨Function.update_of_ne apart .., Function.update_of_ne apart ..⟩
  · exact ⟨Function.update_of_ne apart .., Function.update_of_ne apart ..⟩
  · exact ⟨Function.update_of_ne apart .., rfl⟩

/-! ## In one step -/

/-- No update is split. -/
def whole (_ : Local) : Bool := false

theorem loaded_of_whole
    (reach : (machine program whole memory threads).Reachable Machine.anyStep state) :
    state.loaded = fun _ => none := by
  induction reach with
  | start initial => rw [initial]
  | next _ _ stepped ih =>
      obtain ⟨update, _, ⟨_, split, _⟩ | ⟨_, _, rfl⟩ | ⟨_, _, rfl⟩⟩ | ⟨_, _, _, _, rfl⟩ :=
        step_cases stepped
      · cases split
      · simp [State.store, ih]
      · simp [State.store, ih]
      · exact ih

/-- An update in one step, where nothing is loaded. -/
theorem step_whole {update : Update Cell Word Local}
    (here : program.update (state.threads label.1) = some update)
    (unloaded : state.loaded label.1 = none) :
    step program whole state label =
      some (state.store label.1 update (state.memory update.cell)) := by
  simp [step, here, unloaded, whole]

/-- What runs with fresh stores reach is reached with updates in one step. -/
theorem forget_reachable
    (reach : (machine program split memory threads).Reachable (Fresh program) state) :
    (machine program whole memory threads).Reachable Machine.anyStep state.forget := by
  induction reach with
  | start initial => exact .start (by rw [initial]; rfl)
  | @next before after label _ fresh stepped ih =>
      obtain ⟨update, here, ⟨_, _, rfl⟩ | ⟨old, loaded, rfl⟩ | ⟨_, _, rfl⟩⟩ |
        ⟨absent, further, memory, other, rfl⟩ := step_cases stepped
      · exact ih
      · have same : before.forget.memory update.cell = old := fresh update old here loaded
        have one : step program whole before.forget label = _ := step_whole here rfl
        rw [same, ← State.forget_store] at one
        exact ih.next trivial one
      · have one : step program whole before.forget label = _ := step_whole here rfl
        rw [← State.forget_store] at one
        exact ih.next trivial one
      · have one : step program whole before.forget label = some (State.forget
            { before with memory, threads := Function.update before.threads label.1 further }) := by
          simp only [step, State.forget, absent, other, Option.map_some]
        exact ih.next trivial one

/-- Every run with updates in one step is a run with fresh stores. -/
theorem reachable_of_whole
    (reach : (machine program whole memory threads).Reachable Machine.anyStep state) :
    (machine program split memory threads).Reachable (Fresh program) state := by
  induction reach with
  | start initial => exact .start initial
  | @next before after label earlier _ stepped ih =>
      have unloaded : before.loaded = fun _ => none := loaded_of_whole earlier
      have none_loaded : before.loaded label.1 = none := congrFun unloaded label.1
      have fresh : Fresh program before label := by
        intro update old _ loaded
        cases none_loaded.symm.trans loaded
      obtain ⟨update, here, ⟨_, whole, _⟩ | ⟨old, loaded, _⟩ | ⟨_, _, rfl⟩⟩ |
        ⟨absent, further, memory, other, rfl⟩ := step_cases stepped
      · cases whole
      · cases none_loaded.symm.trans loaded
      · cases parts : split (before.threads label.1) with
        | false =>
            refine ih.next fresh ?_
            simp [machine, step, here, none_loaded, parts]
        | true =>
            have first : step program split before label = some (before.load label.1 update) := by
              simp [step, here, none_loaded, parts]
            have again : program.update ((before.load label.1 update).threads label.1) =
                some update := here
            have still : Fresh program (before.load label.1 update) label := by
              intro other old found loaded
              cases again.symm.trans found
              exact Option.some.inj ((before.loaded_load label.1 update).symm.trans loaded)
            refine (ih.next fresh first).next still ?_
            simp only [machine, step, again, State.loaded_load]
            simp [State.load, State.store]
      · refine ih.next fresh ?_
        simp only [machine, step, absent, other, Option.map_some]

/-- Runs with updates in one step and runs with fresh stores reach the same, where no update is
between its load and its store. -/
theorem reachable_whole_iff :
    (machine program whole memory threads).Reachable Machine.anyStep state ↔
      (machine program split memory threads).Reachable (Fresh program) state ∧
        state.loaded = fun _ => none := by
  refine ⟨fun reach => ⟨reachable_of_whole reach, loaded_of_whole reach⟩, ?_⟩
  rintro ⟨reach, unloaded⟩
  have forgotten := forget_reachable reach
  rwa [State.forget, ← unloaded] at forgotten

/-- No step writes a cell that another thread has loaded and not stored yet. -/
def Undisturbed (program : Program Cell Word Local Choice) (split : Local → Bool)
    (state : State Thread Cell Word Local) (label : Thread × Choice) : Prop :=
  ∀ next, step program split state label = some next → ∀ thread ≠ label.1, ∀ update,
    program.update (state.threads thread) = some update → state.loaded thread ≠ none →
      next.memory update.cell = state.memory update.cell

/-- Only a split update is ever between its load and its store. -/
theorem split_of_loaded
    (reach : (machine program split memory threads).Reachable Machine.anyStep state) :
    ∀ thread old, state.loaded thread = some old →
      split (state.threads thread) = true ∧
        (program.update (state.threads thread)).isSome = true := by
  induction reach with
  | start initial =>
      intro thread old loaded
      rw [initial] at loaded
      cases loaded
  | @next before after label _ _ stepped ih =>
      intro thread old loaded
      by_cases apart : thread ≠ label.1
      · obtain ⟨there, held⟩ := step_other stepped apart
        rw [there]
        exact ih thread old (held ▸ loaded)
      · obtain rfl := not_not.mp apart
        obtain ⟨update, here, ⟨_, parts, rfl⟩ | ⟨_, _, rfl⟩ | ⟨_, _, rfl⟩⟩ |
          ⟨absent, further, memory, other, rfl⟩ := step_cases stepped
        · exact ⟨parts, Option.isSome_iff_exists.mpr ⟨update, here⟩⟩
        · cases (before.loaded_store label.1 update _).symm.trans loaded
        · cases (before.loaded_store label.1 update _).symm.trans loaded
        · have held := (ih label.1 old loaded).2
          rw [absent] at held
          cases held

/-- Undisturbed, every store finds the value that was loaded. -/
theorem fresh_of_undisturbed
    (reach : (machine program split memory threads).Reachable (Undisturbed program split) state) :
    (machine program split memory threads).Reachable (Fresh program) state ∧
      ∀ thread update old, program.update (state.threads thread) = some update →
        state.loaded thread = some old → state.memory update.cell = old := by
  induction reach with
  | start initial =>
      refine ⟨.start initial, fun thread update old _ loaded => ?_⟩
      rw [initial] at loaded
      cases loaded
  | @next before after label _ undisturbed stepped ih =>
      obtain ⟨reach, kept⟩ := ih
      refine ⟨reach.next (kept label.1) stepped, fun thread update old here loaded => ?_⟩
      by_cases apart : thread ≠ label.1
      · obtain ⟨there, held⟩ := step_other stepped apart
        rw [there] at here
        rw [held] at loaded
        rw [undisturbed after stepped thread apart update here fun none => by
          cases loaded.symm.trans none]
        exact kept thread update old here loaded
      · obtain rfl := not_not.mp apart
        obtain ⟨one, found, ⟨_, _, rfl⟩ | ⟨_, _, rfl⟩ | ⟨_, _, rfl⟩⟩ |
          ⟨absent, further, memory, other, rfl⟩ := step_cases stepped
        · cases found.symm.trans here
          exact Option.some.inj ((before.loaded_load label.1 update).symm.trans loaded)
        · cases (before.loaded_store label.1 one _).symm.trans loaded
        · cases (before.loaded_store label.1 one _).symm.trans loaded
        · have held := (split_of_loaded reach.free label.1 old loaded).2
          rw [absent] at held
          cases held

/-- A store that finds another value than was loaded leaves something else than the update would. -/
theorem memory_ne_of_not_fresh
    (injective : ∀ place update, split place = true → program.update place = some update →
      Function.Injective update.change)
    (reach : (machine program split memory threads).Reachable Machine.anyStep state)
    (stepped : step program split state label = some next) (stale : ¬ Fresh program state label) :
    ∃ update, program.update (state.threads label.1) = some update ∧
      next.memory update.cell ≠ update.change (state.memory update.cell) := by
  simp only [Fresh, not_forall] at stale
  obtain ⟨update, old, here, loaded, differs⟩ := stale
  refine ⟨update, here, fun same => ?_⟩
  obtain ⟨other, again, ⟨none, _, _⟩ | ⟨found, held, rfl⟩ | ⟨none, _, _⟩⟩ | ⟨absent, _⟩ :=
    step_cases stepped
  · cases loaded.symm.trans none
  · cases here.symm.trans again
    cases loaded.symm.trans held
    rw [State.memory_store] at same
    have parts := (split_of_loaded reach label.1 old loaded).1
    exact differs (injective _ update parts here same).symm
  · cases loaded.symm.trans none
  · cases absent.symm.trans here

end Step

end SplitUpdates
