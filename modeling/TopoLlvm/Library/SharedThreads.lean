import TopoLlvm.Library.Machine
import Mathlib.Logic.Function.Basic

/-!
# Threads that share a state

Each thread is at a position of its own and steps on a state that all share.  An assertion about the
shared state, one about each thread and one about each pair of threads hold in every run, if a step
keeps what concerns its own thread and does not disturb the others.
-/

namespace TopoLlvm
namespace Library

/-- A shared state, and where each thread is. -/
structure Threads (Thread Shared Phase : Type*) where
  shared : Shared
  phase : Thread → Phase

namespace Threads

variable {Thread Shared Phase Choice : Type*} [DecidableEq Thread]

/-- One thread has made a step. -/
def move (state : Threads Thread Shared Phase) (thread : Thread) (after : Shared × Phase) :
    Threads Thread Shared Phase where
  shared := after.1
  phase := Function.update state.phase thread after.2

@[simp]
theorem shared_move (state : Threads Thread Shared Phase) (thread : Thread)
    (after : Shared × Phase) : (state.move thread after).shared = after.1 := rfl

theorem phase_move_self (state : Threads Thread Shared Phase) (thread : Thread)
    (after : Shared × Phase) : (state.move thread after).phase thread = after.2 :=
  Function.update_self ..

theorem phase_move_of_ne (state : Threads Thread Shared Phase) {thread other : Thread}
    (differs : other ≠ thread) (after : Shared × Phase) :
    (state.move thread after).phase other = state.phase other :=
  Function.update_of_ne differs ..

/-- The machine of a step function of threads, all of which start at one position. -/
def machine (start : Shared → Prop) (idle : Phase)
    (step : Thread → Shared → Phase → Choice → Option (Shared × Phase)) :
    Transition.Machine (Threads Thread Shared Phase) (Thread × Choice) where
  initial state := start state.shared ∧ ∀ thread, state.phase thread = idle
  step state label :=
    (step label.1 state.shared (state.phase label.1) label.2).map (state.move label.1)

/-- What a step must keep: `Holds` of the shared state, `Ok` of its thread, and for every other
thread what is `Ok` of that one and `Apart` of the two. -/
structure Keeps (Holds : Shared → Prop) (Ok : Shared → Thread → Phase → Prop)
    (Apart : Phase → Phase → Prop) (thread : Thread) (shared : Shared) (phase : Phase)
    (after : Shared) (next : Phase) : Prop where
  holds : Holds after
  own : Ok after thread next
  others : ∀ other position, other ≠ thread → Ok shared other position → Apart phase position →
    Ok after other position ∧ Apart next position

variable {start : Shared → Prop} {idle : Phase}
  {step : Thread → Shared → Phase → Choice → Option (Shared × Phase)}
  {Holds : Shared → Prop} {Ok : Shared → Thread → Phase → Prop} {Apart : Phase → Phase → Prop}

/-- What holds of the shared state, of the threads and of the pairs of threads. -/
structure Invariant (Holds : Shared → Prop) (Ok : Shared → Thread → Phase → Prop)
    (Apart : Phase → Phase → Prop) (state : Threads Thread Shared Phase) : Prop where
  holds : Holds state.shared
  thread : ∀ thread, Ok state.shared thread (state.phase thread)
  apart : ∀ one other, one ≠ other → Apart (state.phase one) (state.phase other)

/-- The step of one thread keeps the invariant. -/
theorem Invariant.move {state : Threads Thread Shared Phase} {thread : Thread} {after : Shared}
    {next : Phase} (invariant : Invariant Holds Ok Apart state)
    (symm : ∀ one other, Apart one other → Apart other one)
    (keeps : Keeps Holds Ok Apart thread state.shared (state.phase thread) after next) :
    Invariant Holds Ok Apart (state.move thread (after, next)) where
  holds := keeps.holds
  thread other := by
    by_cases same : other = thread
    · rw [same, phase_move_self]
      exact keeps.own
    · rw [phase_move_of_ne _ same]
      exact (keeps.others other _ same (invariant.thread other)
        (invariant.apart thread other (Ne.symm same))).1
  apart one other differs := by
    have beside (third : Thread) (apart : third ≠ thread) : Apart next (state.phase third) :=
      (keeps.others third _ apart (invariant.thread third)
        (invariant.apart thread third (Ne.symm apart))).2
    by_cases here : one = thread
    · subst here
      rw [phase_move_self, phase_move_of_ne _ (Ne.symm differs)]
      exact beside other (Ne.symm differs)
    · by_cases there : other = thread
      · subst there
        rw [phase_move_self, phase_move_of_ne _ here]
        exact symm _ _ (beside one here)
      · rw [phase_move_of_ne _ here, phase_move_of_ne _ there]
        exact invariant.apart one other differs

/-- An invariant that every step of a thread keeps holds in every run. -/
theorem invariant_of_reachable {guard : Threads Thread Shared Phase → Thread × Choice → Prop}
    (symm : ∀ one other, Apart one other → Apart other one) (apart_idle : Apart idle idle)
    (starts : ∀ shared, start shared → Holds shared ∧ ∀ thread, Ok shared thread idle)
    (keeps : ∀ thread shared phase choice after next, Holds shared → Ok shared thread phase →
      step thread shared phase choice = some (after, next) →
      Keeps Holds Ok Apart thread shared phase after next)
    {state : Threads Thread Shared Phase}
    (reach : (machine start idle step).Reachable guard state) : Invariant Holds Ok Apart state := by
  refine reach.invariant ?_ ?_
  · rintro state ⟨initial, all_idle⟩
    obtain ⟨holds, ok⟩ := starts state.shared initial
    refine ⟨holds, fun thread => ?_, fun one other _ => ?_⟩
    · rw [all_idle]
      exact ok thread
    · rw [all_idle, all_idle]
      exact apart_idle
  · rintro before ⟨thread, choice⟩ after - invariant - stepped
    obtain ⟨⟨shared, next⟩, own_step, rfl⟩ := Option.map_eq_some_iff.mp stepped
    exact invariant.move symm
      (keeps thread before.shared (before.phase thread) choice shared next invariant.holds
        (invariant.thread thread) own_step)

end Threads
end Library
end TopoLlvm
