import Mathlib.Logic.Relation

/-!
# Guarded runs of labelled machines

A `Machine` is a partial step function whose labels resolve every choice of a scheduler and of an
environment.  `Machine.Reachable` collects the states of runs all of whose steps meet a guard, and
`Machine.Reachable.invariant` is the one induction over runs; a `Simulation` transports
reachability from a detailed machine to a coarser one.
-/

namespace Transition

/-- A machine whose labels resolve every choice of a run. -/
structure Machine (State Label : Type*) where
  /-- States a run may start from. -/
  initial : State → Prop
  /-- The successor under a label, or `none` where the label is not enabled. -/
  step : State → Label → Option State

namespace Machine

variable {State Label : Type*} {machine : Machine State Label}

/-- Perform a sequence of labels, failing at the first one that is not enabled. -/
def exec (machine : Machine State Label) : State → List Label → Option State
  | state, [] => some state
  | state, label :: labels => machine.step state label >>= fun next => machine.exec next labels

/-- The guard that allows every step. -/
def anyStep (_ : State) (_ : Label) : Prop := True

/-- States of the runs whose steps all meet `guard` in the state before the step. -/
inductive Reachable (machine : Machine State Label) (guard : State → Label → Prop) : State → Prop
  | start {state : State} : machine.initial state → Reachable machine guard state
  | next {before after : State} {label : Label} :
      Reachable machine guard before → guard before label →
      machine.step before label = some after → Reachable machine guard after

namespace Reachable

/-- A predicate that holds initially and is kept by every guarded step holds in every run. -/
theorem invariant {guard : State → Label → Prop} {inv : State → Prop}
    (base : ∀ state, machine.initial state → inv state)
    (keep : ∀ before label after, Reachable machine guard before → inv before →
      guard before label → machine.step before label = some after → inv after)
    {state : State} (reach : Reachable machine guard state) : inv state := by
  induction reach with
  | start initial => exact base _ initial
  | next before allowed step ih => exact keep _ _ _ before ih allowed step

/-- A weaker guard admits more runs. -/
theorem mono {strong weak : State → Label → Prop}
    (weaken : ∀ state label, strong state label → weak state label)
    {state : State} (reach : Reachable machine strong state) : Reachable machine weak state := by
  induction reach with
  | start initial => exact .start initial
  | next _ allowed step ih => exact .next ih (weaken _ _ allowed) step

/-- Every guarded run is a run. -/
theorem free {guard : State → Label → Prop} {state : State}
    (reach : Reachable machine guard state) : Reachable machine anyStep state :=
  reach.mono fun _ _ _ => trivial

/-- A step of a machine without choices. -/
theorem tick {machine : Machine State Unit} {guard : State → Unit → Prop} {before after : State}
    (reach : Reachable machine guard before) (allowed : guard before ())
    (step : machine.step before () = some after) : Reachable machine guard after :=
  reach.next allowed step

end Reachable

/-- Executing enabled labels from a reachable state stays reachable. -/
theorem reachable_exec {before after : State} (labels : List Label)
    (reach : Reachable machine anyStep before)
    (run : machine.exec before labels = some after) : Reachable machine anyStep after := by
  induction labels generalizing before with
  | nil =>
      obtain rfl : before = after := by simpa [exec] using run
      exact reach
  | cons label labels ih =>
      obtain ⟨next, step, rest⟩ := Option.bind_eq_some_iff.mp run
      exact ih (.next reach trivial step) rest

/-- A run computed from an initial state shows that a decidable property is reachable. -/
theorem exists_reachable (machine : Machine State Label) {start : State} (property : State → Prop)
    [DecidablePred property] (labels : List Label) (initial : machine.initial start)
    (ends : (machine.exec start labels).any (fun state => property state) = true) :
    ∃ state, Reachable machine anyStep state ∧ property state := by
  obtain ⟨state, run, holds⟩ := (Option.any_eq_true ..).mp ends
  exact ⟨state, reachable_exec labels (.start initial) run, of_decide_eq_true holds⟩

/-- The machine that takes only the steps a guard allows. -/
def restrict (machine : Machine State Label) (guard : State → Label → Prop)
    [∀ state label, Decidable (guard state label)] : Machine State Label where
  initial := machine.initial
  step state label := if guard state label then machine.step state label else none

/-- A run of the restricted machine is a guarded run. -/
theorem Reachable.of_restrict {guard : State → Label → Prop}
    [∀ state label, Decidable (guard state label)] {state : State}
    (reach : Reachable (machine.restrict guard) anyStep state) : Reachable machine guard state := by
  induction reach with
  | start initial => exact .start initial
  | next _ _ step ih =>
      simp only [restrict] at step
      split at step
      · rename_i allowed
        exact .next ih allowed step
      · cases step

end Machine

/-- A state map under which every detailed step is a coarse step or changes nothing. -/
structure Simulation {Fine FineLabel Coarse CoarseLabel : Type*}
    (fine : Machine Fine FineLabel) (coarse : Machine Coarse CoarseLabel) where
  /-- The coarse state a detailed state stands for. -/
  view : Fine → Coarse
  /-- Detailed runs start where coarse runs start. -/
  initial : ∀ state, fine.initial state → coarse.initial (view state)
  /-- A detailed step of a run is matched by one coarse step or by none. -/
  step : ∀ before label after, fine.Reachable Machine.anyStep before →
    fine.step before label = some after →
    view after = view before ∨
      ∃ action, coarse.step (view before) action = some (view after)

/-- A simulation carries detailed runs to coarse runs. -/
theorem Simulation.reachable {Fine FineLabel Coarse CoarseLabel : Type*}
    {fine : Machine Fine FineLabel} {coarse : Machine Coarse CoarseLabel}
    (simulation : Simulation fine coarse) {guard : Fine → FineLabel → Prop} {state : Fine}
    (reach : fine.Reachable guard state) :
    coarse.Reachable Machine.anyStep (simulation.view state) := by
  induction reach with
  | start initial => exact .start (simulation.initial _ initial)
  | next before _ step ih =>
      rcases simulation.step _ _ _ before.free step with same | ⟨action, matched⟩
      · rwa [same]
      · exact .next ih trivial matched

end Transition
