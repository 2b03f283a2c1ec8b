import Mathlib.Data.Set.Finite.Lattice
import Mathlib.Logic.Relation
import Mathlib.Order.WellFounded

/-!
# Chains of steps

A recursion goes from a state to a next one.  It comes to an end from a state exactly where no cycle
can be reached from there, if only finitely many states can.
-/

namespace Chains

variable {State : Type*} (step : State → State → Prop)

/-- Steps lead to a state that steps lead back to. -/
def ReachesCycle (state : State) : Prop :=
  ∃ turn, Relation.ReflTransGen step state turn ∧ Relation.TransGen step turn turn

variable {step}

/-- No chain of steps that ends goes around. -/
theorem not_cycle_of_acc {state : State}
    (ends : Acc (fun later earlier => step earlier later) state) :
    ¬Relation.TransGen step state state := by
  intro cycle
  induction ends with
  | intro state _ ih =>
      obtain ⟨next, first, rest⟩ := Relation.TransGen.head'_iff.mp cycle
      exact ih next first (Relation.TransGen.tail' rest first)

theorem acc_of_reachable {state other : State}
    (ends : Acc (fun later earlier => step earlier later) state)
    (path : Relation.ReflTransGen step state other) :
    Acc (fun later earlier => step earlier later) other := by
  induction path with
  | refl => exact ends
  | tail _ last ih => exact ih.inv last

/-- The chains from a state end exactly where they do not reach a cycle. -/
theorem acc_iff_not_reachesCycle {state : State}
    (finite : {other | Relation.ReflTransGen step state other}.Finite) :
    Acc (fun later earlier => step earlier later) state ↔ ¬ReachesCycle step state := by
  constructor
  · rintro ends ⟨turn, path, cycle⟩
    exact not_cycle_of_acc (acc_of_reachable ends path) cycle
  · intro acyclic
    let Reachable := {other // Relation.ReflTransGen step state other}
    have : Finite Reachable := finite
    let closure (later earlier : Reachable) : Prop := Relation.TransGen step earlier.1 later.1
    have irreflexive : Std.Irrefl closure :=
      ⟨fun turn cycle => acyclic ⟨turn.1, turn.2, cycle⟩⟩
    have transitive : IsTrans Reachable closure :=
      ⟨fun third second first later earlier => earlier.trans later⟩
    have ends (reached : Reachable) :
        Acc (fun later earlier => step earlier later) reached.1 := by
      induction reached using (Finite.wellFounded_of_trans_of_irrefl closure).induction with
      | _ reached ih =>
          exact ⟨_, fun next taken => ih ⟨next, reached.2.tail taken⟩ (.single taken)⟩
    exact ends ⟨state, .refl⟩

/-- A chain that ends reaches finitely many states, as each has one next state at most. -/
theorem finite_of_acc
    (deterministic : ∀ {state next other}, step state next → step state other → next = other)
    {state : State} (ends : Acc (fun later earlier => step earlier later) state) :
    {other | Relation.ReflTransGen step state other}.Finite := by
  induction ends with
  | intro state _ ih =>
      by_cases goesOn : ∃ next, step state next
      · obtain ⟨next, taken⟩ := goesOn
        refine ((ih next taken).insert state).subset ?_
        intro other path
        rcases Relation.ReflTransGen.cases_head path with rfl | ⟨second, first, rest⟩
        · exact Set.mem_insert _ _
        · rw [← deterministic taken first] at rest
          exact Set.mem_insert_of_mem _ rest
      · refine (Set.finite_singleton state).subset ?_
        intro other path
        rcases Relation.ReflTransGen.cases_head path with rfl | ⟨second, first, _⟩
        · exact Set.mem_singleton _
        · exact absurd ⟨second, first⟩ goesOn

/-- Steps that either stay within finite reach or go to one of finitely many targets reach finitely
many states. -/
theorem finite_reachable {near : State → State → Prop} {targets : Set State}
    (few : targets.Finite)
    (close : ∀ state, {other | Relation.ReflTransGen near state other}.Finite)
    (nearOrTarget : ∀ {state next}, step state next → near state next ∨ next ∈ targets)
    (state : State) : {other | Relation.ReflTransGen step state other}.Finite := by
  let around (turn : State) := {other | Relation.ReflTransGen near turn other}
  refine ((close state).union (few.biUnion (t := around) fun turn _ => close turn)).subset ?_
  intro other path
  induction path with
  | refl => exact .inl .refl
  | tail _ last ih =>
      rcases nearOrTarget last with short | long
      · rcases ih with start | later
        · exact .inl (start.tail short)
        · obtain ⟨turn, target, rest⟩ := Set.mem_iUnion₂.mp later
          exact .inr (Set.mem_iUnion₂.mpr ⟨turn, target, rest.tail short⟩)
      · exact .inr (Set.mem_iUnion₂.mpr ⟨_, long, .refl⟩)

/-- A recursion with fuel, which goes on where there is a next state. -/
structure Recursion (step : State → State → Prop) {Result : Type*}
    (run : Nat → State → Option Result) : Prop where
  deterministic : ∀ {state next other}, step state next → step state other → next = other
  zero : ∀ state, run 0 state = none
  next : ∀ {state next}, step state next → ∀ fuel, run (fuel + 1) state = run fuel next
  last : ∀ {state}, (∀ next, ¬step state next) → ∀ fuel, (run (fuel + 1) state).isSome

/-- Enough fuel gives a result exactly where the chain ends. -/
theorem Recursion.exists_fuel_iff {Result : Type*} {run : Nat → State → Option Result}
    (recursion : Recursion step run) {state : State} :
    (∃ fuel, (run fuel state).isSome) ↔ Acc (fun later earlier => step earlier later) state := by
  constructor
  · rintro ⟨fuel, done⟩
    induction fuel generalizing state with
    | zero =>
        rw [recursion.zero] at done
        cases done
    | succ fuel ih =>
        refine ⟨_, fun next taken => ih ?_⟩
        rwa [recursion.next taken] at done
  · intro ends
    induction ends with
    | intro state _ ih =>
        by_cases goesOn : ∃ next, step state next
        · obtain ⟨next, taken⟩ := goesOn
          obtain ⟨fuel, done⟩ := ih next taken
          exact ⟨fuel + 1, by rwa [recursion.next taken]⟩
        · exact ⟨1, recursion.last (fun next taken => goesOn ⟨next, taken⟩) 0⟩

end Chains
