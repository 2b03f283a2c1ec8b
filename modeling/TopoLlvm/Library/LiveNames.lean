import Mathlib.Data.List.Basic

/-!
# Live names

Steps read names, make calls and assign.  A list of steps runs alike from two environments that
agree on its live names: what the steps or those behind them read before it is assigned anew.
-/

namespace LiveNames

variable {Name Value Call : Type*}

/-- Where control goes after a step: on, out into what surrounds the list, or away for good. -/
inductive Flow where
  | next
  | leave
  | finish
  deriving DecidableEq

structure Effect (Name Value Call : Type*) where
  calls : List Call
  writes : Name → Option Value
  flow : Flow

/-- A step; its effect depends on what it reads. -/
structure Step (Name Value Call : Type*) where
  reads : List Name
  /-- What it assigns in any case. -/
  sets : List Name
  /-- Whether it may leave the list. -/
  leaves : Bool
  effect : (Name → Value) → Effect Name Value Call
  depends : ∀ env other, (∀ name ∈ reads, env name = other name) → effect env = effect other
  assigns : ∀ env, ∀ name ∈ sets, ((effect env).writes name).isSome
  declares : ∀ env, (effect env).flow = .leave → leaves = true

/-- What a run leaves behind. -/
structure Outcome (Name Value Call : Type*) where
  env : Name → Value
  calls : List Call
  flow : Flow

def Effect.update (effect : Effect Name Value Call) (env : Name → Value) (name : Name) : Value :=
  (effect.writes name).getD (env name)

def run : List (Step Name Value Call) → (Name → Value) → Outcome Name Value Call
  | [], env => ⟨env, [], .next⟩
  | step :: steps, env =>
      let effect := step.effect env
      if effect.flow = .next then
        let rest := run steps (effect.update env)
        { rest with calls := effect.calls ++ rest.calls }
      else ⟨effect.update env, effect.calls, effect.flow⟩

def AgreeOn (names : List Name) (env other : Name → Value) : Prop :=
  ∀ name ∈ names, env name = other name

/-- The same calls, and the same values of what is read afterwards. -/
structure Outcome.Alike (after : List Name) (left right : Outcome Name Value Call) : Prop where
  calls : left.calls = right.calls
  flow : left.flow = right.flow
  env : left.flow ≠ .finish → AgreeOn after left.env right.env

variable [DecidableEq Name]

/-- The names whose values matter in front of the steps, where `after` is read behind them. -/
def live (after : List Name) : List (Step Name Value Call) → List Name
  | [] => after
  | step :: steps =>
      step.reads ++ (if step.leaves then after else []) ++
        (live after steps).filter (· ∉ step.sets)

variable {after : List Name} {step : Step Name Value Call} {steps : List (Step Name Value Call)}
  {env other : Name → Value} {name : Name}

theorem mem_live_cons :
    name ∈ live after (step :: steps) ↔ name ∈ step.reads ∨ step.leaves = true ∧ name ∈ after ∨
      name ∈ live after steps ∧ name ∉ step.sets := by
  change name ∈ step.reads ++ (if step.leaves then after else []) ++
    (live after steps).filter (· ∉ step.sets) ↔ _
  cases step.leaves <;> simp

/-- A step has the same effect in environments that agree on what is live. -/
theorem AgreeOn.effect_eq (agree : AgreeOn (live after (step :: steps)) env other) :
    step.effect env = step.effect other :=
  step.depends _ _ fun name read => agree name (mem_live_cons.mpr (.inl read))

theorem AgreeOn.update (agree : AgreeOn (live after (step :: steps)) env other) :
    AgreeOn (live after steps) ((step.effect env).update env)
      ((step.effect other).update other) := by
  intro name later
  rw [agree.effect_eq]
  unfold Effect.update
  by_cases set : name ∈ step.sets
  · obtain ⟨value, written⟩ := Option.isSome_iff_exists.mp (step.assigns other name set)
    rw [written]
    rfl
  · rw [agree name (mem_live_cons.mpr (.inr (.inr ⟨later, set⟩)))]

/-- Two lists run alike where their first steps do the same and the others run alike. -/
theorem Outcome.Alike.cons {rest others : List (Step Name Value Call)}
    (agree : AgreeOn (live after (step :: steps)) env other)
    (onwards : Outcome.Alike after (run rest ((step.effect env).update env))
      (run others ((step.effect other).update other))) :
    Outcome.Alike after (run (step :: rest) env) (run (step :: others) other) := by
  have same := agree.effect_eq
  unfold run
  rw [← same] at onwards ⊢
  by_cases goesOn : (step.effect env).flow = .next
  · simp only [goesOn, if_true]
    exact ⟨congrArg ((step.effect env).calls ++ ·) onwards.calls, onwards.flow, onwards.env⟩
  · simp only [goesOn, if_false]
    refine ⟨rfl, rfl, fun left name member => ?_⟩
    have leave : (step.effect env).flow = .leave := by
      cases flow : (step.effect env).flow with
      | next => exact absurd flow goesOn
      | leave => rfl
      | finish => exact absurd flow left
    have read := agree name (mem_live_cons.mpr (.inr (.inl ⟨step.declares env leave, member⟩)))
    change ((step.effect env).writes name).getD (env name) =
      ((step.effect env).writes name).getD (other name)
    rw [read]

/-- Runs from environments that agree on the live names are alike. -/
theorem run_alike (agree : AgreeOn (live after steps) env other) :
    Outcome.Alike after (run steps env) (run steps other) := by
  induction steps generalizing env other with
  | nil => exact ⟨rfl, rfl, fun _ => agree⟩
  | cons step steps ih => exact .cons agree (ih agree.update)

end LiveNames
