import Mathlib.Data.List.Nodup
import Mathlib.Data.List.Perm.Basic
import Mathlib.Data.Set.BooleanAlgebra
import Mathlib.Order.Disjoint
import Mathlib.Data.Set.Disjoint
import Mathlib.Order.CompletePartialOrder

/-!
# Actions in another order

An action reads some locations and may write others.  Programs that perform the same actions end
in the same state if all actions that are not independent keep their order.
-/

namespace Reorder

variable {Location Value : Type*}

/-- An action; what it writes depends on what it reads. -/
structure Action (Location Value : Type*) where
  reads : Set Location
  writes : Set Location
  update : (Location → Value) → Location → Option Value
  frame : ∀ state, ∀ location ∉ writes, update state location = none
  depends : ∀ state other, (∀ location ∈ reads, state location = other location) →
    update state = update other

namespace Action

variable (action other : Action Location Value)

def run (state : Location → Value) (location : Location) : Value :=
  (action.update state location).getD (state location)

/-- Neither action writes what the other reads or writes. -/
structure Independent : Prop where
  writes : Disjoint action.writes other.writes
  reads : Disjoint action.writes other.reads
  read : Disjoint other.writes action.reads

variable {action other}

theorem run_of_not_mem {state : Location → Value} {location : Location}
    (outside : location ∉ action.writes) : action.run state location = state location := by
  rw [run, action.frame state location outside, Option.getD_none]

/-- An action does not see an independent one. -/
theorem update_run (apart : Disjoint other.writes action.reads) (state : Location → Value) :
    action.update (other.run state) = action.update state :=
  action.depends _ _ fun _ read => run_of_not_mem fun written =>
    Set.disjoint_left.mp apart written read

theorem Independent.symm (independent : action.Independent other) : other.Independent action :=
  ⟨independent.writes.symm, independent.read, independent.reads⟩

theorem Independent.commute (independent : action.Independent other) (state : Location → Value) :
    action.run (other.run state) = other.run (action.run state) := by
  funext location
  by_cases written : location ∈ action.writes
  · have unwritten : location ∉ other.writes := Set.disjoint_left.mp independent.writes written
    rw [run_of_not_mem unwritten, run, update_run independent.read, run_of_not_mem unwritten]
    rfl
  · rw [run_of_not_mem written, run, run, update_run independent.reads,
      run_of_not_mem written]

end Action

variable {Name : Type*} (action : Name → Action Location Value)

/-- Perform the named actions in order. -/
def runAll (names : List Name) (state : Location → Value) : Location → Value :=
  names.foldl (fun state name => (action name).run state) state

/-- The first name comes before the second. -/
def Before (names : List Name) (first second : Name) : Prop := [first, second].Sublist names

variable {action} {names others : List Name}

/-- In the middle of a list: what comes before and after. -/
theorem Before.mem_left {front back : List Name} {name other : Name}
    (before : Before (front ++ name :: back) other name)
    (nodup : (front ++ name :: back).Nodup) : other ∈ front := by
  have fresh := (List.nodup_cons.mp (List.nodup_append.mp nodup).2.1).1
  obtain ⟨start, rest, whole, left, right⟩ := List.sublist_append_iff.mp before
  cases start with
  | cons head start =>
      obtain ⟨rfl, -⟩ := List.cons.inj whole
      exact left.subset List.mem_cons_self
  | nil =>
      subst whole
      -- The name would come twice.
      rcases List.sublist_cons_iff.mp right with later | ⟨rest, same, later⟩
      · exact absurd (later.subset (by simp)) fresh
      · obtain ⟨rfl, rfl⟩ := List.cons.inj same
        exact absurd (later.subset List.mem_cons_self) fresh

theorem Before.mem_right {front back : List Name} {name other : Name}
    (before : Before (front ++ name :: back) name other)
    (nodup : (front ++ name :: back).Nodup) : other ∈ back := by
  have fresh : name ∉ front := fun member =>
    (List.nodup_append.mp nodup).2.2 name member name List.mem_cons_self rfl
  obtain ⟨start, rest, whole, left, right⟩ := List.sublist_append_iff.mp before
  cases start with
  | cons head start =>
      obtain ⟨rfl, -⟩ := List.cons.inj whole
      exact absurd (left.subset List.mem_cons_self) fresh
  | nil =>
      subst whole
      exact (List.cons_sublist_cons.mp right).subset List.mem_cons_self

theorem Before.asymm {first second : Name} (before : Before names first second)
    (nodup : names.Nodup) : ¬ Before names second first := by
  intro behind
  obtain ⟨front, back, rfl⟩ := List.append_of_mem (before.subset List.mem_cons_self)
  have later := before.mem_right nodup
  have earlier := behind.mem_left nodup
  exact (List.nodup_append.mp nodup).2.2 _ earlier _ (List.mem_cons_of_mem _ later) rfl

theorem before_of_mem {front back : List Name} {first second : Name} (left : first ∈ front)
    (right : second ∈ back) : Before (front ++ back) first second :=
  List.Sublist.append (List.singleton_sublist.mpr left) (List.singleton_sublist.mpr right)

theorem Before.mono {first second : Name} (before : Before names first second)
    (inside : names.Sublist others) : Before others first second := List.Sublist.trans before inside

theorem Before.map {Other : Type*} (image : Name → Other) {first second : Name}
    (before : Before names first second) : Before (names.map image) (image first) (image second) :=
  List.Sublist.map image before

theorem Before.trans {first second third : Name} (before : Before names first second)
    (after : Before names second third) (nodup : names.Nodup) : Before names first third := by
  obtain ⟨front, back, rfl⟩ := List.append_of_mem (after.subset List.mem_cons_self)
  exact before_of_mem (before.mem_left nodup) (List.mem_cons_of_mem _ (after.mem_right nodup))

/-- Of two names one comes first. -/
theorem before_or_before {first second : Name} (left : first ∈ names) (right : second ∈ names)
    (other : first ≠ second) : Before names first second ∨ Before names second first := by
  obtain ⟨front, back, rfl⟩ := List.append_of_mem left
  rcases List.mem_append.mp right with early | late
  · exact .inr (before_of_mem early List.mem_cons_self)
  · have late := (List.mem_cons.mp late).resolve_left other.symm
    exact .inl ((List.cons_sublist_cons.mpr (List.singleton_sublist.mpr late)).trans
      (List.sublist_append_right _ _))

/-- Another name between them does not matter. -/
theorem Before.remove {front back : List Name} {name first second : Name}
    (before : Before (front ++ name :: back) first second) (other : first ≠ name)
    (others : second ≠ name) : Before (front ++ back) first second := by
  obtain ⟨start, rest, whole, left, right⟩ := List.sublist_append_iff.mp before
  have absent : name ∉ rest := fun member => by
    have member : name ∈ [first, second] := whole ▸ List.mem_append_right _ member
    simp [other.symm, others.symm] at member
  rw [Before, whole]
  refine left.append ?_
  rcases List.sublist_cons_iff.mp right with later | ⟨rest, rfl, -⟩
  · exact later
  · exact absurd List.mem_cons_self absent

@[simp] theorem runAll_nil (state : Location → Value) : runAll action [] state = state := rfl

@[simp] theorem runAll_cons (name : Name) (names : List Name) (state : Location → Value) :
    runAll action (name :: names) state = runAll action names ((action name).run state) := rfl

theorem runAll_append (names others : List Name) (state : Location → Value) :
    runAll action (names ++ others) state = runAll action others (runAll action names state) :=
  List.foldl_append

/-- An action moves to the front of independent ones. -/
theorem runAll_move {name : Name}
    (independent : ∀ other ∈ names, (action name).Independent (action other))
    (state : Location → Value) :
    (action name).run (runAll action names state) =
      runAll action names ((action name).run state) := by
  induction names generalizing state with
  | nil => rfl
  | cons other names ih =>
      rw [runAll_cons, runAll_cons, ← (independent other List.mem_cons_self).commute]
      exact ih (fun name member => independent name (List.mem_cons_of_mem _ member)) _

/-- Programs of the same actions agree if what is not independent keeps its order. -/
theorem runAll_perm (perm : names.Perm others) (nodup : names.Nodup)
    (keeps : ∀ first second, Before names first second →
      ¬ (action first).Independent (action second) → Before others first second)
    (state : Location → Value) : runAll action names state = runAll action others state := by
  induction names generalizing others state with
  | nil => rw [perm.nil_eq]
  | cons name names ih =>
      obtain ⟨fresh, nodup⟩ := List.nodup_cons.mp nodup
      obtain ⟨before, after, rfl⟩ := List.append_of_mem (perm.subset List.mem_cons_self)
      have rest : names.Perm (before ++ after) :=
        List.Perm.cons_inv (perm.trans List.perm_middle)
      have others_nodup := perm.nodup_iff.mp (List.nodup_cons.mpr ⟨fresh, nodup⟩)
      -- What comes before the first action now is independent of it.
      have independent : ∀ other ∈ before, (action name).Independent (action other) := by
        intro other member
        by_contra dependent
        have inside : other ∈ names := rest.mem_iff.mpr (List.mem_append_left _ member)
        have kept := keeps name other
          (List.cons_sublist_cons.mpr (List.singleton_sublist.mpr inside)) dependent
        exact kept.asymm others_nodup (before_of_mem member List.mem_cons_self)
      rw [runAll_cons, runAll_append, runAll_cons, runAll_move independent, ← runAll_append]
      refine ih rest nodup (fun first second order dependent => ?_) _
      have kept := keeps first second (order.cons name) dependent
      have apart {other : Name} (member : other ∈ names) : other ≠ name :=
        fun same => fresh (same ▸ member)
      exact kept.remove (apart (order.subset List.mem_cons_self))
        (apart (order.subset (List.mem_cons_of_mem _ List.mem_cons_self)))

end Reorder
