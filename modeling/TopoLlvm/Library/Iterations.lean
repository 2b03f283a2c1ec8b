import Mathlib.Data.List.Basic

/-!
# Conflicts between iterations

An execution visits places outside a loop, its header and other places inside.  Two visits of one
stay in the loop belong to different iterations if the header is visited after the first.  A gate
that collects what the earlier iterations have accessed finds exactly their conflicts.
-/

namespace Iterations

variable {Cell : Type*}

/-- The cells that something reads and writes. -/
structure Footprint (Cell : Type*) where
  reads : List Cell
  writes : List Cell

namespace Footprint

def none : Footprint Cell := ⟨[], []⟩

def append (first second : Footprint Cell) : Footprint Cell :=
  ⟨first.reads ++ second.reads, first.writes ++ second.writes⟩

/-- Both access a cell and one of them writes it. -/
def Conflict (first second : Footprint Cell) : Prop :=
  (∃ cell ∈ first.writes, cell ∈ second.reads ∨ cell ∈ second.writes) ∨
    ∃ cell ∈ first.reads, cell ∈ second.writes

instance [DecidableEq Cell] (first second : Footprint Cell) : Decidable (first.Conflict second) :=
  inferInstanceAs (Decidable (_ ∨ _))

variable {first second other : Footprint Cell}

@[simp] theorem not_conflict_none : ¬ (none : Footprint Cell).Conflict other := by
  simp [Conflict, none]

@[simp] theorem append_conflict :
    (first.append second).Conflict other ↔ first.Conflict other ∨ second.Conflict other := by
  simp only [Conflict, append, List.mem_append, or_and_right, exists_or]
  exact or_or_or_comm

theorem Conflict.writes (conflict : first.Conflict second) :
    first.writes ≠ [] ∨ second.writes ≠ [] := by
  rcases conflict with ⟨cell, written, -⟩ | ⟨cell, -, written⟩
  · exact .inl (List.ne_nil_of_mem written)
  · exact .inr (List.ne_nil_of_mem written)

end Footprint

/-- Where an execution is with respect to a loop. -/
inductive Place where
  | outside
  | header
  | inside
  deriving DecidableEq

structure Visit (Cell : Type*) where
  place : Place
  footprint : Footprint Cell

/-- Two visits of one stay in the loop conflict although the header is visited in between. -/
def Carried (visits : List (Visit Cell)) : Prop :=
  ∃ before first between second after, visits = before ++ first :: (between ++ second :: after) ∧
    (∀ visit ∈ first :: (between ++ [second]), visit.place ≠ .outside) ∧
    (∃ visit ∈ between ++ [second], visit.place = .header) ∧
    first.footprint.Conflict second.footprint

/-- What the earlier iterations of a stay and the current one have accessed. -/
structure Gate (Cell : Type*) where
  earlier : Footprint Cell
  current : Footprint Cell

namespace Gate

def closed : Gate Cell := ⟨.none, .none⟩

/-- The accesses that a visit must not conflict with. -/
def barred (gate : Gate Cell) : Place → Footprint Cell
  | .outside => .none
  | .header => gate.earlier.append gate.current
  | .inside => gate.earlier

def visit (gate : Gate Cell) (visit : Visit Cell) : Gate Cell :=
  match visit.place with
  | .outside => closed
  | .header => ⟨gate.earlier.append gate.current, visit.footprint⟩
  | .inside => ⟨gate.earlier, gate.current.append visit.footprint⟩

/-- No visit accesses what the earlier iterations of its stay have written, nor writes what they
have read. -/
def Passes (gate : Gate Cell) : List (Visit Cell) → Prop
  | [] => True
  | next :: visits =>
      ¬ (gate.barred next.place).Conflict next.footprint ∧ (gate.visit next).Passes visits

instance instDecidablePasses [DecidableEq Cell] (gate : Gate Cell) :
    (visits : List (Visit Cell)) → Decidable (gate.Passes visits)
  | [] => inferInstanceAs (Decidable True)
  | next :: visits =>
      haveI := instDecidablePasses (gate.visit next) visits
      inferInstanceAs (Decidable (_ ∧ _))

end Gate

/-- The footprint conflicts with a later visit of the stay, from the next iteration on unless that
has begun. -/
def Meets (begun : Prop) (footprint : Footprint Cell) (visits : List (Visit Cell)) : Prop :=
  ∃ between second after, visits = between ++ second :: after ∧
    (∀ visit ∈ between ++ [second], visit.place ≠ .outside) ∧
    (begun ∨ ∃ visit ∈ between ++ [second], visit.place = .header) ∧
    footprint.Conflict second.footprint

variable {begun : Prop} {footprint first second : Footprint Cell} {next : Visit Cell}
  {visits : List (Visit Cell)}

@[simp] theorem not_meets_nil : ¬ Meets begun footprint [] := by
  rintro ⟨between, second, after, split, -⟩
  simp at split

@[simp] theorem not_meets_none : ¬ Meets begun .none visits := by
  rintro ⟨between, second, after, -, -, -, conflict⟩
  exact Footprint.not_conflict_none conflict

theorem meets_append : Meets begun (first.append second) visits ↔
    Meets begun first visits ∨ Meets begun second visits := by
  simp only [Meets, Footprint.append_conflict, and_or_left, exists_or]

theorem meets_cons : Meets begun footprint (next :: visits) ↔
    next.place ≠ .outside ∧
      ((begun ∨ next.place = .header) ∧ footprint.Conflict next.footprint ∨
        Meets (begun ∨ next.place = .header) footprint visits) := by
  constructor
  · rintro ⟨between, second, after, split, stays, crossed, conflict⟩
    cases between with
    | nil =>
        obtain ⟨rfl, rfl⟩ := List.cons.inj split
        simp only [List.nil_append, List.mem_singleton, forall_eq, exists_eq_left] at stays crossed
        exact ⟨stays, .inl ⟨crossed, conflict⟩⟩
    | cons head between =>
        obtain ⟨rfl, rfl⟩ := List.cons.inj split
        rw [List.cons_append, List.forall_mem_cons] at stays
        rw [List.cons_append, List.exists_mem_cons_iff, ← or_assoc] at crossed
        exact ⟨stays.1, .inr ⟨between, second, after, rfl, stays.2, crossed, conflict⟩⟩
  · rintro ⟨stays, ⟨crossed, conflict⟩ | ⟨between, second, after, rfl, rest, crossed, conflict⟩⟩
    · exact ⟨[], next, visits, rfl, by simpa using stays, by simpa using crossed, conflict⟩
    · refine ⟨next :: between, second, after, rfl, ?_, ?_, conflict⟩
      · rw [List.cons_append, List.forall_mem_cons]
        exact ⟨stays, rest⟩
      · rw [List.cons_append, List.exists_mem_cons_iff, ← or_assoc]
        exact crossed

@[simp] theorem not_carried_nil : ¬ Carried ([] : List (Visit Cell)) := by
  rintro ⟨before, first, between, second, after, split, -⟩
  simp at split

theorem carried_cons : Carried (next :: visits) ↔
    next.place ≠ .outside ∧ Meets False next.footprint visits ∨ Carried visits := by
  constructor
  · rintro ⟨before, first, between, second, after, split, stays, crossed, conflict⟩
    cases before with
    | nil =>
        obtain ⟨rfl, rfl⟩ := List.cons.inj split
        rw [List.forall_mem_cons] at stays
        exact .inl ⟨stays.1, between, second, after, rfl, stays.2, .inr crossed, conflict⟩
    | cons head before =>
        obtain ⟨rfl, rfl⟩ := List.cons.inj split
        exact .inr ⟨before, first, between, second, after, rfl, stays, crossed, conflict⟩
  · rintro (⟨stays, between, second, after, rfl, rest, crossed, conflict⟩ |
      ⟨before, first, between, second, after, rfl, stays, crossed, conflict⟩)
    · exact ⟨[], next, between, second, after, rfl, List.forall_mem_cons.mpr ⟨stays, rest⟩,
        crossed.resolve_left id, conflict⟩
    · exact ⟨next :: before, first, between, second, after, rfl, stays, crossed, conflict⟩

namespace Gate

/-- A gate lets a visit list through if neither what it has collected nor the visits conflict. -/
theorem passes_iff {gate : Gate Cell} : gate.Passes visits ↔
    ¬ Meets True gate.earlier visits ∧ ¬ Meets False gate.current visits ∧ ¬ Carried visits := by
  induction visits generalizing gate with
  | nil => simp [Passes]
  | cons next visits ih =>
      rw [Passes, ih, meets_cons, meets_cons, carried_cons]
      cases place : next.place <;>
        simp only [barred, visit, closed, place, meets_append, Footprint.append_conflict,
          Footprint.not_conflict_none, not_meets_none, ne_eq, reduceCtorEq, not_true_eq_false,
          not_false_eq_true, true_and, false_and, or_false, or_true, false_or, not_or]
      all_goals tauto

/-- The gate finds exactly the conflicts between iterations. -/
theorem closed_passes_iff : (closed : Gate Cell).Passes visits ↔ ¬ Carried visits := by
  simp [passes_iff, closed]

end Gate

/-- Iterations that write nothing do not conflict. -/
theorem not_carried_of_writes_nil
    (silent : ∀ visit ∈ visits, visit.place ≠ .outside → visit.footprint.writes = []) :
    ¬ Carried visits := by
  rintro ⟨before, first, between, second, after, rfl, stays, -, conflict⟩
  rcases conflict.writes with written | written
  · exact written (silent first (by simp) (stays first (by simp)))
  · exact written (silent second (by simp) (stays second (by simp)))

end Iterations
