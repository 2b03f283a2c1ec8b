import Mathlib.Data.List.Sort

/-!
# Stable sorting by classes

A list whose elements fall into two classes, the first before the second, is sorted by sorting each
class.
-/

namespace TopoLlvm
namespace Library
namespace StableSort

variable {α : Type*} {r : α → α → Prop} [DecidableRel r]

/-- An element is inserted behind those that it does not precede. -/
theorem orderedInsert_append_of_behind {one : α} {front : List α}
    (behind : ∀ other ∈ front, ¬ r one other) (back : List α) :
    (front ++ back).orderedInsert r one = front ++ back.orderedInsert r one := by
  induction front with
  | nil => rfl
  | cons first rest induction =>
      have inserted :=
        induction fun other member => behind other (List.mem_cons_of_mem first member)
      rw [List.cons_append, List.orderedInsert_of_not_le r _ (behind first List.mem_cons_self),
        inserted, List.cons_append]

/-- An element is inserted before those that it precedes. -/
theorem orderedInsert_append_of_ahead {one : α} (front : List α) {back : List α}
    (ahead : ∀ other ∈ back, r one other) :
    (front ++ back).orderedInsert r one = front.orderedInsert r one ++ back := by
  induction front with
  | nil =>
      cases back with
      | nil => rfl
      | cons first rest =>
          exact List.orderedInsert_cons_of_le _ rest (ahead first List.mem_cons_self)
  | cons first rest induction =>
      simp only [List.cons_append, List.orderedInsert_cons, induction]
      split <;> rfl

/-- Two classes are sorted one behind the other. -/
theorem insertionSort_eq_filter_append (p : α → Bool) {l : List α}
    (ahead : ∀ one ∈ l, ∀ other ∈ l, p one = true → p other = false → r one other)
    (behind : ∀ one ∈ l, ∀ other ∈ l, p one = true → p other = false → ¬ r other one) :
    l.insertionSort r =
      (l.filter p).insertionSort r ++ (l.filter fun one => !p one).insertionSort r := by
  induction l with
  | nil => rfl
  | cons first rest induction =>
      have sorted := induction
        (fun one member other member' =>
          ahead one (List.mem_cons_of_mem first member) other (List.mem_cons_of_mem first member'))
        (fun one member other member' =>
          behind one (List.mem_cons_of_mem first member) other (List.mem_cons_of_mem first member'))
      rw [List.insertionSort_cons, sorted]
      cases class_eq : p first with
      | true =>
          rw [List.filter_cons_of_pos class_eq, List.filter_cons_of_neg (by simp [class_eq]),
            List.insertionSort_cons]
          apply orderedInsert_append_of_ahead
          intro other member
          obtain ⟨inside, outside⟩ := List.mem_filter.mp (List.mem_insertionSort r |>.mp member)
          exact ahead first List.mem_cons_self other (List.mem_cons_of_mem first inside) class_eq
            (by simpa using outside)
      | false =>
          rw [List.filter_cons_of_neg (by simp [class_eq]),
            List.filter_cons_of_pos (by simp [class_eq]), List.insertionSort_cons]
          apply orderedInsert_append_of_behind
          intro other member
          obtain ⟨inside, holds⟩ := List.mem_filter.mp (List.mem_insertionSort r |>.mp member)
          exact behind other (List.mem_cons_of_mem first inside) first List.mem_cons_self holds
            class_eq

end StableSort
end Library
end TopoLlvm
