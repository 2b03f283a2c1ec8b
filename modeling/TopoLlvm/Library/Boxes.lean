import Mathlib.Algebra.Order.BigOperators.Group.Finset
import Mathlib.Data.Fintype.BigOperators
import Mathlib.Data.List.Count

/-!
# Tokens in finitely many boxes

`total boxes token` counts a token over a finite family of lists.  Replacing one box changes the
total by the difference of that box alone, and a total of one means exactly one slot of one box.
-/

namespace Boxes

open Finset

variable {ι τ : Type*} [Fintype ι] [DecidableEq τ]

/-- Multiplicity of a token over all boxes. -/
def total (boxes : ι → List τ) (token : τ) : Nat :=
  ∑ box, (boxes box).count token

/-- Replacing one box trades its old multiplicity for the new one. -/
theorem total_update [DecidableEq ι] (boxes : ι → List τ) (box : ι) (content : List τ) (token : τ) :
    total (Function.update boxes box content) token + (boxes box).count token =
      total boxes token + content.count token := by
  have others : ∀ other ∈ univ.erase box,
      (Function.update boxes box content other).count token = (boxes other).count token := by
    intro other member
    rw [Function.update_of_ne (ne_of_mem_erase member)]
  have replaced : total (Function.update boxes box content) token =
      content.count token + ∑ other ∈ univ.erase box, (boxes other).count token := by
    rw [total, ← add_sum_erase _ _ (mem_univ box), sum_congr rfl others]
    simp
  have original : total boxes token =
      (boxes box).count token + ∑ other ∈ univ.erase box, (boxes other).count token := by
    rw [total, ← add_sum_erase _ _ (mem_univ box)]
  omega

theorem count_le_total (boxes : ι → List τ) (box : ι) (token : τ) :
    (boxes box).count token ≤ total boxes token :=
  single_le_sum (f := fun box => (boxes box).count token) (fun _ _ => Nat.zero_le _) (mem_univ box)

theorem total_mono {left right : ι → List τ} {token : τ}
    (le : ∀ box, (left box).count token ≤ (right box).count token) :
    total left token ≤ total right token :=
  sum_le_sum fun box _ => le box

theorem total_pos_iff (boxes : ι → List τ) (token : τ) :
    0 < total boxes token ↔ ∃ box, token ∈ boxes box := by
  simp [total, Finset.sum_pos_iff, List.count_pos_iff]

/-- A token of two different boxes has a total of at least two. -/
theorem two_le_total [DecidableEq ι] {boxes : ι → List τ} {left right : ι} {token : τ}
    (ne : left ≠ right)
    (inLeft : token ∈ boxes left) (inRight : token ∈ boxes right) : 2 ≤ total boxes token := by
  have pair : ∑ box ∈ {left, right}, (boxes box).count token ≤ total boxes token :=
    sum_le_sum_of_subset (subset_univ _)
  rw [sum_pair ne] at pair
  have leftPos := List.count_pos_iff.mpr inLeft
  have rightPos := List.count_pos_iff.mpr inRight
  omega

/-- Two slots of one list that hold the same token count twice. -/
theorem slot_unique {content : List τ} {token : τ} (once : content.count token ≤ 1)
    {left right : Nat} (atLeft : content[left]? = some token)
    (atRight : content[right]? = some token) : left = right := by
  induction content generalizing left right with
  | nil => simp at atLeft
  | cons head tail ih =>
      have absent : head = token → token ∉ tail := by
        rintro rfl member
        have := List.count_pos_iff.mpr member
        simp at once
        omega
      cases left with
      | zero =>
          cases right with
          | zero => rfl
          | succ right =>
              simp only [List.getElem?_cons_zero, Option.some.injEq] at atLeft
              exact absurd (List.mem_of_getElem? (by simpa using atRight)) (absent atLeft)
      | succ left =>
          cases right with
          | zero =>
              simp only [List.getElem?_cons_zero, Option.some.injEq] at atRight
              exact absurd (List.mem_of_getElem? (by simpa using atLeft)) (absent atRight)
          | succ right =>
              have tailOnce : tail.count token ≤ 1 :=
                (List.count_le_count_cons ..).trans once
              exact congrArg Nat.succ (ih tailOnce (by simpa using atLeft) (by simpa using atRight))

/-- A total of at most one leaves room for a single slot over all boxes. -/
theorem slot_of_total_le_one [DecidableEq ι] (boxes : ι → List τ) {token : τ}
    (once : total boxes token ≤ 1)
    {left right : ι} {leftSlot rightSlot : Nat}
    (atLeft : (boxes left)[leftSlot]? = some token)
    (atRight : (boxes right)[rightSlot]? = some token) :
    left = right ∧ leftSlot = rightSlot := by
  obtain rfl : left = right := by
    by_contra ne
    have := two_le_total ne (List.mem_of_getElem? atLeft) (List.mem_of_getElem? atRight)
    omega
  exact ⟨rfl, slot_unique ((count_le_total boxes left token).trans once) atLeft atRight⟩

end Boxes
