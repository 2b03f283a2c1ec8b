import Mathlib.Tactic

/-!
# Even splits of a range

A range of numbers is cut into parts of one size, and the last part takes what remains.
-/

namespace EvenSplit

/-- Where a part ends. -/
def stop (total parts size index : ℕ) : ℕ :=
  if index + 1 = parts then total else (index + 1) * size

/-- The numbers of a part. -/
def part (total parts size index : ℕ) : List ℕ :=
  List.range' (index * size) (stop total parts size index - index * size)

variable {total parts size : ℕ}

/-- Parts of full size follow each other. -/
theorem flatMap_full (size : ℕ) (count : ℕ) :
    (List.range count).flatMap (fun index => List.range' (index * size) size) =
      List.range (count * size) := by
  induction count with
  | zero => simp
  | succ count ih =>
      rw [List.range_succ, List.flatMap_append, ih, List.flatMap_singleton, Nat.succ_mul,
        List.range_eq_range', List.range_eq_range', ← List.range'_append_1, Nat.zero_add]

theorem part_full {index : ℕ} (before : index + 1 < parts) :
    part total parts size index = List.range' (index * size) size := by
  rw [part, stop, if_neg before.ne, Nat.succ_mul, Nat.add_sub_cancel_left]

/-- **The parts make up the range.** -/
theorem flatMap_part (pos : 0 < parts) (fits : parts * size ≤ total) :
    (List.range parts).flatMap (part total parts size) = List.range total := by
  obtain ⟨before, rfl⟩ := Nat.exists_eq_add_of_le' pos
  have last : before * size ≤ total := by
    rw [Nat.succ_mul] at fits
    omega
  have full : (List.range before).flatMap (part total (before + 1) size) =
      List.range (before * size) := by
    rw [← flatMap_full size before]
    apply List.flatMap_congr
    intro index inside
    exact part_full (by simpa using inside)
  rw [List.range_succ, List.flatMap_append, full, List.flatMap_singleton, part, stop, if_pos rfl,
    List.range_eq_range', List.range_eq_range']
  calc List.range' 0 (before * size) ++ List.range' (before * size) (total - before * size)
      = List.range' 0 (before * size) ++
          List.range' (0 + before * size) (total - before * size) := by rw [Nat.zero_add]
    _ = List.range' 0 (before * size + (total - before * size)) := List.range'_append_1
    _ = List.range' 0 total := by rw [Nat.add_sub_cancel' last]

theorem start_le_stop (fits : parts * size ≤ total) {index : ℕ} (inside : index < parts) :
    index * size ≤ stop total parts size index := by
  rw [stop]
  split_ifs with last
  · exact (Nat.mul_le_mul_right size inside.le).trans fits
  · exact Nat.mul_le_mul_right size (Nat.le_succ index)

theorem stop_le_total (fits : parts * size ≤ total) {index : ℕ} (inside : index < parts) :
    stop total parts size index ≤ total := by
  rw [stop]
  split_ifs with last
  · exact le_rfl
  · exact (Nat.mul_le_mul_right size inside).trans fits

/-- Parts do not overlap. -/
theorem stop_le_start {left right : ℕ} (before : left < right) (inside : right < parts) :
    stop total parts size left ≤ right * size := by
  rw [stop, if_neg (by omega)]
  exact Nat.mul_le_mul_right size before

end EvenSplit
