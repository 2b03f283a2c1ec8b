import Mathlib.Data.List.Basic

/-!
# Folds in chunks

A list is folded by an associative operation chunk by chunk, each chunk from the neutral element,
and the partial results are folded again.
-/

namespace ChunkFold

variable {α : Type*} (op : α → α → α) [Std.Associative op] (unit : α)

/-- The operation leaves what it is applied to with the element on the right. -/
def NeutralRight : Prop := ∀ value, op value unit = value

variable {op unit}

/-- A fold from a first value is that value and the fold from the neutral element. -/
theorem op_foldl (neutral : NeutralRight op unit) (first : α) (items : List α) :
    op first (items.foldl op unit) = items.foldl op first := by
  have assoc : items.foldl op (op first unit) = op first (items.foldl op unit) := List.foldl_assoc
  rw [← assoc, neutral]

/-- The fold of the folds of the chunks. -/
theorem foldl_chunks (neutral : NeutralRight op unit) (first : α) (chunks : List (List α)) :
    (chunks.map (·.foldl op unit)).foldl op first = chunks.flatten.foldl op first := by
  induction chunks generalizing first with
  | nil => rfl
  | cons chunk chunks ih =>
      rw [List.map_cons, List.foldl_cons, ih, op_foldl neutral, List.flatten_cons,
        List.foldl_append]

/-- A value combined with the fold of the folds of the chunks. -/
theorem op_foldl_chunks (neutral : NeutralRight op unit) (first : α) (chunks : List (List α)) :
    op first ((chunks.map (·.foldl op unit)).foldl op unit) = chunks.flatten.foldl op first := by
  rw [op_foldl neutral, foldl_chunks neutral]

end ChunkFold
