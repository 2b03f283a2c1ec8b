import Mathlib.Data.List.Permutation
import Mathlib.Data.List.Flatten
import Mathlib.Logic.Function.Basic

/-!
# Memories under lists of writes

Writes performed in order leave in each cell the last content written to it.  For a family of
write lists the order of its members is irrelevant exactly when any two of them leave the same
content in every cell that both write and that no later write covers.
-/

namespace Overwrite

variable {Cell Content : Type*} [DecidableEq Cell]

/-- Perform writes in order. -/
def overwrite (memory : Cell → Content) (writes : List (Cell × Content)) : Cell → Content :=
  writes.foldl (fun memory write => Function.update memory write.1 write.2) memory

/-- The content that a list of writes leaves in a cell. -/
def lastWrite (writes : List (Cell × Content)) (cell : Cell) : Option Content :=
  writes.foldl (fun last write => if write.1 = cell then some write.2 else last) none

theorem overwrite_append (memory : Cell → Content) (first second : List (Cell × Content)) :
    overwrite memory (first ++ second) = overwrite (overwrite memory first) second :=
  List.foldl_append ..

theorem overwrite_concat (memory : Cell → Content) (writes : List (Cell × Content))
    (write : Cell × Content) :
    overwrite memory (writes ++ [write]) =
      Function.update (overwrite memory writes) write.1 write.2 := by
  rw [overwrite_append]
  rfl

theorem lastWrite_singleton (write : Cell × Content) (cell : Cell) :
    lastWrite [write] cell = if write.1 = cell then some write.2 else none := rfl

theorem lastWrite_concat (writes : List (Cell × Content)) (write : Cell × Content) (cell : Cell) :
    lastWrite (writes ++ [write]) cell =
      if write.1 = cell then some write.2 else lastWrite writes cell := by
  rw [lastWrite, List.foldl_append]
  rfl

/-- A cell holds the last content written to it, or what it held before. -/
theorem overwrite_apply (memory : Cell → Content) (writes : List (Cell × Content)) (cell : Cell) :
    overwrite memory writes cell = (lastWrite writes cell).getD (memory cell) := by
  induction writes using List.reverseRecOn with
  | nil => rfl
  | append_singleton writes write ih =>
      rw [overwrite_concat, lastWrite_concat]
      by_cases same : write.1 = cell
      · subst same
        simp
      · rw [Function.update_of_ne (Ne.symm same), ih, if_neg same]

theorem lastWrite_append (first second : List (Cell × Content)) (cell : Cell) :
    lastWrite (first ++ second) cell = (lastWrite second cell).or (lastWrite first cell) := by
  induction second using List.reverseRecOn with
  | nil => simp [lastWrite]
  | append_singleton second write ih =>
      rw [← List.append_assoc, lastWrite_concat, lastWrite_concat, ih]
      split <;> rfl

section Families

variable {Index : Type*} {family : Index → List (Cell × Content)}

/-- What a family leaves in a cell was left by one of its members. -/
theorem exists_of_lastWrite_flatMap {order : List Index} {cell : Cell} {content : Content}
    (left : lastWrite (order.flatMap family) cell = some content) :
    ∃ index ∈ order, lastWrite (family index) cell = some content := by
  induction order with
  | nil => cases left
  | cons head tail ih =>
      rw [List.flatMap_cons, lastWrite_append] at left
      cases later : lastWrite (tail.flatMap family) cell with
      | none =>
          rw [later, Option.none_or] at left
          exact ⟨head, List.mem_cons_self .., left⟩
      | some found =>
          rw [later, Option.some_or] at left
          obtain ⟨index, member, written⟩ := ih (later.trans left)
          exact ⟨index, List.mem_cons_of_mem _ member, written⟩

/-- A cell that a member writes is written by the family. -/
theorem lastWrite_flatMap_isSome {order : List Index} {cell : Cell} {index : Index}
    {content : Content} (member : index ∈ order)
    (written : lastWrite (family index) cell = some content) :
    (lastWrite (order.flatMap family) cell).isSome := by
  induction order with
  | nil => cases member
  | cons head tail ih =>
      rw [List.flatMap_cons, lastWrite_append]
      rcases List.mem_cons.mp member with rfl | member
      · rw [written, Option.isSome_or]
        exact Bool.or_true _
      · rw [Option.isSome_or, ih member]
        exact Bool.true_or _

/-- Two members leave the same content wherever both write and nothing later does. -/
def Agree (family : Index → List (Cell × Content)) (later : List (Cell × Content))
    (left right : Index) : Prop :=
  ∀ cell first second, lastWrite (family left) cell = some first →
    lastWrite (family right) cell = some second → lastWrite later cell = none → first = second

/-- Pairwise agreement makes the order of a family irrelevant. -/
theorem overwrite_perm {order serial : List Index} (perm : order.Perm serial)
    {later : List (Cell × Content)}
    (agree : ∀ left ∈ serial, ∀ right ∈ serial, Agree family later left right)
    (memory : Cell → Content) :
    overwrite memory (order.flatMap family ++ later) =
      overwrite memory (serial.flatMap family ++ later) := by
  funext cell
  simp only [overwrite_apply, lastWrite_append]
  cases covered : lastWrite later cell with
  | some content => rfl
  | none =>
      simp only [Option.none_or]
      cases ordered : lastWrite (order.flatMap family) cell with
      | none =>
          cases serially : lastWrite (serial.flatMap family) cell with
          | none => rfl
          | some content =>
              obtain ⟨index, member, written⟩ := exists_of_lastWrite_flatMap serially
              have writes := lastWrite_flatMap_isSome (perm.mem_iff.mpr member) written
              simp [ordered] at writes
      | some first =>
          obtain ⟨left, leftMember, leftWritten⟩ := exists_of_lastWrite_flatMap ordered
          have writes := lastWrite_flatMap_isSome (perm.mem_iff.mp leftMember) leftWritten
          obtain ⟨second, serially⟩ := Option.isSome_iff_exists.mp writes
          obtain ⟨right, rightMember, rightWritten⟩ := exists_of_lastWrite_flatMap serially
          rw [serially, agree left (perm.mem_iff.mp leftMember) right rightMember cell first second
            leftWritten rightWritten covered]

/-- Where the order is irrelevant, every member could have come last. -/
theorem agree_of_overwrite_perm {serial : List Index} [DecidableEq Index]
    {later : List (Cell × Content)} {memory : Cell → Content}
    (irrelevant : ∀ order : List Index, order.Perm serial →
      overwrite memory (order.flatMap family ++ later) =
        overwrite memory (serial.flatMap family ++ later))
    {left right : Index} (leftMember : left ∈ serial) (rightMember : right ∈ serial) :
    Agree family later left right := by
  intro cell first second leftWritten rightWritten uncovered
  have last {index : Index} (member : index ∈ serial) {content : Content}
      (written : lastWrite (family index) cell = some content) :
      content = overwrite memory (serial.flatMap family ++ later) cell := by
    have moved : (serial.erase index ++ [index]).Perm serial :=
      List.perm_append_comm.trans (List.perm_cons_erase member).symm
    rw [← irrelevant _ moved, overwrite_apply, lastWrite_append, uncovered, List.flatMap_append,
      lastWrite_append, List.flatMap_singleton, written]
    rfl
  exact (last leftMember leftWritten).trans (last rightMember rightWritten).symm

end Families
end Overwrite
