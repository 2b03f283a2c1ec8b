import Mathlib.Data.List.Basic

/-!
# Balanced brackets

Texts in which the brackets of one kind come in pairs, and all other characters are plain.
-/

namespace Bracketed

variable {α : Type*} (plain : α → Prop) (opening closing : α)

inductive Balanced : List α → Prop where
  | nil : Balanced []
  | cons {c : α} {rest : List α} (first : plain c) (others : Balanced rest) : Balanced (c :: rest)
  | pair {inside rest : List α} (inner : Balanced inside) (others : Balanced rest) :
      Balanced (opening :: (inside ++ closing :: rest))

namespace Balanced

variable {plain opening closing} {text rest : List α}

theorem of_plain (all : ∀ c ∈ text, plain c) : Balanced plain opening closing text := by
  induction text with
  | nil => exact .nil
  | cons c text ih =>
      rw [List.forall_mem_cons] at all
      exact .cons all.1 (ih all.2)

theorem append (first : Balanced plain opening closing text)
    (others : Balanced plain opening closing rest) :
    Balanced plain opening closing (text ++ rest) := by
  induction first with
  | nil => exact others
  | cons plain _ ih => exact .cons plain ih
  | pair inner _ _ ih =>
      rw [List.cons_append, List.append_assoc, List.cons_append]
      exact .pair inner ih

theorem bracket (inner : Balanced plain opening closing text) :
    Balanced plain opening closing (opening :: (text ++ [closing])) := .pair inner .nil

theorem intercalate {separator : List α} {texts : List (List α)}
    (between : Balanced plain opening closing separator)
    (each : ∀ text ∈ texts, Balanced plain opening closing text) :
    Balanced plain opening closing (separator.intercalate texts) := by
  induction texts with
  | nil => exact .nil
  | cons text texts ih =>
      rw [List.forall_mem_cons] at each
      cases texts with
      | nil => simpa [List.intercalate] using each.1
      | cons next texts =>
          rw [List.intercalate_cons_cons]
          exact (each.1.append between).append (ih each.2)

end Balanced

/-- Texts in which brackets come in pairs, with given characters outside of them. -/
inductive Outer (outer : α → Prop) : List α → Prop where
  | nil : Outer outer []
  | cons {c : α} {rest : List α} (first : outer c) (others : Outer outer rest) :
      Outer outer (c :: rest)
  | pair {inside rest : List α} (inner : Balanced plain opening closing inside)
      (others : Outer outer rest) : Outer outer (opening :: (inside ++ closing :: rest))

namespace Outer

variable {plain opening closing} {outer : α → Prop} {text rest : List α}

theorem of_forall (all : ∀ c ∈ text, outer c) : Outer plain opening closing outer text := by
  induction text with
  | nil => exact .nil
  | cons c text ih =>
      rw [List.forall_mem_cons] at all
      exact .cons all.1 (ih all.2)

theorem append (first : Outer plain opening closing outer text)
    (others : Outer plain opening closing outer rest) :
    Outer plain opening closing outer (text ++ rest) := by
  induction first with
  | nil => exact others
  | cons first _ ih => exact .cons first ih
  | pair inner _ ih =>
      rw [List.cons_append, List.append_assoc, List.cons_append]
      exact .pair inner ih

theorem mono {other : α → Prop} (weaker : ∀ c, outer c → other c)
    (shape : Outer plain opening closing outer text) : Outer plain opening closing other text := by
  induction shape with
  | nil => exact .nil
  | cons first _ ih => exact .cons (weaker _ first) ih
  | pair inner _ ih => exact .pair inner ih

theorem head (shape : Outer plain opening closing outer text) {c : α}
    (first : text.head? = some c) : outer c ∨ c = opening := by
  cases shape with
  | nil => cases first
  | cons plain _ =>
      cases first
      exact .inl plain
  | pair _ _ =>
      cases first
      exact .inr rfl

/-- What follows the last closing bracket is outside of all brackets. -/
theorem suffix {back : List α} (shape : Outer plain opening closing outer text)
    (ends : back <:+ text) (after : closing ∉ back) : ∀ c ∈ back, outer c := by
  induction shape generalizing back with
  | nil =>
      rw [List.suffix_nil.mp ends]
      exact fun c member => absurd member List.not_mem_nil
  | cons first _ ih =>
      rcases List.suffix_cons_iff.mp ends with rfl | later
      · rw [List.mem_cons, not_or] at after
        rw [List.forall_mem_cons]
        exact ⟨first, ih List.suffix_rfl after.2⟩
      · exact ih later after
  | @pair inside rest _ _ ih =>
      have closes : closing :: rest <:+ opening :: (inside ++ closing :: rest) :=
        List.suffix_append (opening :: inside) (closing :: rest)
      rcases List.suffix_or_suffix_of_suffix closes ends with within | short
      · exact absurd (within.subset List.mem_cons_self) after
      · rcases List.suffix_cons_iff.mp short with rfl | later
        · exact absurd List.mem_cons_self after
        · exact ih later after

end Outer
end Bracketed
