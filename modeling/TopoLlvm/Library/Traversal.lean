import Mathlib.Data.List.Perm.Basic

/-!
# Traversals that may fail

Lists whose items are all read, and what a permutation of them reads.
-/

namespace Traversal

theorem mapM_of_forall {α β : Type} {f : α → Option β} {g : α → β} {items : List α}
    (each : ∀ item ∈ items, f item = some (g item)) : items.mapM f = some (items.map g) := by
  induction items with
  | nil => rfl
  | cons item items ih =>
      rw [List.mapM_cons, each item List.mem_cons_self,
        ih fun other member => each other (List.mem_cons_of_mem _ member)]
      rfl

/-- What is read of encoded items. -/
theorem mapM_map {α β γ : Type} {encode : α → β} {read : β → Option γ} {result : α → γ}
    (each : ∀ item, read (encode item) = some (result item)) (items : List α) :
    (items.map encode).mapM read = some (items.map result) := by
  rw [List.mapM_map]
  exact mapM_of_forall fun item _ => each item

/-- Reading a permutation gives a permutation of what is read. -/
theorem mapM_perm {α β : Type} {read : α → Option β} {items others : List α} {found : List β}
    (perm : items.Perm others) (known : others.mapM read = some found) :
    ∃ result, items.mapM read = some result ∧ result.Perm found := by
  induction perm generalizing found with
  | nil => exact ⟨found, known, .refl _⟩
  | cons item _ ih =>
      simp only [List.mapM_cons, Option.bind_eq_bind, Option.bind_eq_some_iff] at known ⊢
      obtain ⟨first, readFirst, rest, readRest, same⟩ := known
      obtain ⟨result, readResult, perm⟩ := ih readRest
      cases same
      exact ⟨first :: result, ⟨first, readFirst, result, readResult, rfl⟩, perm.cons first⟩
  | swap item other rest =>
      simp only [List.mapM_cons, Option.bind_eq_bind, Option.bind_eq_some_iff] at known ⊢
      obtain ⟨first, readFirst, _, ⟨second, readSecond, tail, readTail, later⟩, same⟩ := known
      cases later
      cases same
      exact ⟨second :: first :: tail,
        ⟨second, readSecond, first :: tail, ⟨first, readFirst, tail, readTail, rfl⟩, rfl⟩,
        .swap ..⟩
  | trans _ _ ihFirst ihSecond =>
      obtain ⟨middle, readMiddle, permMiddle⟩ := ihSecond known
      obtain ⟨result, readResult, permResult⟩ := ihFirst readMiddle
      exact ⟨result, readResult, permResult.trans permMiddle⟩

end Traversal
