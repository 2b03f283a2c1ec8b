import Mathlib.Data.List.Nodup

/-!
# Lists of keys and values

Where no key comes twice, looking up a key does not depend on the order of the list.
-/

namespace Lookup

variable {K V W : Type*} [BEq K] [LawfulBEq K]

/-- The value of a key is the one that stands beside it. -/
theorem eq_some_iff {entries : List (K × V)} (distinct : (entries.map (·.1)).Nodup) {key : K}
    {value : V} : entries.lookup key = some value ↔ (key, value) ∈ entries := by
  induction entries with
  | nil => simp
  | cons entry entries ih =>
      obtain ⟨first, content⟩ := entry
      obtain ⟨fresh, rest⟩ := List.nodup_cons.mp distinct
      by_cases here : key = first
      · subst here
        rw [List.lookup_cons_self]
        constructor
        · intro found
          rw [← Option.some.inj found]
          exact List.mem_cons_self
        · intro inside
          rcases List.mem_cons.mp inside with same | later
          · exact congrArg some (Prod.mk.inj same).2.symm
          · exact (fresh (List.mem_map.mpr ⟨_, later, rfl⟩)).elim
      · have apart : (key == first) = false := beq_eq_false_iff_ne.mpr here
        rw [List.lookup_cons, apart, ih rest, List.mem_cons]
        refine (or_iff_right ?_).symm
        rintro ⟨rfl, -⟩
        exact here rfl

theorem perm {entries others : List (K × V)} (distinct : (entries.map (·.1)).Nodup)
    (perm : entries.Perm others) (key : K) : entries.lookup key = others.lookup key := by
  have other : (others.map (·.1)).Nodup := (perm.map _).nodup_iff.mp distinct
  ext value
  rw [eq_some_iff distinct, eq_some_iff other, perm.mem_iff]

omit [LawfulBEq K] in
theorem map (map : V → W) (entries : List (K × V)) (key : K) :
    (entries.map (Prod.map id map)).lookup key = (entries.lookup key).map map := by
  induction entries with
  | nil => rfl
  | cons entry entries ih =>
      rw [List.map_cons, List.lookup_cons, List.lookup_cons, ih, Prod.map_fst, id, Prod.map_snd]
      split <;> rfl

end Lookup
