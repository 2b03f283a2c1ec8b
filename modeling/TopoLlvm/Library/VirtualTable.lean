import Mathlib.Data.List.Nodup
import Mathlib.Logic.Relation

/-!
# Virtual tables

With single inheritance, the table of a class is the table of its base, in which a declaration
replaces the entry with its key or is put at the end.  So an entry stays where the class that
declares its key first has put it, and is the one of the last class that declares the key.
-/

variable {C K F : Type*}

namespace VirtualTable

/-! ## Tables -/

section Table

variable [DecidableEq K] {table declared : List (K × F)} {entry other : K × F}

def declare (table : List (K × F)) (entry : K × F) : List (K × F) :=
  if entry.1 ∈ table.map (·.1) then table.map fun old => if old.1 = entry.1 then entry else old
  else table ++ [entry]

def extend (table declared : List (K × F)) : List (K × F) := declared.foldl declare table

theorem keys_replaced (table : List (K × F)) (entry : K × F) :
    (table.map fun old => if old.1 = entry.1 then entry else old).map (·.1) =
      table.map (·.1) := by
  rw [List.map_map]
  refine List.map_congr_left fun old _ => ?_
  dsimp only [Function.comp_apply]
  split
  · rename_i same
    exact same.symm
  · rfl

theorem keys_declare : (declare table entry).map (·.1) =
    table.map (·.1) ++ if entry.1 ∈ table.map (·.1) then [] else [entry.1] := by
  unfold declare
  split
  · rw [keys_replaced, List.append_nil]
  · rw [List.map_append]
    rfl

theorem mem_declare :
    other ∈ declare table entry ↔ other = entry ∨ other ∈ table ∧ other.1 ≠ entry.1 := by
  unfold declare
  split
  · rename_i taken
    rw [List.mem_map]
    constructor
    · rintro ⟨old, member, rfl⟩
      split
      · exact .inl rfl
      · rename_i apart
        exact .inr ⟨member, apart⟩
    · rintro (rfl | ⟨member, apart⟩)
      · obtain ⟨old, member, same⟩ := List.mem_map.mp taken
        exact ⟨old, member, if_pos same⟩
      · exact ⟨other, member, if_neg apart⟩
  · rename_i free
    rw [List.mem_append, List.mem_singleton]
    constructor
    · rintro (member | same)
      · refine .inr ⟨member, fun same => free ?_⟩
        exact same ▸ List.mem_map_of_mem member
      · exact .inl same
    · rintro (same | ⟨member, -⟩)
      · exact .inr same
      · exact .inl member

/-- Entries stay where they are. -/
theorem keys_goOn (table declared : List (K × F)) :
    table.map (·.1) <+: (extend table declared).map (·.1) := by
  induction declared generalizing table with
  | nil => exact List.prefix_rfl
  | cons entry declared ih =>
      have first : table.map (·.1) <+: (declare table entry).map (·.1) := by
        rw [keys_declare]
        exact List.prefix_append ..
      exact first.trans (ih _)

theorem nodup_extend (distinct : (table.map (·.1)).Nodup) :
    ((extend table declared).map (·.1)).Nodup := by
  induction declared generalizing table with
  | nil => exact distinct
  | cons entry declared ih =>
      refine ih ?_
      rw [keys_declare]
      split
      · rwa [List.append_nil]
      · rename_i free
        rw [List.nodup_append]
        refine ⟨distinct, List.nodup_singleton _, fun key member new isNew same => free ?_⟩
        rwa [← List.mem_singleton.mp isNew, ← same]

/-- What is declared hides the entries that have its keys. -/
theorem mem_extend (distinct : (declared.map (·.1)).Nodup) :
    other ∈ extend table declared ↔
      other ∈ declared ∨ other ∈ table ∧ other.1 ∉ declared.map (·.1) := by
  induction declared generalizing table with
  | nil => simp [extend]
  | cons entry declared ih =>
      obtain ⟨fresh, distinct⟩ := List.nodup_cons.mp distinct
      have later : extend table (entry :: declared) = extend (declare table entry) declared := rfl
      rw [later, ih distinct, mem_declare, List.mem_cons, List.map_cons, List.mem_cons, not_or]
      constructor
      · rintro (member | ⟨rfl | ⟨member, apart⟩, free⟩)
        · exact .inl (.inr member)
        · exact .inl (.inl rfl)
        · exact .inr ⟨member, apart, free⟩
      · rintro ((rfl | member) | ⟨member, apart, free⟩)
        · exact .inr ⟨.inl rfl, fresh⟩
        · exact .inl member
        · exact .inr ⟨.inr ⟨member, apart⟩, free⟩

end Table

/-! ## Hierarchies -/

/-- A class, with the keys that it declares and what it declares for them. -/
structure Class (C K F : Type*) where
  base : Option C
  declared : List (K × F)

/-- A hierarchy in which no class declares a key twice, and what is declared is declared by one
class. -/
structure Hierarchy (C K F : Type*) where
  find : C → Option (Class C K F)
  distinct : ∀ name cls, find name = some cls → (cls.declared.map (·.1)).Nodup
  owner : ∀ name cls other cls' key key' f, find name = some cls → find other = some cls' →
    (key, f) ∈ cls.declared → (key', f) ∈ cls'.declared → name = other ∧ key = key'

namespace Hierarchy

variable (hierarchy : Hierarchy C K F)

def Base (name base : C) : Prop :=
  ∃ cls, hierarchy.find name = some cls ∧ cls.base = some base

/-- The first class is the second or derived from it. -/
def Derives : C → C → Prop := Relation.ReflTransGen hierarchy.Base

def Declares (name : C) (key : K) : Prop :=
  ∃ cls, hierarchy.find name = some cls ∧ key ∈ cls.declared.map (·.1)

variable [DecidableEq K]

inductive HasTable : C → List (K × F) → Prop
  | root {name : C} {cls : Class C K F} (found : hierarchy.find name = some cls)
      (none : cls.base = none) : HasTable name (extend [] cls.declared)
  | derived {name base : C} {cls : Class C K F} {table : List (K × F)}
      (found : hierarchy.find name = some cls) (some : cls.base = some base)
      (inherited : HasTable base table) : HasTable name (extend table cls.declared)

/-! ## Chains of bases -/

section Chains

variable {hierarchy} {name other base : C} {table inherited : List (K × F)} {key : K} {f : F}
  {cls : Class C K F}

omit [DecidableEq K] in
theorem base_unique : Relator.RightUnique hierarchy.Base := by
  rintro name base base' ⟨cls, found, isBase⟩ ⟨cls', found', isBase'⟩
  obtain rfl := Option.some.inj (found.symm.trans found')
  exact Option.some.inj (isBase.symm.trans isBase')

omit [DecidableEq K] in
theorem eq_of_derives (found : hierarchy.find name = some cls) (none : cls.base = none)
    (derives : hierarchy.Derives name other) : name = other := by
  rcases Relation.ReflTransGen.cases_head derives with same | ⟨next, ⟨cls', found', some⟩, -⟩
  · exact same
  · obtain rfl := Option.some.inj (found.symm.trans found')
    rw [none] at some
    cases some

omit [DecidableEq K] in
theorem derives_cases (found : hierarchy.find name = some cls) (isBase : cls.base = some base)
    (derives : hierarchy.Derives name other) : name = other ∨ hierarchy.Derives base other := by
  rcases Relation.ReflTransGen.cases_head derives with same | ⟨next, step, rest⟩
  · exact .inl same
  · obtain rfl := base_unique step ⟨cls, found, isBase⟩
    exact .inr rest

theorem HasTable.not_cycle (has : hierarchy.HasTable name table) :
    ¬ Relation.TransGen hierarchy.Base name name := by
  induction has with
  | root found none =>
      intro cycle
      obtain ⟨base, ⟨cls, found', some⟩, -⟩ := Relation.TransGen.head'_iff.mp cycle
      obtain rfl := Option.some.inj (found.symm.trans found')
      rw [none] at some
      cases some
  | @derived name base cls table found isBase _ ih =>
      intro cycle
      obtain ⟨next, step, rest⟩ := Relation.TransGen.head'_iff.mp cycle
      obtain rfl := base_unique step ⟨cls, found, isBase⟩
      exact ih (Relation.TransGen.tail' rest step)

theorem HasTable.nodup (has : hierarchy.HasTable name table) : (table.map (·.1)).Nodup := by
  induction has with
  | root => exact nodup_extend List.nodup_nil
  | derived _ _ _ ih => exact nodup_extend ih

/-- A derived class has a table where its base has one. -/
theorem HasTable.of_derives (has : hierarchy.HasTable base inherited)
    (derives : hierarchy.Derives name base) : ∃ table, hierarchy.HasTable name table := by
  induction derives using Relation.ReflTransGen.head_induction_on with
  | refl => exact ⟨inherited, has⟩
  | head step _ ih =>
      obtain ⟨cls, found, isBase⟩ := step
      obtain ⟨table, has⟩ := ih
      exact ⟨_, .derived found isBase has⟩

/-- The table of a class goes on from the table of each class that it is derived from. -/
theorem HasTable.exists_inherited (has : hierarchy.HasTable name table)
    (derives : hierarchy.Derives name base) :
    ∃ inherited, hierarchy.HasTable base inherited ∧
      inherited.map (·.1) <+: table.map (·.1) := by
  induction has with
  | root found none =>
      obtain rfl := eq_of_derives found none derives
      exact ⟨_, .root found none, List.prefix_rfl⟩
  | derived found isBase has ih =>
      rcases derives_cases found isBase derives with rfl | rest
      · exact ⟨_, .derived found isBase has, List.prefix_rfl⟩
      · obtain ⟨inherited, hasBase, goesOn⟩ := ih rest
        exact ⟨inherited, hasBase, goesOn.trans (keys_goOn ..)⟩

/-- An entry has been declared by a class of the chain. -/
theorem HasTable.exists_owner (has : hierarchy.HasTable name table)
    (member : (key, f) ∈ table) :
    ∃ owner cls, hierarchy.Derives name owner ∧ hierarchy.find owner = some cls ∧
      (key, f) ∈ cls.declared := by
  induction has with
  | @root name cls found _ =>
      rcases (mem_extend (hierarchy.distinct name cls found)).mp member with own | ⟨old, -⟩
      · exact ⟨name, cls, .refl, found, own⟩
      · cases old
  | @derived name base cls table found isBase _ ih =>
      rcases (mem_extend (hierarchy.distinct name cls found)).mp member with own | ⟨old, -⟩
      · exact ⟨name, cls, .refl, found, own⟩
      · obtain ⟨owner, cls', derives, found', declares⟩ := ih old
        exact ⟨owner, cls', .head ⟨cls, found, isBase⟩ derives, found', declares⟩

theorem HasTable.mem_of_declared (has : hierarchy.HasTable name table)
    (found : hierarchy.find name = some cls) (declares : (key, f) ∈ cls.declared) :
    (key, f) ∈ table := by
  cases has with
  | root found' | derived found' =>
      obtain rfl := Option.some.inj (found.symm.trans found')
      exact (mem_extend (hierarchy.distinct _ _ found)).mpr (.inl declares)

theorem HasTable.unique (has : hierarchy.HasTable name table)
    {table' : List (K × F)} (has' : hierarchy.HasTable name table') : table = table' := by
  induction has generalizing table' with
  | root found none =>
      cases has' with
      | root found' =>
          obtain rfl := Option.some.inj (found.symm.trans found')
          rfl
      | derived found' some =>
          obtain rfl := Option.some.inj (found.symm.trans found')
          rw [none] at some
          cases some
  | derived found some _ ih =>
      cases has' with
      | root found' none =>
          obtain rfl := Option.some.inj (found.symm.trans found')
          rw [none] at some
          cases some
      | derived found' some' has' =>
          obtain rfl := Option.some.inj (found.symm.trans found')
          obtain rfl := Option.some.inj (some.symm.trans some')
          rw [ih has']

end Chains

/-! ## Dispatch -/

section Dispatch

variable {hierarchy} {name base : C} {table inherited : List (K × F)} {key : K} {f g : F}
  {cls : Class C K F} {slot : Nat}

omit [DecidableEq K] in
theorem getElem?_keys (there : table[slot]? = some (key, f)) :
    (table.map (·.1))[slot]? = some key := by
  rw [List.getElem?_map, there]
  rfl

omit [DecidableEq K] in
theorem getElem?_of_key (distinct : (table.map (·.1)).Nodup)
    (there : (table.map (·.1))[slot]? = some key) (member : (key, f) ∈ table) :
    table[slot]? = some (key, f) := by
  obtain ⟨other, found⟩ := List.mem_iff_getElem?.mp member
  have there' := getElem?_keys found
  have inside := (List.getElem?_eq_some_iff.mp there').1
  obtain rfl := (List.getElem?_inj inside distinct).mp (there'.trans there.symm)
  exact found

omit [DecidableEq K] in
theorem getElem?_of_goesOn {keys keys' : List K} (goesOn : keys <+: keys')
    (there : keys[slot]? = some key) : keys'[slot]? = some key := by
  obtain ⟨rest, rfl⟩ := goesOn
  rw [List.getElem?_append_left (List.getElem?_eq_some_iff.mp there).1, there]

omit [DecidableEq K] in
theorem eq_of_key (distinct : (table.map (·.1)).Nodup) (member : (key, f) ∈ table)
    (member' : (key, g) ∈ table) : f = g := by
  obtain ⟨slot, found⟩ := List.mem_iff_getElem?.mp member
  have found' := getElem?_of_key distinct (getElem?_keys found) member'
  rw [found] at found'
  exact (Prod.mk.inj (Option.some.inj found')).2

/-- What no class below declares again is inherited. -/
theorem HasTable.mem_of_kept (has : hierarchy.HasTable name table)
    (derives : hierarchy.Derives name base) (has' : hierarchy.HasTable base inherited)
    (member : (key, f) ∈ inherited)
    (kept : ∀ between, hierarchy.Derives name between →
      Relation.TransGen hierarchy.Base between base → ¬ hierarchy.Declares between key) :
    (key, f) ∈ table := by
  induction has with
  | root found none =>
      obtain rfl := eq_of_derives found none derives
      rwa [(HasTable.root found none).unique has']
  | @derived name next cls table found isBase has ih =>
      rcases derives_cases found isBase derives with rfl | rest
      · rwa [(HasTable.derived found isBase has).unique has']
      · have step : hierarchy.Base name next := ⟨cls, found, isBase⟩
        have free := kept name .refl (.head' step rest)
        have old := ih rest fun between derives strictly =>
          kept between (.head step derives) strictly
        exact (mem_extend (hierarchy.distinct name cls found)).mpr
          (.inr ⟨old, fun again => free ⟨cls, found, again⟩⟩)

/-- What is found below is not declared again on the way. -/
theorem HasTable.not_declares (has : hierarchy.HasTable name table)
    (member : (key, f) ∈ table) (found : hierarchy.find base = some cls)
    (declares : (key, f) ∈ cls.declared) {between : C} (below : hierarchy.Derives name between)
    (strictly : Relation.TransGen hierarchy.Base between base) :
    ¬ hierarchy.Declares between key := by
  rintro ⟨cls', found', again⟩
  obtain ⟨⟨_, g⟩, declares', rfl⟩ := List.mem_map.mp again
  induction has with
  | root isClass none =>
      obtain rfl := eq_of_derives isClass none below
      have has := HasTable.root isClass none
      obtain rfl := eq_of_key has.nodup member (has.mem_of_declared found' declares')
      obtain ⟨rfl, -⟩ := hierarchy.owner _ _ _ _ _ _ _ found found' declares declares'
      exact has.not_cycle strictly
  | @derived name next own table isClass isBase has ih =>
      have has' := HasTable.derived isClass isBase has
      rcases derives_cases isClass isBase below with rfl | rest
      · obtain rfl := eq_of_key has'.nodup member (has'.mem_of_declared found' declares')
        obtain ⟨rfl, -⟩ := hierarchy.owner _ _ _ _ _ _ _ found found' declares declares'
        exact has'.not_cycle strictly
      · rcases (mem_extend (hierarchy.distinct _ _ isClass)).mp member with new | ⟨old, -⟩
        · obtain ⟨rfl, -⟩ := hierarchy.owner _ _ _ _ _ _ _ isClass found new declares
          have step : hierarchy.Base name next := ⟨own, isClass, isBase⟩
          exact has'.not_cycle (.head' step (rest.trans strictly.to_reflTransGen))
        · exact ih rest old

/-- In all classes derived from the first an entry is the one that the second declares exactly where
the first is derived from the second, the entry is the one of its key there, and no other class
that is derived from the second, above or below the first, declares the key again. -/
theorem selects_iff {declared : C} (found : hierarchy.find base = some cls)
    (declares : (key, f) ∈ cls.declared) (has : hierarchy.HasTable declared inherited) :
    (∀ name table, hierarchy.Derives name declared → hierarchy.HasTable name table →
        table[slot]?.map (·.2) = some f) ↔
      hierarchy.Derives declared base ∧
        (∃ table, hierarchy.HasTable base table ∧ table[slot]?.map (·.1) = some key) ∧
          ∀ between, Relation.TransGen hierarchy.Base between base →
            hierarchy.Derives between declared ∨ hierarchy.Derives declared between →
              ¬ hierarchy.Declares between key := by
  constructor
  · intro selects
    have member {name : C} {table : List (K × F)} (derives : hierarchy.Derives name declared)
        (has : hierarchy.HasTable name table) :
        table[slot]? = some (key, f) ∧ hierarchy.Derives name base := by
      obtain ⟨⟨other, _⟩, there, rfl⟩ := Option.map_eq_some_iff.mp (selects name table derives has)
      obtain ⟨owner, cls', above, found', declares'⟩ :=
        has.exists_owner (List.mem_of_getElem? there)
      obtain ⟨rfl, rfl⟩ := hierarchy.owner _ _ _ _ _ _ _ found found' declares declares'
      exact ⟨there, above⟩
    obtain ⟨there, derives⟩ := member .refl has
    refine ⟨derives, ?_, ?_⟩
    · obtain ⟨table, hasBase, goesOn⟩ := has.exists_inherited derives
      refine ⟨table, hasBase, ?_⟩
      have here := hasBase.mem_of_declared found declares
      -- the key stands where the table of the base has it, and nowhere else
      obtain ⟨other, isHere⟩ := List.mem_iff_getElem?.mp here
      have isThere := getElem?_of_goesOn goesOn (getElem?_keys isHere)
      have inside := (List.getElem?_eq_some_iff.mp isThere).1
      obtain rfl := (List.getElem?_inj inside has.nodup).mp
        (isThere.trans (getElem?_keys there).symm)
      rw [isHere]
      rfl
    · rintro between strictly (below | above)
      · obtain ⟨table, hasTable⟩ := has.of_derives below
        obtain ⟨there', derives'⟩ := member below hasTable
        exact hasTable.not_declares (List.mem_of_getElem? there') found declares .refl strictly
      · exact has.not_declares (List.mem_of_getElem? there) found declares above strictly
  · rintro ⟨derives, ⟨table, hasBase, isKey⟩, kept⟩ name table' below has'
    have here := hasBase.mem_of_declared found declares
    have chain := below.trans derives
    have member := has'.mem_of_kept chain hasBase here fun between derives' strictly =>
      kept between strictly
        (Relation.ReflTransGen.total_of_right_unique base_unique derives' below)
    obtain ⟨table'', hasBase', goesOn⟩ := has'.exists_inherited chain
    obtain rfl := hasBase.unique hasBase'
    rw [← List.getElem?_map] at isKey
    rw [getElem?_of_key has'.nodup (getElem?_of_goesOn goesOn isKey) member]
    rfl

end Dispatch

end Hierarchy
end VirtualTable
