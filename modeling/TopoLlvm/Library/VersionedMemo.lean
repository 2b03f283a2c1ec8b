import Mathlib.Data.List.AList
import Mathlib.Data.List.Induction

/-!
# Memoised measurements of something that changes

A table keeps the first measurement that is made for each key, while what is measured changes from
version to version.  The measurements that are used are those of the version at hand exactly if no
key is measured in one stretch of a version and used in a later stretch of another.
-/

namespace VersionedMemo

variable {Key Version Value : Type*}

/-- A measurement, or a use of what the table has. -/
inductive Event (Key Version Value : Type*) where
  | measured (key : Key) (version : Version) (value : Value)
  | used (key : Key) (version : Version) (value : Value)

def Event.version : Event Key Version Value → Version
  | measured _ version _ | used _ version _ => version

variable {log earlier later : List (Event Key Version Value)} {key : Key} {version : Version}
  {value : Value}

/-- Every use is of a value that was measured before, on the version at hand. -/
def Fresh (log : List (Event Key Version Value)) : Prop :=
  ∀ before after key version value, log = before ++ .used key version value :: after →
    .measured key version value ∈ before

def Measures (log : List (Event Key Version Value)) (key : Key) : Prop :=
  ∃ version value, .measured key version value ∈ log

def Uses (log : List (Event Key Version Value)) (key : Key) : Prop :=
  ∃ version value, .used key version value ∈ log

/-- There is one measurement for each key, and only what was measured is used. -/
structure Consistent (log : List (Event Key Version Value)) : Prop where
  once : ∀ key first second value other, .measured key first value ∈ log →
    .measured key second other ∈ log → first = second ∧ value = other
  uses : ∀ before after key version value, log = before ++ .used key version value :: after →
    ∃ first, .measured key first value ∈ before

/-- An event at the end of a log is the last one or an earlier one. -/
theorem eq_append_of_concat {last event : Event Key Version Value}
    {before after : List (Event Key Version Value)}
    (split : log ++ [last] = before ++ event :: after) :
    (before = log ∧ event = last) ∨ ∃ rest, log = before ++ event :: rest := by
  rcases List.eq_nil_or_concat after with rfl | ⟨rest, final, rfl⟩
  · obtain ⟨rfl, same⟩ := List.append_inj' split rfl
    exact .inl ⟨rfl, (List.singleton_inj.mp same).symm⟩
  · rw [List.concat_eq_append, ← List.cons_append, ← List.append_assoc] at split
    exact .inr ⟨rest, (List.append_inj' split rfl).1⟩

theorem Consistent.left (consistent : Consistent (earlier ++ later)) : Consistent earlier where
  once key first second value other measured also :=
    consistent.once key first second value other (by simp [measured]) (by simp [also])
  uses before after key version value split :=
    consistent.uses before (after ++ later) key version value (by simp [split])

theorem Fresh.left (fresh : Fresh (earlier ++ later)) : Fresh earlier :=
  fun before after key version value split =>
    fresh before (after ++ later) key version value (by simp [split])

section Table

variable [DecidableEq Key] {table : AList fun _ : Key => Value}

/-- A consistent log whose measurements the table has. -/
structure Records (table : AList fun _ : Key => Value) (log : List (Event Key Version Value)) :
    Prop extends Consistent log where
  lookup : ∀ key value, table.lookup key = some value ↔
    ∃ version, .measured key version value ∈ log

theorem Records.nil :
    Records (∅ : AList fun _ : Key => Value) ([] : List (Event Key Version Value)) where
  lookup := by simp
  once := by simp
  uses := by simp

/-- A measurement for a key that the table does not have. -/
theorem Records.measure (records : Records table log) (absent : table.lookup key = none)
    (version : Version) (value : Value) :
    Records (table.insert key value) (log ++ [.measured key version value]) where
  lookup other found := by
    by_cases same : other = key
    · subst same
      rw [AList.lookup_insert, Option.some.injEq]
      constructor
      · rintro rfl
        exact ⟨version, by simp⟩
      · rintro ⟨first, member⟩
        rcases List.mem_append.mp member with old | new
        · have there := (records.lookup other found).mpr ⟨first, old⟩
          rw [absent] at there
          cases there
        · cases List.mem_singleton.mp new
          rfl
    · rw [AList.lookup_insert_ne same, records.lookup]
      simp [same]
  once other first second one two measured also := by
    have old : ∀ {other first one}, .measured other first one ∈ log → other ≠ key := by
      rintro other first one member rfl
      have there := (records.lookup other one).mpr ⟨first, member⟩
      rw [absent] at there
      cases there
    rcases List.mem_append.mp measured with early | new <;>
      rcases List.mem_append.mp also with alsoEarly | alsoNew
    · exact records.once other first second one two early alsoEarly
    · cases List.mem_singleton.mp alsoNew
      exact absurd rfl (old early)
    · cases List.mem_singleton.mp new
      exact absurd rfl (old alsoEarly)
    · cases List.mem_singleton.mp new
      cases List.mem_singleton.mp alsoNew
      exact ⟨rfl, rfl⟩
  uses before after other first found split := by
    rcases eq_append_of_concat split with ⟨-, last⟩ | ⟨rest, split⟩
    · cases last
    · exact records.uses before rest other first found split

/-- A use of what the table has. -/
theorem Records.use (records : Records table log) (found : table.lookup key = some value)
    (version : Version) : Records table (log ++ [.used key version value]) where
  lookup other there := by simp [records.lookup]
  once other first second one two measured also :=
    records.once other first second one two (by simpa using measured) (by simpa using also)
  uses before after other first there split := by
    rcases eq_append_of_concat split with ⟨rfl, last⟩ | ⟨rest, split⟩
    · cases last
      exact (records.lookup key value).mp found
    · exact records.uses before rest other first there split

end Table

end VersionedMemo
