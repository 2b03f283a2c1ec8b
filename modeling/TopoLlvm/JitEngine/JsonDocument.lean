import TopoLlvm.Library.Json
import Mathlib.Algebra.Ring.Nat
import Mathlib.Data.List.Induction

/-!
# JSON documents in C++

What the engine asks of a parsed document.  Objects are maps ordered by key in which a later member
replaces an earlier one; a value of another kind than the one asked for is a type error, modelled
as no result.
-/

namespace TopoLlvm
namespace JitEngine

open Json (Value)

/-- A `std::string` as its bytes. -/
abbrev Bytes := List UInt8

def utf8 (chars : List Char) : Bytes := chars.flatMap String.utf8EncodeChar

/-- A parser of documents; no result where the document is discarded. -/
abbrev Parser := Bytes → Option Value

/-- The parser implements RFC 8259 and discards a document that is none. -/
def Conforms (parse : Parser) : Prop :=
  ∀ bytes value, parse bytes = some value ↔
    ∃ text, bytes = utf8 text ∧ Json.Spells text value

/-- `map[key] = value` on a map in the order of its keys. -/
def assign {V : Type} (key : List Char) (value : V) :
    List (List Char × V) → List (List Char × V)
  | [] => [(key, value)]
  | entry :: map =>
      if key < entry.1 then (key, value) :: entry :: map
      else if key = entry.1 then (key, value) :: map
      else entry :: assign key value map

/-- The map of an object's members. -/
def entries {V : Type} (members : List (List Char × V)) : List (List Char × V) :=
  members.foldl (fun map member => assign member.1 member.2 map) []

/-- `contains` and `operator[]`: the member of an object. -/
def member? (key : List Char) : Value → Option Value
  | .object members => (entries members).lookup key
  | .null | .boolean _ | .number _ | .string _ | .array _ => none

/-- The values that a loop over a value visits. -/
def elements : Value → List Value
  | .null => []
  | .array items => items
  | .object members => (entries members).map (·.2)
  | value => [value]

/-- The keys and values of `items()`. -/
def items : Value → List (List Char × Value)
  | .null => []
  | .array items => items.zipIdx.map fun (item, index) => (Nat.toDigits 10 index, item)
  | .object members => entries members
  | value => [([], value)]

/-- `get<std::string>()`. -/
def getString : Value → Option Bytes
  | .string chars => some (utf8 chars)
  | .null | .boolean _ | .number _ | .array _ | .object _ => none

/-- `value(key, "")`. -/
def valueString (key : List Char) : Value → Option Bytes
  | .object members => ((entries members).lookup key).elim (some []) getString
  | .null | .boolean _ | .number _ | .string _ | .array _ => none

/-- The number of a value that is an unsigned number. -/
def getUnsigned? : Value → Option UInt64
  | .number lexeme =>
      if lexeme.all Char.isDigit ∧ Nat.ofDigitChars 10 lexeme 0 < 2 ^ 64 then
        some (UInt64.ofNat (Nat.ofDigitChars 10 lexeme 0))
      else none
  | .null | .boolean _ | .string _ | .array _ | .object _ => none

/-! ## Maps -/

theorem lookup_cons {V : Type} (key : List Char) (entry : List Char × V)
    (map : List (List Char × V)) :
    (entry :: map).lookup key = if key = entry.1 then some entry.2 else map.lookup key := by
  rw [List.lookup_cons]
  by_cases here : key = entry.1
  · simp [here]
  · rw [beq_eq_false_iff_ne.mpr here, if_neg here]

theorem lookup_assign {V : Type} (key other : List Char) (value : V)
    (map : List (List Char × V)) :
    (assign key value map).lookup other = if other = key then some value else map.lookup other := by
  induction map with
  | nil => rw [assign, lookup_cons]
  | cons entry map ih =>
      rw [assign]
      split
      · rw [lookup_cons]
      · split
        · rename_i same
          rw [lookup_cons, lookup_cons, ← same]
          split <;> rfl
        · rename_i apart
          rw [lookup_cons, lookup_cons, ih]
          by_cases here : other = key
          · rw [if_neg fun same => apart (here.symm.trans same), if_pos here, if_pos here]
          · rw [if_neg here, if_neg here]

/-- The map has the last member of each key. -/
theorem lookup_entries {V : Type} (members : List (List Char × V)) (key : List Char) :
    (entries members).lookup key = members.reverse.lookup key := by
  induction members using List.reverseRecOn with
  | nil => rfl
  | append_singleton members last ih =>
      rw [entries, List.foldl_append, List.foldl_cons, List.foldl_nil, lookup_assign,
        List.reverse_append, List.reverse_singleton, List.singleton_append, lookup_cons, ← ih]
      rfl

theorem lookup_reverse {V : Type} {members : List (List Char × V)}
    (distinct : (members.map (·.1)).Nodup) (key : List Char) :
    members.reverse.lookup key = members.lookup key := by
  induction members with
  | nil => rfl
  | cons member members ih =>
      obtain ⟨fresh, rest⟩ := List.nodup_cons.mp distinct
      rw [List.reverse_cons, List.lookup_append, ih rest, lookup_cons, lookup_cons]
      by_cases here : key = member.1
      · have absent : members.lookup key = none := by
          refine List.lookup_eq_none_iff.mpr fun other inside => ?_
          exact bne_iff_ne.mpr fun same =>
            fresh (List.mem_map.mpr ⟨other, inside, (here.symm.trans same).symm⟩)
        rw [absent, if_pos here, if_pos here]
        rfl
      · rw [if_neg here, if_neg here]
        cases members.lookup key <;> rfl

theorem assign_perm {V : Type} {key : List Char} (value : V) {map : List (List Char × V)}
    (fresh : key ∉ map.map (·.1)) : (assign key value map).Perm ((key, value) :: map) := by
  induction map with
  | nil => exact .refl _
  | cons entry map ih =>
      rw [List.map_cons, List.mem_cons, not_or] at fresh
      rw [assign]
      split
      · exact .refl _
      · rw [if_neg fresh.1]
        exact ((ih fresh.2).cons entry).trans (.swap ..)

/-- Members with distinct keys are all in the map. -/
theorem entries_perm {V : Type} {members : List (List Char × V)}
    (distinct : (members.map (·.1)).Nodup) : (entries members).Perm members := by
  induction members using List.reverseRecOn with
  | nil => exact .refl _
  | append_singleton members last ih =>
      rw [List.map_append, List.nodup_append] at distinct
      have before := ih distinct.1
      rw [entries, List.foldl_append, ← entries, List.foldl_cons, List.foldl_nil]
      refine (assign_perm last.2 ?_).trans ((before.cons last).trans
        (List.perm_append_singleton last members).symm)
      rw [(before.map _).mem_iff]
      exact fun member => distinct.2.2 _ member last.1 (by simp) rfl

theorem mem_keys_assign {V : Type} {key other : List Char} {value : V}
    {map : List (List Char × V)} (member : other ∈ (assign key value map).map (·.1)) :
    other = key ∨ other ∈ map.map (·.1) := by
  induction map with
  | nil => simpa [assign] using member
  | cons entry map ih =>
      rw [assign] at member
      split at member
      · simpa using member
      · split at member
        · rename_i same
          rw [List.map_cons, List.mem_cons] at member ⊢
          exact member.imp_right .inr
        · rw [List.map_cons, List.mem_cons] at member ⊢
          rcases member with rfl | later
          · exact .inr (.inl rfl)
          · exact (ih later).imp_right .inr

/-- The keys of a map are increasing. -/
def Increasing {V : Type} (map : List (List Char × V)) : Prop :=
  map.Pairwise fun entry later => entry.1 < later.1

theorem Increasing.assign {V : Type} {map : List (List Char × V)} (increasing : Increasing map)
    (key : List Char) (value : V) : Increasing (assign key value map) := by
  induction map with
  | nil => exact List.pairwise_singleton _ _
  | cons entry map ih =>
      obtain ⟨first, rest⟩ := List.pairwise_cons.mp increasing
      rw [JitEngine.assign]
      split
      · rename_i before
        refine List.pairwise_cons.mpr ⟨?_, increasing⟩
        intro later member
        rcases List.mem_cons.mp member with rfl | inside
        · exact before
        · exact List.lt_trans before (first later inside)
      · rename_i notBefore
        split
        · rename_i same
          exact List.pairwise_cons.mpr ⟨fun later member => same ▸ first later member, rest⟩
        · rename_i apart
          refine List.pairwise_cons.mpr ⟨?_, ih rest⟩
          intro later member
          have known : later.1 ∈ (JitEngine.assign key value map).map (·.1) :=
            List.mem_map_of_mem member
          rcases mem_keys_assign known with same | inside
          · rw [same]
            exact (List.le_iff_lt_or_eq.mp notBefore).resolve_right fun same => apart same.symm
          · obtain ⟨old, oldMember, same⟩ := List.mem_map.mp inside
            rw [← same]
            exact first old oldMember

theorem increasing_entries {V : Type} (members : List (List Char × V)) :
    Increasing (entries members) :=
  List.foldlRecOn (motive := Increasing) _ _ List.Pairwise.nil fun _ increasing member _ =>
    increasing.assign member.1 member.2

theorem nodup_entries {V : Type} (members : List (List Char × V)) :
    ((entries members).map (·.1)).Nodup :=
  List.pairwise_map.mpr <| (increasing_entries members).imp fun {entry later} before =>
    fun same : entry.1 = later.1 => List.lt_irrefl _ (same ▸ before)

theorem assign_map {V W : Type} (map : V → W) (key : List Char) (value : V)
    (members : List (List Char × V)) :
    assign key (map value) (members.map (Prod.map id map)) =
      (assign key value members).map (Prod.map id map) := by
  induction members with
  | nil => rfl
  | cons entry members ih =>
      rw [assign, List.map_cons, assign, Prod.map_fst, id]
      split
      · rfl
      · split
        · rfl
        · rw [ih, List.map_cons]

/-- A map of values goes through the map of members. -/
theorem entries_map {V W : Type} (map : V → W) (members : List (List Char × V)) :
    entries (members.map (Prod.map id map)) = (entries members).map (Prod.map id map) := by
  induction members using List.reverseRecOn with
  | nil => rfl
  | append_singleton members last ih =>
      simp only [entries, List.map_append, List.map_cons, List.map_nil, List.foldl_append,
        List.foldl_cons, List.foldl_nil] at ih ⊢
      rw [ih]
      exact assign_map map last.1 last.2 _

end JitEngine
end TopoLlvm
