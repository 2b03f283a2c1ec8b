import TopoLlvm.JitEngine.JsonDocument
import TopoLlvm.Library.KeyedTree

/-!
# Sidecar files of pass reports

The keys of a report are sorted at every depth before it is written, so what is written depends on
the content of the report alone.
-/

namespace TopoLlvm
namespace Backend

open JitEngine (Bytes)

/-- `nlohmann::ordered_json`, whose objects keep the order in which the keys came. -/
abbrev OrderedJson (S : Type) := KeyedTree Bytes S

namespace OrderedJson

variable {S : Type}

/-- `j[key] = value` on an object. -/
def assign {V : Type} (key : Bytes) (value : V) : List (Bytes × V) → List (Bytes × V)
  | [] => [(key, value)]
  | entry :: rest =>
      if entry.1 = key then (key, value) :: rest else entry :: assign key value rest

/-- `sortKeys`. -/
def sortKeys : OrderedJson S → OrderedJson S
  | .object members =>
      let pairs := members.mergeSort fun a b => a.1 ≤ b.1
      .object (pairs.attach.foldl (fun j pair => assign pair.1.1 (sortKeys pair.1.2) j) [])
  | .array items => .array (items.map sortKeys)
  | .leaf value => .leaf value
  termination_by j => sizeOf j
  decreasing_by
    · obtain ⟨⟨key, child⟩, inside⟩ := pair
      have smaller := List.sizeOf_lt_of_mem (List.mem_mergeSort.mp inside)
      simp only [Prod.mk.sizeOf_spec] at smaller
      simp only [KeyedTree.object.sizeOf_spec]
      omega
    · have smaller := List.sizeOf_lt_of_mem ‹_ ∈ items›
      simp only [KeyedTree.array.sizeOf_spec]
      omega

/-- The text of a sidecar file, where the value is dumped as it is. -/
def sidecarText (dump : OrderedJson S → Bytes) (body : OrderedJson S) : Bytes :=
  dump (sortKeys body) ++ [0x0A]

theorem assign_of_notMem {V : Type} {key : Bytes} (value : V) {entries : List (Bytes × V)}
    (fresh : key ∉ entries.map (·.1)) : assign key value entries = entries ++ [(key, value)] := by
  induction entries with
  | nil => rfl
  | cons entry entries ih =>
      obtain ⟨apart, later⟩ := not_or.mp (mt List.mem_cons.mpr fresh)
      rw [assign, if_neg (Ne.symm apart), ih later]
      rfl

/-- Keys that are new are assigned at the end. -/
theorem foldl_assign {V W : Type} (map : V → W) (pairs : List (Bytes × V))
    (entries : List (Bytes × W)) (fresh : (entries.map (·.1) ++ pairs.map (·.1)).Nodup) :
    pairs.foldl (fun j pair => assign pair.1 (map pair.2) j) entries =
      entries ++ pairs.map (Prod.map id map) := by
  induction pairs generalizing entries with
  | nil => exact (List.append_nil _).symm
  | cons pair pairs ih =>
      have here : pair.1 ∉ entries.map (·.1) := fun member =>
        List.disjoint_of_nodup_append fresh member List.mem_cons_self
      rw [List.foldl_cons, assign_of_notMem _ here, ih, List.map_cons, List.append_assoc]
      · rfl
      · simpa using fresh

/-- The members in the order of their keys. -/
abbrev inOrder (members : List (Bytes × OrderedJson S)) : List (Bytes × OrderedJson S) :=
  members.mergeSort fun a b => a.1 ≤ b.1

theorem pairwise_inOrder (members : List (Bytes × OrderedJson S)) :
    ((inOrder members).map (·.1)).Pairwise (· ≤ ·) := by
  refine List.pairwise_map.mpr (List.Pairwise.imp of_decide_eq_true ?_)
  refine List.pairwise_mergeSort (fun a b c first second => ?_) (fun a b => ?_) members
  · exact decide_eq_true (Std.le_trans (of_decide_eq_true first) (of_decide_eq_true second))
  · simpa using Std.le_total (a := a.1) (b := b.1)

theorem sortKeys_object {members : List (Bytes × OrderedJson S)}
    (keys : (members.map (·.1)).Nodup) :
    sortKeys (.object members) = .object ((inOrder members).map (Prod.map id sortKeys)) := by
  have perm := (List.mergeSort_perm members fun a b => a.1 ≤ b.1).map (·.1)
  have loop := foldl_assign sortKeys (inOrder members) []
    (by simpa using perm.nodup_iff.mpr keys)
  rw [sortKeys]
  exact congrArg KeyedTree.object (List.foldl_attach.trans loop)

/-- Sorting puts the keys in order and keeps the content. -/
theorem sortKeys_content {j : OrderedJson S} (distinct : j.Distinct) :
    (sortKeys j).Distinct ∧ (sortKeys j).Sorted ∧ (sortKeys j).content = j.content := by
  induction j using KeyedTree.induct with
  | leaf value =>
      rw [sortKeys]
      exact ⟨.leaf value, .leaf value, rfl⟩
  | array items ih =>
      cases distinct with | array each =>
      rw [sortKeys]
      refine ⟨.array ?_, .array ?_, KeyedTree.content_ext ?_ fun step => ?_⟩
      · exact List.forall_mem_map.mpr fun item member => (ih item member (each item member)).1
      · exact List.forall_mem_map.mpr fun item member => (ih item member (each item member)).2.1
      · exact congrArg KeyedTree.Sight.array (List.length_map _)
      · cases step with
        | key _ => exact .none
        | index n =>
            rw [KeyedTree.child?, KeyedTree.child?, List.getElem?_map]
            cases found : items[n]? with
            | none => exact .none
            | some item =>
                have member := List.mem_of_getElem? found
                exact .some (ih item member (each item member)).2.2
  | object members ih =>
      cases distinct with | object keys each =>
      have perm := List.mergeSort_perm members fun a b => a.1 ≤ b.1
      have sameKeys : ((inOrder members).map (Prod.map id sortKeys)).map (·.1) =
          (inOrder members).map (·.1) := by simp
      have nodup := (perm.map (·.1)).nodup_iff.mpr keys
      have child (member : Bytes × OrderedJson S) (inside : member ∈ inOrder members) :=
        ih member (perm.mem_iff.mp inside) (each member (perm.mem_iff.mp inside))
      rw [sortKeys_object keys]
      refine ⟨.object (sameKeys ▸ nodup) ?_, .object ?_ ?_, KeyedTree.content_ext ?_ fun step => ?_⟩
      · exact List.forall_mem_map.mpr fun member inside =>
          (child member inside).1
      · rw [sameKeys]
        exact pairwise_inOrder members
      · exact List.forall_mem_map.mpr fun member inside =>
          (child member inside).2.1
      · refine congrArg KeyedTree.Sight.object (Multiset.coe_eq_coe.mpr ?_)
        rw [sameKeys]
        exact perm.map _
      · cases step with
        | index _ => exact .none
        | key key =>
            rw [KeyedTree.child?, KeyedTree.child?, Lookup.map, Lookup.perm nodup perm]
            cases found : members.lookup key with
            | none => exact .none
            | some value =>
                have member := (Lookup.eq_some_iff keys).mp found
                exact .some (ih _ member (each _ member)).2.2

/-- What is sorted depends on the content alone. -/
theorem sortKeys_eq {j other : OrderedJson S} (distinct : j.Distinct) (distinct' : other.Distinct)
    (same : j.content = other.content) : sortKeys j = sortKeys other := by
  obtain ⟨keys, sorted, content⟩ := sortKeys_content distinct
  obtain ⟨keys', sorted', content'⟩ := sortKeys_content distinct'
  exact KeyedTree.eq_of_content keys sorted keys' sorted' (by rw [content, content', same])

/-- Sorting keeps the content, array by array, and gives the same for every order of the keys at any
depth; sorting twice is sorting once, and values of one content are written as the same bytes. -/
theorem sortKeys_canonical (j : OrderedJson S) (distinct : j.Distinct) :
    (sortKeys j).content = j.content ∧
      (∀ other : OrderedJson S, j.Rearranged other → sortKeys other = sortKeys j) ∧
      (∀ other : OrderedJson S, other.Distinct → other.content = j.content →
        sortKeys other = sortKeys j) ∧
      sortKeys (sortKeys j) = sortKeys j ∧
      ∀ (dump : OrderedJson S → Bytes) (other : OrderedJson S), other.Distinct →
        other.content = j.content → sidecarText dump other = sidecarText dump j := by
  obtain ⟨keys, -, content⟩ := sortKeys_content distinct
  refine ⟨content, fun other moved => ?_, fun other distinct' same =>
    sortKeys_eq distinct' distinct same, sortKeys_eq keys distinct content,
    fun dump other distinct' same => ?_⟩
  · obtain ⟨distinct', same⟩ := moved.content distinct
    exact sortKeys_eq distinct' distinct same.symm
  · rw [sidecarText, sidecarText, sortKeys_eq distinct' distinct same]

/-- An object with two keys out of order, the second of which holds an array. -/
def report : OrderedJson Nat :=
  .object [([0x72], .leaf 1), ([0x65], .array [.object [([0x62], .leaf 2), ([0x61], .leaf 3)]])]

theorem distinct_report : report.Distinct := by
  refine .object (by decide) ?_
  simp only [List.forall_mem_cons, List.not_mem_nil, false_imp_iff, implies_true, and_true]
  refine ⟨.leaf 1, .array (List.forall_mem_singleton.mpr (.object (by decide) ?_))⟩
  simp only [List.forall_mem_cons, List.not_mem_nil, false_imp_iff, implies_true, and_true]
  exact ⟨.leaf 2, .leaf 3⟩

theorem sortKeys_report :
    sortKeys (S := Nat) (.object [([0x65], .array [.object [([0x62], .leaf 2),
      ([0x61], .leaf 3)]]), ([0x72], .leaf 1)]) = sortKeys report ∧
      sortKeys (sortKeys report) = sortKeys report := by
  have canonical := sortKeys_canonical report distinct_report
  exact ⟨canonical.2.1 _ (.members (.swap _ _ _)), canonical.2.2.2.1⟩

end OrderedJson

end Backend
end TopoLlvm
