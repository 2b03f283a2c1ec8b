import TopoLlvm.Library.Lookup
import Mathlib.Data.Multiset.Basic

/-!
# Trees with keys

Trees of arrays, whose items are in order, and objects, whose members have keys.  What a tree
contains is what stands at its paths; two trees with the keys in order that contain the same are
equal.
-/

inductive KeyedTree (K S : Type*) where
  | leaf (value : S)
  | array (items : List (KeyedTree K S))
  | object (members : List (K × KeyedTree K S))

namespace KeyedTree

variable {K S : Type*}

/-- Induction with the claim for every child. -/
@[elab_as_elim]
theorem induct {motive : KeyedTree K S → Prop} (leaf : ∀ value, motive (.leaf value))
    (array : ∀ items, (∀ item ∈ items, motive item) → motive (.array items))
    (object : ∀ members, (∀ member ∈ members, motive member.2) → motive (.object members)) :
    ∀ tree, motive tree
  | .leaf value => leaf value
  | .array items => array items fun item _ => induct leaf array object item
  | .object members => object members fun member _ => induct leaf array object member.2
  termination_by tree => sizeOf tree
  decreasing_by
    · have smaller := List.sizeOf_lt_of_mem ‹item ∈ items›
      simp only [KeyedTree.array.sizeOf_spec]
      omega
    · have smaller := List.sizeOf_lt_of_mem ‹member ∈ members›
      obtain ⟨key, child⟩ := member
      simp only [Prod.mk.sizeOf_spec] at smaller
      simp only [KeyedTree.object.sizeOf_spec]
      omega

/-- No object has a key twice. -/
inductive Distinct : KeyedTree K S → Prop where
  | leaf (value : S) : Distinct (.leaf value)
  | array {items : List (KeyedTree K S)} (each : ∀ item ∈ items, Distinct item) :
      Distinct (.array items)
  | object {members : List (K × KeyedTree K S)} (keys : (members.map (·.1)).Nodup)
      (each : ∀ member ∈ members, Distinct member.2) : Distinct (.object members)

/-- Every object has its keys in order. -/
inductive Sorted [LE K] : KeyedTree K S → Prop where
  | leaf (value : S) : Sorted (.leaf value)
  | array {items : List (KeyedTree K S)} (each : ∀ item ∈ items, Sorted item) :
      Sorted (.array items)
  | object {members : List (K × KeyedTree K S)} (keys : (members.map (·.1)).Pairwise (· ≤ ·))
      (each : ∀ member ∈ members, Sorted member.2) : Sorted (.object members)

/-- The keys of objects, at any depth, in another order. -/
inductive Rearranged : KeyedTree K S → KeyedTree K S → Prop where
  | refl (tree : KeyedTree K S) : Rearranged tree tree
  | trans {tree middle other : KeyedTree K S} (first : Rearranged tree middle)
      (second : Rearranged middle other) : Rearranged tree other
  | members {members others : List (K × KeyedTree K S)} (perm : members.Perm others) :
      Rearranged (.object members) (.object others)
  | item (front : List (KeyedTree K S)) {tree other : KeyedTree K S}
      (back : List (KeyedTree K S)) (inside : Rearranged tree other) :
      Rearranged (.array (front ++ tree :: back)) (.array (front ++ other :: back))
  | member (front : List (K × KeyedTree K S)) (key : K) {tree other : KeyedTree K S}
      (back : List (K × KeyedTree K S)) (inside : Rearranged tree other) :
      Rearranged (.object (front ++ (key, tree) :: back)) (.object (front ++ (key, other) :: back))

/-! ## Contents -/

/-- One step of a path. -/
inductive Step (K : Type*) where
  | index (index : Nat)
  | key (key : K)

/-- What is seen of a tree without its children. -/
inductive Sight (K S : Type*) where
  | leaf (value : S)
  | array (length : Nat)
  | object (keys : Multiset K)

def sight : KeyedTree K S → Sight K S
  | .leaf value => .leaf value
  | .array items => .array items.length
  | .object members => .object (members.map (·.1))

variable [BEq K]

/-- The child at a step. -/
def child? : KeyedTree K S → Step K → Option (KeyedTree K S)
  | .array items, .index index => items[index]?
  | .object members, .key key => members.lookup key
  | .leaf _, _ | .array _, .key _ | .object _, .index _ => none

/-- What stands at a path. -/
def content (tree : KeyedTree K S) : List (Step K) → Option (Sight K S)
  | [] => some tree.sight
  | step :: path => (tree.child? step).bind fun child => child.content path

theorem content_child {tree other child child' : KeyedTree K S}
    (same : tree.content = other.content) (step : Step K) (found : tree.child? step = some child)
    (found' : other.child? step = some child') : child.content = child'.content := by
  funext path
  have here := congrFun same (step :: path)
  rw [content, content, found, found'] at here
  exact here

theorem sight_eq {tree other : KeyedTree K S} (same : tree.content = other.content) :
    tree.sight = other.sight := Option.some.inj (congrFun same [])

/-- Trees that look the same and have children of the same content have the same content. -/
theorem content_ext {tree other : KeyedTree K S} (look : tree.sight = other.sight)
    (children : ∀ step, Option.Rel (fun child child' => child.content = child'.content)
      (tree.child? step) (other.child? step)) : tree.content = other.content := by
  have bound {child child' : Option (KeyedTree K S)} (path : List (Step K))
      (same : Option.Rel (fun child child' => child.content = child'.content) child child') :
      (child.bind fun child => child.content path) =
        child'.bind fun child => child.content path := by
    cases same with
    | none => rfl
    | some same => exact congrFun same path
  funext path
  cases path with
  | nil => exact congrArg some look
  | cons step path => exact bound path (children step)

/-- Trees whose keys are in order are equal where they contain the same. -/
theorem eq_of_content [LawfulBEq K] [LE K] [Std.Antisymm (α := K) (· ≤ ·)]
    {tree other : KeyedTree K S} (distinct : tree.Distinct) (sorted : tree.Sorted)
    (distinct' : other.Distinct) (sorted' : other.Sorted)
    (same : tree.content = other.content) : tree = other := by
  induction tree using induct generalizing other with
  | leaf value =>
      cases other with
      | leaf value' => exact congrArg _ (Sight.leaf.inj (sight_eq same))
      | array _ | object _ => cases sight_eq same
  | array items ih =>
      cases other with
      | array others =>
          cases distinct with | array each =>
          cases sorted with | array eachSorted =>
          cases distinct' with | array each' =>
          cases sorted' with | array eachSorted' =>
          have length := Sight.array.inj (sight_eq same)
          refine congrArg _ (List.ext_getElem length fun n left right => ?_)
          have mem := List.getElem_mem left
          have mem' := List.getElem_mem right
          exact ih _ mem (each _ mem) (eachSorted _ mem) (each' _ mem') (eachSorted' _ mem')
            (content_child same (.index n) (List.getElem?_eq_getElem left)
              (List.getElem?_eq_getElem right))
      | leaf _ | object _ => cases sight_eq same
  | object members ih =>
      cases other with
      | object others =>
          cases distinct with | object keys each =>
          cases sorted with | object order eachSorted =>
          cases distinct' with | object keys' each' =>
          cases sorted' with | object order' eachSorted' =>
          have perm : (members.map (·.1)).Perm (others.map (·.1)) :=
            Multiset.coe_eq_coe.mp (Sight.object.inj (sight_eq same))
          have sameKeys :=
            perm.eq_of_pairwise (fun _ _ _ _ => Std.Antisymm.antisymm _ _) order order'
          have length : members.length = others.length := by
            simpa using congrArg List.length sameKeys
          refine congrArg _ (List.ext_getElem length fun n left right => ?_)
          have mem := List.getElem_mem left
          have mem' := List.getElem_mem right
          have sameKey : members[n].1 = others[n].1 := by
            simpa [List.getElem?_eq_getElem left, List.getElem?_eq_getElem right] using
              congrArg (·[n]?) sameKeys
          refine Prod.ext sameKey (ih _ mem (each _ mem) (eachSorted _ mem) (each' _ mem')
            (eachSorted' _ mem') (content_child same (.key members[n].1) ?_ ?_))
          · exact (Lookup.eq_some_iff keys).mpr mem
          · rw [sameKey]
            exact (Lookup.eq_some_iff keys').mpr mem'
      | leaf _ | array _ => cases sight_eq same

/-! ## Other orders of the keys -/

theorem rel_same (child : Option (KeyedTree K S)) :
    Option.Rel (fun child child' => child.content = child'.content) child child := by
  cases child with
  | none => exact .none
  | some child => exact .some rfl

theorem forall_mem_replace {A : Type*} {holds : A → Prop} {front back : List A} {item other : A}
    (each : ∀ entry ∈ front ++ item :: back, holds entry) (new : holds other) :
    ∀ entry ∈ front ++ other :: back, holds entry := by
  rw [List.forall_mem_append, List.forall_mem_cons] at each ⊢
  exact ⟨each.1, new, each.2.2⟩

/-- The order of the keys does not matter for the content. -/
theorem Rearranged.content [LawfulBEq K] {tree other : KeyedTree K S} (moved : Rearranged tree other)
    (distinct : tree.Distinct) : other.Distinct ∧ tree.content = other.content := by
  induction moved with
  | refl tree => exact ⟨distinct, rfl⟩
  | trans _ _ ih ih' =>
      obtain ⟨distinct, same⟩ := ih distinct
      obtain ⟨distinct, same'⟩ := ih' distinct
      exact ⟨distinct, same.trans same'⟩
  | @members members others perm =>
      cases distinct with | object keys each =>
      refine ⟨.object ((perm.map _).nodup_iff.mp keys) fun member inside =>
        each member (perm.mem_iff.mpr inside), content_ext ?_ fun step => ?_⟩
      · exact congrArg Sight.object (Multiset.coe_eq_coe.mpr (perm.map _))
      · cases step with
        | index _ => exact .none
        | key key =>
            rw [child?, child?, Lookup.perm keys perm]
            exact rel_same _
  | @item front tree other back _ ih =>
      cases distinct with | array each =>
      obtain ⟨distinct, same⟩ := ih (each tree (List.mem_append_right _ List.mem_cons_self))
      refine ⟨.array (forall_mem_replace each distinct), content_ext ?_ fun step => ?_⟩
      · exact congrArg Sight.array (by simp)
      · cases step with
        | key _ => exact .none
        | index index =>
            rw [child?, child?, List.getElem?_append, List.getElem?_append]
            split
            · exact rel_same _
            · cases index - front.length with
              | zero => exact .some same
              | succ index => exact rel_same _
  | @member front key tree other back _ ih =>
      cases distinct with | object keys each =>
      obtain ⟨distinct, same⟩ := ih (each (key, tree) (List.mem_append_right _ List.mem_cons_self))
      have sameKeys : (front ++ (key, tree) :: back).map (·.1) =
          (front ++ (key, other) :: back).map (·.1) := by simp
      refine ⟨.object (sameKeys ▸ keys) (forall_mem_replace each distinct),
        content_ext (congrArg Sight.object (congrArg _ sameKeys)) fun step => ?_⟩
      cases step with
      | index _ => exact .none
      | key wanted =>
          rw [child?, child?, List.lookup_append, List.lookup_append, List.lookup_cons,
            List.lookup_cons]
          cases front.lookup wanted with
          | some child => exact .some rfl
          | none =>
              cases wanted == key with
              | true => exact .some same
              | false => exact rel_same _

end KeyedTree
