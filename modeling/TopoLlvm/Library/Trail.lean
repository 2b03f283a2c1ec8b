import TopoLlvm.Library.Worklist

/-!
# Trails of walks

A walk whose verdicts do not depend on what it has found looks at the uses of a fixed trail, in
depth-first order, up to the first use that ends it.
-/

namespace Worklist

variable {Node User Acc : Type*}

/-- The verdicts are given by the use alone, and what is found is added by every use that does not
end the walk. -/
structure Uniform (use : Node → User → Acc → Verdict Node Acc) (stops : Node × User → Prop)
    (pushes : Node → User → List Node) (add : Acc → Node × User → Acc) : Prop where
  stop : ∀ node user acc, stops (node, user) → use node user acc = .stop acc
  go : ∀ node user acc, ¬ stops (node, user) →
    use node user acc = .go (pushes node user) (add acc (node, user))

section Trail

variable [DecidableEq Node] (pushes : Node → User → List Node) (users : Node → List User)

def trailFrom : Nat → List Node → List Node → List (Node × User)
  | 0, _, _ => []
  | fuel + 1, stack, visited =>
      match stack.dropWhile (· ∈ visited) with
      | [] => []
      | node :: rest =>
          (users node).map (node, ·) ++
            trailFrom fuel (((users node).flatMap (pushes node)).reverse ++ rest) (node :: visited)

/-- The uses in the order in which a walk that is never ended looks at them. -/
def trail (fuel : Nat) (root : Node) : List (Node × User) := trailFrom pushes users fuel [root] []

end Trail

variable {use : Node → User → Acc → Verdict Node Acc} {stops : Node × User → Prop}
  {pushes : Node → User → List Node} {add : Acc → Node × User → Acc}

/-- A use at which the walk is ended, where no use before it ends the walk. -/
def EndsAt (stops : Node × User → Prop) (uses before : List (Node × User)) : Prop :=
  (∀ one ∈ before, ¬ stops one) ∧ ∃ last after, stops last ∧ uses = before ++ last :: after

theorem EndsAt.append {uses before : List (Node × User)} (ends : EndsAt stops uses before)
    (more : List (Node × User)) : EndsAt stops (uses ++ more) before := by
  obtain ⟨none, last, after, stop, rfl⟩ := ends
  exact ⟨none, last, after ++ more, stop, List.append_assoc ..⟩

theorem EndsAt.prepend {front uses before : List (Node × User)}
    (none : ∀ one ∈ front, ¬ stops one) (ends : EndsAt stops uses before) :
    EndsAt stops (front ++ uses) (front ++ before) := by
  obtain ⟨later, last, after, stop, rfl⟩ := ends
  exact ⟨List.forall_mem_append.mpr ⟨none, later⟩, last, after, stop,
    (List.append_assoc ..).symm⟩

/-- The first use that ends the walk comes no later than another one. -/
theorem EndsAt.subset {uses before others after : List (Node × User)} {last : Node × User}
    (ends : EndsAt stops uses before) (split : uses = others ++ last :: after)
    (stop : stops last) : before ⊆ others := by
  obtain ⟨none, first, rest, -, rfl⟩ := ends
  rcases List.append_eq_append_iff.mp split with ⟨more, rfl, -⟩ | ⟨own, rfl, more⟩
  · exact List.subset_append_left ..
  · cases own with
    | nil => exact (List.append_nil others).symm ▸ List.Subset.refl _
    | cons head own =>
        obtain ⟨rfl, -⟩ := List.cons.inj more
        exact absurd stop (none last (List.mem_append_right _ List.mem_cons_self))

theorem scan_trail (uniform : Uniform use stops pushes add) (node : Node) (users : List User)
    (acc : Acc) :
    ((∀ one ∈ users.map (node, ·), ¬ stops one) ∧
        scan (use node) users acc =
          .go (users.flatMap (pushes node)) ((users.map (node, ·)).foldl add acc)) ∨
      ∃ before, EndsAt stops (users.map (node, ·)) before ∧
        scan (use node) users acc = .stop (before.foldl add acc) := by
  induction users generalizing acc with
  | nil => exact .inl ⟨List.forall_mem_nil _, rfl⟩
  | cons user users ih =>
      rw [scan]
      by_cases ends : stops (node, user)
      · rw [uniform.stop node user acc ends]
        exact .inr ⟨[], ⟨List.forall_mem_nil _, (node, user), users.map (node, ·), ends, rfl⟩, rfl⟩
      · rw [uniform.go node user acc ends]
        dsimp only
        rcases ih (add acc (node, user)) with ⟨none, went⟩ | ⟨before, ending, stopped⟩
        · refine .inl ⟨List.forall_mem_cons.mpr ⟨ends, none⟩, ?_⟩
          rw [went]
          rfl
        · refine .inr ⟨[(node, user)] ++ before,
            ending.prepend (List.forall_mem_singleton.mpr ends), ?_⟩
          rw [stopped]
          rfl

variable [DecidableEq Node] {users : Node → List User} {fuel : Nat} {stack visited : List Node}
  {root : Node} {acc : Acc}

theorem search_trail (uniform : Uniform use stops pushes add) :
    ((∀ one ∈ trailFrom pushes users fuel stack visited, ¬ stops one) ∧
        ∃ all, search (fun node => scan (use node) (users node)) fuel stack visited acc =
          .finished all ((trailFrom pushes users fuel stack visited).foldl add acc)) ∨
      ∃ before, EndsAt stops (trailFrom pushes users fuel stack visited) before ∧
        search (fun node => scan (use node) (users node)) fuel stack visited acc =
          .stopped (before.foldl add acc) := by
  induction fuel generalizing stack visited acc with
  | zero => exact .inl ⟨List.forall_mem_nil _, visited, rfl⟩
  | succ fuel ih =>
      rw [search, trailFrom]
      cases stack.dropWhile (· ∈ visited) with
      | nil => exact .inl ⟨List.forall_mem_nil _, visited, rfl⟩
      | cons node rest =>
          dsimp only
          rcases scan_trail uniform node (users node) acc with
            ⟨none, went⟩ | ⟨before, ending, stopped⟩
          · rw [went]
            dsimp only
            rcases @ih (((users node).flatMap (pushes node)).reverse ++ rest) (node :: visited)
              (((users node).map (node, ·)).foldl add acc) with
              ⟨later, all, finished⟩ | ⟨before, ending, stopped⟩
            · refine .inl ⟨List.forall_mem_append.mpr ⟨none, later⟩, all, ?_⟩
              rw [finished, List.foldl_append]
            · refine .inr ⟨(users node).map (node, ·) ++ before, ending.prepend none, ?_⟩
              rw [stopped, List.foldl_append]
          · rw [stopped]
            exact .inr ⟨before, ending.append _, rfl⟩

/-- A walk that is ended has added what stands on its trail before the first use that ends it, and
a walk is ended where there is such a use. -/
theorem walk_trail (uniform : Uniform use stops pushes add) :
    ((∀ one ∈ trail pushes users fuel root, ¬ stops one) ∧
        ∃ all, walk use users fuel root acc =
          .finished all ((trail pushes users fuel root).foldl add acc)) ∨
      ∃ before, EndsAt stops (trail pushes users fuel root) before ∧
        walk use users fuel root acc = .stopped (before.foldl add acc) :=
  search_trail uniform

theorem uses_of_mem_trailFrom {one : Node × User}
    (member : one ∈ trailFrom pushes users fuel stack visited) : one.2 ∈ users one.1 := by
  induction fuel generalizing stack visited with
  | zero => cases member
  | succ fuel ih =>
      rw [trailFrom] at member
      split at member
      · cases member
      · rcases List.mem_append.mp member with member | member
        · obtain ⟨user, uses, rfl⟩ := List.mem_map.mp member
          exact uses
        · exact ih member

/-! ## Routes -/

/-- The nodes that a root leads to through nodes that are not marked. -/
inductive Route (pushes : Node → User → List Node) (users : Node → List User)
    (marked : Node → Prop) (root : Node) : Node → Prop
  | root : Route pushes users marked root root
  | step {node next : Node} {user : User} : Route pushes users marked root node → ¬ marked node →
      user ∈ users node → next ∈ pushes node user → Route pushes users marked root next

/-- Where no use on the trail has marked a node so far, the next use is of a node on such a route. -/
theorem route_of_trailFrom {marks : User → Prop} {before after : List (Node × User)}
    {last : Node × User}
    (stacked : ∀ node ∈ stack,
      Route pushes users (fun node => ∃ user ∈ users node, marks user) root node)
    (split : trailFrom pushes users fuel stack visited = before ++ last :: after)
    (unmarked : ∀ one ∈ before, ¬ marks one.2) :
    Route pushes users (fun node => ∃ user ∈ users node, marks user) root last.1 := by
  induction fuel generalizing stack visited before with
  | zero => cases before <;> cases split
  | succ fuel ih =>
      rw [trailFrom] at split
      cases top : stack.dropWhile (· ∈ visited) with
      | nil =>
          rw [top] at split
          cases before <;> cases split
      | cons node rest =>
          have left (next : Node) (member : next ∈ node :: rest) :=
            stacked next ((List.dropWhile_sublist _).subset (top ▸ member))
          rw [top] at split
          -- where all uses of the node come before, the rest of the trail is looked at
          have goOn {more : List (Node × User)}
              (none : ∀ one ∈ (users node).map (node, ·), ¬ marks one.2)
              (others : trailFrom pushes users fuel
                (((users node).flatMap (pushes node)).reverse ++ rest) (node :: visited) =
                  more ++ last :: after)
              (later : ∀ one ∈ more, ¬ marks one.2) := by
            refine ih (fun next member => ?_) others later
            rcases List.mem_append.mp member with member | member
            · obtain ⟨user, uses, pushed⟩ := List.mem_flatMap.mp (List.mem_reverse.mp member)
              refine .step (left node List.mem_cons_self) ?_ uses pushed
              rintro ⟨user, uses, marked⟩
              exact none (node, user) (List.mem_map_of_mem uses) marked
            · exact left next (List.mem_cons_of_mem _ member)
          rcases List.append_eq_append_iff.mp split with ⟨more, rfl, others⟩ | ⟨own, uses, others⟩
          · rw [List.forall_mem_append] at unmarked
            exact goOn unmarked.1 others unmarked.2
          · cases own with
            | nil =>
                rw [List.append_nil] at uses
                exact @goOn [] (uses ▸ unmarked) others.symm nofun
            | cons first own =>
                obtain ⟨rfl, -⟩ := List.cons.inj others
                have member : last ∈ (users node).map (node, ·) :=
                  uses ▸ List.mem_append_right _ List.mem_cons_self
                obtain ⟨user, -, rfl⟩ := List.mem_map.mp member
                exact left node List.mem_cons_self

theorem route_of_trail (marks : User → Prop) {before after : List (Node × User)}
    {last : Node × User} (split : trail pushes users fuel root = before ++ last :: after)
    (unmarked : ∀ one ∈ before, ¬ marks one.2) :
    Route pushes users (fun node => ∃ user ∈ users node, marks user) root last.1 := by
  refine route_of_trailFrom (fun node member => ?_) split unmarked
  obtain rfl := List.mem_singleton.mp member
  exact .root

end Worklist
