import Mathlib.Data.List.Perm.Subperm
import Mathlib.Data.List.TakeWhile

/-!
# Worklists

Nodes are taken from a stack and visited once; a visit pushes more nodes and adds to an
accumulator, or ends the search.  A search that is not ended visits a set of nodes that is closed
under the pushes of its members.
-/

namespace Worklist

variable {Node Acc : Type*}

/-- What a visit says: end the search, or go on with more nodes on the stack. -/
inductive Verdict (Node Acc : Type*) where
  | stop (acc : Acc)
  | go (pushed : List Node) (acc : Acc)

/-- The accumulator that the visit leaves. -/
def Verdict.acc : Verdict Node Acc → Acc
  | stop acc | go _ acc => acc

inductive Outcome (Node Acc : Type*) where
  | stopped (acc : Acc)
  | finished (visited : List Node) (acc : Acc)

def Outcome.acc : Outcome Node Acc → Acc
  | stopped acc | finished _ acc => acc

/-! ## One visit -/

section Scan

variable {User : Type*}

/-- Look at the users of a node, one after the other. -/
def scan (use : User → Acc → Verdict Node Acc) : List User → Acc → Verdict Node Acc
  | [], acc => .go [] acc
  | user :: users, acc =>
      match use user acc with
      | .stop acc => .stop acc
      | .go pushed acc =>
          match scan use users acc with
          | .stop acc => .stop acc
          | .go more acc => .go (pushed ++ more) acc

variable {use : User → Acc → Verdict Node Acc} {users : List User} {acc last : Acc}
  {pushed : List Node}

theorem scan_keeps (kept : Acc → Prop) (holds : kept acc)
    (keeps : ∀ user ∈ users, ∀ acc, kept acc → kept (use user acc).acc) :
    kept (scan use users acc).acc := by
  induction users generalizing acc with
  | nil => exact holds
  | cons user users ih =>
      rw [List.forall_mem_cons] at keeps
      have here := keeps.1 acc holds
      rw [scan]
      cases verdict : use user acc with
      | stop after =>
          rw [verdict] at here
          exact here
      | go pushed after =>
          rw [verdict] at here
          have rest : kept (scan use users after).acc := ih here keeps.2
          dsimp only
          cases more : scan use users after <;> rw [more] at rest <;> exact rest

theorem exists_stop_of_scan (stopped : scan use users acc = .stop last) :
    ∃ user ∈ users, ∃ before, use user before = .stop last := by
  induction users generalizing acc with
  | nil => cases stopped
  | cons user users ih =>
      rw [scan] at stopped
      cases verdict : use user acc with
      | stop after =>
          rw [verdict] at stopped
          cases stopped
          exact ⟨user, List.mem_cons_self, acc, verdict⟩
      | go pushed after =>
          rw [verdict] at stopped
          dsimp only at stopped
          cases more : scan use users after with
          | stop final =>
              rw [more] at stopped
              cases stopped
              obtain ⟨later, member, before, stops⟩ := ih more
              exact ⟨later, List.mem_cons_of_mem _ member, before, stops⟩
          | go _ _ => simp [more] at stopped

/-- What is pushed comes from the uses. -/
theorem exists_push_of_scan (went : scan use users acc = .go pushed last) {node : Node}
    (member : node ∈ pushed) :
    ∃ user ∈ users, ∃ before some after, use user before = .go some after ∧ node ∈ some := by
  induction users generalizing acc pushed with
  | nil =>
      cases went
      cases member
  | cons user users ih =>
      rw [scan] at went
      cases verdict : use user acc with
      | stop after => simp [verdict] at went
      | go first after =>
          rw [verdict] at went
          dsimp only at went
          cases more : scan use users after with
          | stop final => simp [more] at went
          | go rest final =>
              rw [more] at went
              cases went
              rcases List.mem_append.mp member with member | member
              · exact ⟨user, List.mem_cons_self, acc, first, after, verdict, member⟩
              · obtain ⟨later, there, found⟩ := ih more member
                exact ⟨later, List.mem_cons_of_mem _ there, found⟩

/-- A scan to the end pushes what every use pushes, and grows through every use. -/
theorem use_of_scan (grows : Acc → Acc → Prop) (refl : ∀ acc, grows acc acc)
    (trans : ∀ first second third, grows first second → grows second third → grows first third)
    (grow : ∀ user acc, grows acc (use user acc).acc)
    (went : scan use users acc = .go pushed last) {user : User} (member : user ∈ users) :
    ∃ before some after, use user before = .go some after ∧ some ⊆ pushed ∧ grows after last := by
  have grown (users : List User) (acc : Acc) : grows acc (scan use users acc).acc :=
    scan_keeps (grows acc) (refl acc) fun user _ after before => trans _ _ _ before (grow user after)
  induction users generalizing acc pushed with
  | nil => cases member
  | cons head users ih =>
      rw [scan] at went
      cases verdict : use head acc with
      | stop after => simp [verdict] at went
      | go first after =>
          rw [verdict] at went
          dsimp only at went
          cases more : scan use users after with
          | stop final => simp [more] at went
          | go rest final =>
              rw [more] at went
              cases went
              rcases List.mem_cons.mp member with rfl | member
              · refine ⟨acc, first, after, verdict, List.subset_append_left .., ?_⟩
                simpa [more, Verdict.acc] using grown users after
              · obtain ⟨before, some, final, used, inside, growth⟩ := ih more member
                exact ⟨before, some, final, used,
                  fun _ member => List.mem_append_right _ (inside member), growth⟩

end Scan

/-! ## The search -/

section Search

variable [DecidableEq Node] (visit : Node → Acc → Verdict Node Acc)

/-- Visit at most a number of nodes. -/
def search : Nat → List Node → List Node → Acc → Outcome Node Acc
  | 0, _, visited, acc => .finished visited acc
  | fuel + 1, stack, visited, acc =>
      match stack.dropWhile (· ∈ visited) with
      | [] => .finished visited acc
      | node :: rest =>
          match visit node acc with
          | .stop acc => .stopped acc
          | .go pushed acc => search fuel (pushed.reverse ++ rest) (node :: visited) acc

variable {visit} {fuel : Nat} {stack visited : List Node} {acc : Acc}

/-- What holds of the first nodes and of pushed ones holds of all visited nodes, and what visits
of such nodes keep holds of the accumulator. -/
theorem search_induction (reached : Node → Prop) (kept : Acc → Prop)
    (pushes : ∀ node acc pushed after, reached node → visit node acc = .go pushed after →
      ∀ next ∈ pushed, reached next)
    (keeps : ∀ node acc, reached node → kept acc → kept (visit node acc).acc)
    (stacked : ∀ node ∈ stack, reached node) (before : ∀ node ∈ visited, reached node)
    (holds : kept acc) :
    kept (search visit fuel stack visited acc).acc ∧
      ∀ all last, search visit fuel stack visited acc = .finished all last →
        ∀ node ∈ all, reached node := by
  induction fuel generalizing stack visited acc with
  | zero =>
      refine ⟨holds, fun all last finished => ?_⟩
      cases finished
      exact before
  | succ fuel ih =>
      rw [search]
      cases top : stack.dropWhile (· ∈ visited) with
      | nil =>
          refine ⟨holds, fun all last finished => ?_⟩
          cases finished
          exact before
      | cons node rest =>
          have left (next : Node) (member : next ∈ node :: rest) : reached next :=
            stacked next ((List.dropWhile_sublist _).subset (top ▸ member))
          have here := left node List.mem_cons_self
          have keep := keeps node acc here holds
          dsimp only
          cases verdict : visit node acc with
          | stop after =>
              rw [verdict] at keep
              exact ⟨keep, fun _ _ finished => nomatch finished⟩
          | go pushed after =>
              rw [verdict] at keep
              refine ih (fun next member => ?_) ?_ keep
              · rcases List.mem_append.mp member with member | member
                · exact pushes node acc pushed after here verdict next (List.mem_reverse.mp member)
                · exact left next (List.mem_cons_of_mem _ member)
              · rw [List.forall_mem_cons]
                exact ⟨here, before⟩

/-- A search that is ended has visited a node that ends it. -/
theorem exists_stop_of_stopped (reached : Node → Prop) {last : Acc}
    (pushes : ∀ node acc pushed after, reached node → visit node acc = .go pushed after →
      ∀ next ∈ pushed, reached next)
    (stacked : ∀ node ∈ stack, reached node)
    (stopped : search visit fuel stack visited acc = .stopped last) :
    ∃ node before, reached node ∧ visit node before = .stop last := by
  induction fuel generalizing stack visited acc with
  | zero => cases stopped
  | succ fuel ih =>
      rw [search] at stopped
      cases top : stack.dropWhile (· ∈ visited) with
      | nil => simp [top] at stopped
      | cons node rest =>
          have left (next : Node) (member : next ∈ node :: rest) : reached next :=
            stacked next ((List.dropWhile_sublist _).subset (top ▸ member))
          have here := left node List.mem_cons_self
          rw [top] at stopped
          dsimp only at stopped
          cases verdict : visit node acc with
          | stop after =>
              rw [verdict] at stopped
              cases stopped
              exact ⟨node, acc, here, verdict⟩
          | go pushed after =>
              rw [verdict] at stopped
              refine ih (fun next member => ?_) stopped
              rcases List.mem_append.mp member with member | member
              · exact pushes node acc pushed after here verdict next (List.mem_reverse.mp member)
              · exact left next (List.mem_cons_of_mem _ member)

/-- With a visit for every node there is, a search that is not ended has visited the first nodes
and all that visited nodes push, and its accumulator has grown through every visit. -/
theorem closed_of_finished (grows : Acc → Acc → Prop) (refl : ∀ acc, grows acc acc)
    (trans : ∀ first second third, grows first second → grows second third → grows first third)
    (grow : ∀ node acc, grows acc (visit node acc).acc) {nodes : List Node}
    (within : ∀ node ∈ nodes, ∀ acc pushed after, visit node acc = .go pushed after →
      pushed ⊆ nodes)
    (stacked : stack ⊆ nodes) (nodup : visited.Nodup) (inside : visited ⊆ nodes)
    (enough : nodes.length ≤ visited.length + fuel) {all : List Node} {last : Acc}
    (finished : search visit fuel stack visited acc = .finished all last) :
    stack ⊆ all ∧ visited ⊆ all ∧ grows acc last ∧
      ∀ node ∈ all, node ∉ visited → ∃ before pushed after,
        visit node before = .go pushed after ∧ pushed ⊆ all ∧ grows after last := by
  induction fuel generalizing stack visited acc with
  | zero =>
      cases finished
      -- All nodes have been visited.
      have whole : nodes ⊆ all :=
        ((List.subperm_of_subset nodup inside).perm_of_length_le enough).symm.subset
      exact ⟨fun node member => whole (stacked member), fun _ => id, refl last,
        fun node member absent => absurd member absent⟩
  | succ fuel ih =>
      rw [search] at finished
      have skipped (node : Node) (member : node ∈ stack) :
          node ∈ visited ∨ node ∈ stack.dropWhile (· ∈ visited) := by
        rw [← List.takeWhile_append_dropWhile (p := (· ∈ visited)) (l := stack)] at member
        rcases List.mem_append.mp member with member | member
        · exact .inl (by simpa using List.mem_takeWhile_imp member)
        · exact .inr member
      cases top : stack.dropWhile (· ∈ visited) with
      | nil =>
          rw [top] at finished
          cases finished
          refine ⟨fun node member => (skipped node member).resolve_right ?_, fun _ => id, refl last,
            fun node member absent => absurd member absent⟩
          rw [top]
          exact List.not_mem_nil
      | cons node rest =>
          have fresh : node ∉ visited := by
            have := List.head?_dropWhile_not (fun next => decide (next ∈ visited)) stack
            simpa [top] using this
          have left : node :: rest ⊆ nodes := fun next member =>
            stacked ((List.dropWhile_sublist _).subset (top ▸ member))
          have here := left List.mem_cons_self
          rw [top] at finished
          dsimp only at finished
          have growth := grow node acc
          cases verdict : visit node acc with
          | stop after => simp [verdict] at finished
          | go pushed after =>
              rw [verdict] at finished growth
              have pushedInside := within node here acc pushed after verdict
              obtain ⟨stackAll, visitedAll, grown, closed⟩ := ih
                (fun next member => (List.mem_append.mp member).elim
                  (fun member => pushedInside (List.mem_reverse.mp member))
                  (fun member => left (List.mem_cons_of_mem _ member)))
                (List.nodup_cons.mpr ⟨fresh, nodup⟩)
                (List.cons_subset.mpr ⟨here, inside⟩)
                (by simpa [Nat.add_right_comm, Nat.add_assoc] using enough) finished
              rw [List.cons_subset] at visitedAll
              refine ⟨fun next member => ?_, visitedAll.2, trans _ _ _ growth grown,
                fun next member absent => ?_⟩
              · rcases skipped next member with member | member
                · exact visitedAll.2 member
                · rw [top] at member
                  rcases List.mem_cons.mp member with rfl | member
                  · exact visitedAll.1
                  · exact stackAll (List.mem_append_right _ member)
              · by_cases same : next = node
                · subst same
                  exact ⟨acc, pushed, after, verdict, fun other member =>
                    stackAll (List.mem_append_left _ (List.mem_reverse.mpr member)), grown⟩
                · exact closed next member (by simp [same, absent])

end Search

/-! ## Walks over users -/

section Walk

variable {User : Type*} [DecidableEq Node] (use : Node → User → Acc → Verdict Node Acc)
  (users : Node → List User)

/-- Look at all users of the nodes that a root leads to. -/
def walk (fuel : Nat) (root : Node) (acc : Acc) : Outcome Node Acc :=
  search (fun node => scan (use node) (users node)) fuel [root] [] acc

variable {use users} {fuel : Nat} {root : Node} {acc last : Acc}

omit [DecidableEq Node] in
theorem pushed_of_scan {reached : Node → Prop}
    (pushes : ∀ node user acc pushed after, reached node → user ∈ users node →
      use node user acc = .go pushed after → ∀ next ∈ pushed, reached next)
    (node : Node) (acc : Acc) (pushed : List Node) (after : Acc) (here : reached node)
    (went : scan (use node) (users node) acc = .go pushed after) :
    ∀ next ∈ pushed, reached next := by
  intro next member
  obtain ⟨user, uses, before, some, final, used, inside⟩ := exists_push_of_scan went member
  exact pushes node user before some final here uses used next inside

/-- What uses of reached nodes keep holds of the accumulator in the end. -/
theorem walk_induction (reached : Node → Prop) (kept : Acc → Prop)
    (pushes : ∀ node user acc pushed after, reached node → user ∈ users node →
      use node user acc = .go pushed after → ∀ next ∈ pushed, reached next)
    (keeps : ∀ node user acc, reached node → user ∈ users node → kept acc →
      kept (use node user acc).acc)
    (first : reached root) (holds : kept acc) : kept (walk use users fuel root acc).acc :=
  (search_induction reached kept (pushed_of_scan pushes)
    (fun node _ here before => scan_keeps kept before fun user uses acc held =>
      keeps node user acc here uses held)
    (fun _ member => List.mem_singleton.mp member ▸ first)
    (fun _ member => (List.not_mem_nil member).elim) holds).1

/-- A walk that is ended has met a use that ends it. -/
theorem exists_stop_of_walk (reached : Node → Prop)
    (pushes : ∀ node user acc pushed after, reached node → user ∈ users node →
      use node user acc = .go pushed after → ∀ next ∈ pushed, reached next)
    (first : reached root) (stopped : walk use users fuel root acc = .stopped last) :
    ∃ node user before, reached node ∧ user ∈ users node ∧ use node user before = .stop last := by
  obtain ⟨node, before, here, stops⟩ := exists_stop_of_stopped reached (pushed_of_scan pushes)
    (fun _ member => List.mem_singleton.mp member ▸ first) stopped
  obtain ⟨user, uses, acc, stop⟩ := exists_stop_of_scan stops
  exact ⟨node, user, acc, here, uses, stop⟩

/-- A walk that is not ended has visited the root and what every use of a visited node pushes. -/
theorem walk_closed (grows : Acc → Acc → Prop) (refl : ∀ acc, grows acc acc)
    (trans : ∀ first second third, grows first second → grows second third → grows first third)
    (grow : ∀ node user acc, grows acc (use node user acc).acc) {nodes : List Node}
    (within : ∀ node user acc pushed after, user ∈ users node →
      use node user acc = .go pushed after → pushed ⊆ nodes)
    (inside : root ∈ nodes) (enough : nodes.length ≤ fuel) {all : List Node}
    (finished : walk use users fuel root acc = .finished all last) :
    root ∈ all ∧ ∀ node ∈ all, ∀ user ∈ users node, ∃ before pushed after,
      use node user before = .go pushed after ∧ pushed ⊆ all ∧ grows after last := by
  obtain ⟨first, -, -, closed⟩ := closed_of_finished grows refl trans
    (fun node acc => scan_keeps (grows acc) (refl acc) fun user _ after before =>
      trans _ _ _ before (grow node user after))
    (fun node _ acc pushed after went next member => by
      obtain ⟨user, uses, before, some, final, used, there⟩ := exists_push_of_scan went member
      exact within node user before some final uses used there)
    (List.cons_subset.mpr ⟨inside, List.nil_subset _⟩) List.nodup_nil (List.nil_subset _)
    (by simpa using enough) finished
  refine ⟨first List.mem_cons_self, fun node member user uses => ?_⟩
  obtain ⟨before, pushed, after, went, sub, grown⟩ := closed node member List.not_mem_nil
  obtain ⟨start, some, next, used, there, growth⟩ := use_of_scan grows refl trans (grow node)
    went uses
  exact ⟨start, some, next, used, List.Subset.trans there sub, trans _ _ _ growth grown⟩

end Walk
end Worklist
