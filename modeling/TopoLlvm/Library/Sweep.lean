import Mathlib.Data.List.Count
import Mathlib.Logic.Relation

/-!
# Sweeping a graph

A sweep marks the targets of edges that leave marked nodes, with a worklist as a stack.  It ends
within a number of rounds that the edges and sources bound, and marks what the sources reach.
-/

namespace Sweep

open Relation

variable {Node : Type*} [DecidableEq Node]

/-- A sweep under way: the marked nodes and those whose edges are still to be followed. -/
structure State (Node : Type*) where
  marked : List Node
  worklist : List Node

/-- Mark the target of an edge that leaves the node. -/
def visit (node : Node) (state : State Node) (edge : Node × Node) : State Node :=
  if edge.1 = node ∧ edge.2 ∉ state.marked then
    { marked := edge.2 :: state.marked, worklist := edge.2 :: state.worklist }
  else state

/-- Follow the edges of the nodes on the worklist, for a number of rounds. -/
def run (edges : List (Node × Node)) : Nat → State Node → State Node
  | 0, state => state
  | rounds + 1, state =>
      match state.worklist with
      | [] => state
      | node :: worklist => run edges rounds (edges.foldl (visit node) { state with worklist })

/-- The nodes that a sweep from the sources marks. -/
def sweep (edges : List (Node × Node)) (sources : List Node) : List Node :=
  (run edges (edges.length + sources.length)
    { marked := sources, worklist := sources.reverse }).marked

/-- Some source leads to the node along edges. -/
def Reached (edges : List (Node × Node)) (sources : List Node) (node : Node) : Prop :=
  ∃ source ∈ sources, ReflTransGen (fun before after => (before, after) ∈ edges) source node

/-- A bound of the rounds that remain. -/
def remaining (edges : List (Node × Node)) (state : State Node) : Nat :=
  edges.countP (·.2 ∉ state.marked) + state.worklist.length

variable {edges : List (Node × Node)} {sources : List Node} {state : State Node}

theorem mem_marked_foldl_visit {node other : Node} :
    other ∈ (edges.foldl (visit node) state).marked ↔
      other ∈ state.marked ∨ (node, other) ∈ edges := by
  induction edges generalizing state with
  | nil => simp
  | cons edge edges ih =>
      obtain ⟨source, target⟩ := edge
      rw [List.foldl_cons, ih, List.mem_cons, visit]
      split
      · rename_i fresh
        obtain rfl : source = node := fresh.1
        rw [List.mem_cons, Prod.mk.injEq]
        tauto
      · rename_i skipped
        by_cases here : (node, other) = (source, target)
        · cases here
          have marked : other ∈ state.marked := by simpa using skipped
          exact iff_of_true (.inl marked) (.inl marked)
        · simp [here]

theorem mem_worklist_foldl_visit {node other : Node} :
    other ∈ (edges.foldl (visit node) state).worklist ↔
      other ∈ state.worklist ∨ other ∉ state.marked ∧ (node, other) ∈ edges := by
  induction edges generalizing state with
  | nil => simp
  | cons edge edges ih =>
      obtain ⟨source, target⟩ := edge
      rw [List.foldl_cons, ih, List.mem_cons, visit]
      split
      · rename_i fresh
        obtain ⟨rfl, fresh⟩ := fresh
        simp only [List.mem_cons, Prod.mk.injEq, true_and]
        by_cases same : other = target
        · exact iff_of_true (.inl (.inl same)) (.inr ⟨same ▸ fresh, .inl same⟩)
        · simp [same]
      · rename_i skipped
        by_cases here : (node, other) = (source, target)
        · cases here
          have marked : other ∈ state.marked := by simpa using skipped
          simp [marked]
        · simp [here]

theorem remaining_visit {node : Node} {edge : Node × Node} (member : edge ∈ edges) :
    remaining edges (visit node state edge) ≤ remaining edges state := by
  unfold visit
  split
  · rename_i fresh
    obtain ⟨before, after, rfl⟩ := List.append_of_mem member
    have fewer (part : List (Node × Node)) : part.countP (·.2 ∉ edge.2 :: state.marked) ≤
        part.countP (·.2 ∉ state.marked) :=
      List.countP_mono_left fun _ _ => by simp
    have first := fewer before
    have last := fewer after
    simp only [remaining, List.length_cons, List.countP_append, List.countP_cons, fresh.2,
      List.mem_cons_self, not_true_eq_false, not_false_eq_true, decide_false, decide_true,
      Bool.false_eq_true, if_true, if_false]
    omega
  · exact Nat.le_refl _

theorem remaining_foldl_visit (node : Node) (state : State Node) :
    remaining edges (edges.foldl (visit node) state) ≤ remaining edges state :=
  List.foldlRecOn (motive := fun now => remaining edges now ≤ remaining edges state) _ _
    (Nat.le_refl _) fun _ fewer _ member => Nat.le_trans (remaining_visit member) fewer

/-- Marked nodes are reached, and edges that leave a marked node lead to a marked one unless they
are still to be followed. -/
structure Invariant (edges : List (Node × Node)) (sources : List Node) (state : State Node) :
    Prop where
  sources_marked : ∀ source ∈ sources, source ∈ state.marked
  worklist_marked : ∀ node ∈ state.worklist, node ∈ state.marked
  reached : ∀ node ∈ state.marked, Reached edges sources node
  followed : ∀ before after, (before, after) ∈ edges → before ∈ state.marked →
    before ∉ state.worklist → after ∈ state.marked

/-- One round keeps the invariant. -/
theorem Invariant.round {node : Node} {worklist : List Node}
    (invariant : Invariant edges sources state) (top : state.worklist = node :: worklist) :
    Invariant edges sources (edges.foldl (visit node) { state with worklist }) where
  sources_marked source member :=
    mem_marked_foldl_visit.mpr (.inl (invariant.sources_marked source member))
  worklist_marked other waiting := by
    rw [mem_worklist_foldl_visit] at waiting
    rw [mem_marked_foldl_visit]
    rcases waiting with old | ⟨-, edge⟩
    · exact .inl (invariant.worklist_marked other (top ▸ List.mem_cons_of_mem _ old))
    · exact .inr edge
  reached other marked := by
    rcases mem_marked_foldl_visit.mp marked with old | edge
    · exact invariant.reached other old
    · obtain ⟨source, member, path⟩ := invariant.reached node
        (invariant.worklist_marked node (top ▸ List.mem_cons_self))
      exact ⟨source, member, path.tail edge⟩
  followed before after edge marked done := by
    rw [mem_worklist_foldl_visit] at done
    rw [mem_marked_foldl_visit] at marked ⊢
    push Not at done
    by_cases here : before = node
    · exact .inr (here ▸ edge)
    · rcases marked with old | new
      · refine .inl (invariant.followed before after edge old ?_)
        rw [top, List.mem_cons]
        exact not_or.mpr ⟨here, done.1⟩
      · by_cases old : before ∈ state.marked
        · refine .inl (invariant.followed before after edge old ?_)
          rw [top, List.mem_cons]
          exact not_or.mpr ⟨here, done.1⟩
        · exact absurd new (done.2 old)

/-- With enough rounds the invariant holds at the end and nothing is left to follow. -/
theorem run_invariant (rounds : Nat) (invariant : Invariant edges sources state)
    (enough : remaining edges state ≤ rounds) :
    Invariant edges sources (run edges rounds state) ∧ (run edges rounds state).worklist = [] := by
  induction rounds generalizing state with
  | zero =>
      refine ⟨invariant, List.length_eq_zero_iff.mp ?_⟩
      have bound := Nat.le_trans (Nat.le_add_left _ _) enough
      exact Nat.le_zero.mp bound
  | succ rounds ih =>
      rw [run]
      split
      · rename_i done
        exact ⟨invariant, done⟩
      · rename_i node worklist top
        refine ih (invariant.round top) (Nat.le_trans (remaining_foldl_visit _ _) ?_)
        simp only [remaining, top, List.length_cons] at enough ⊢
        omega

/-- The sweep marks exactly what the sources reach. -/
theorem mem_sweep {node : Node} : node ∈ sweep edges sources ↔ Reached edges sources node := by
  have start : Invariant edges sources { marked := sources, worklist := sources.reverse } :=
    { sources_marked := fun _ member => member
      worklist_marked := fun _ waiting => List.mem_reverse.mp waiting
      reached := fun source member => ⟨source, member, .refl⟩
      followed := fun _ _ _ marked done => absurd (List.mem_reverse.mpr marked) done }
  obtain ⟨invariant, done⟩ := run_invariant (edges.length + sources.length) start (by
    simp only [remaining, List.length_reverse]
    exact Nat.add_le_add_right List.countP_le_length _)
  constructor
  · exact invariant.reached node
  · rintro ⟨source, member, path⟩
    induction path with
    | refl => exact invariant.sources_marked source member
    | tail _ edge ih => exact invariant.followed _ _ edge ih (done ▸ List.not_mem_nil)

/-- A marked node is a source or the target of an edge. -/
theorem source_or_target {node : Node} (marked : node ∈ sweep edges sources) :
    node ∈ sources ∨ ∃ before, (before, node) ∈ edges := by
  obtain ⟨source, member, path⟩ := mem_sweep.mp marked
  rcases path.cases_tail with rfl | ⟨before, -, edge⟩
  · exact .inl member
  · exact .inr ⟨before, edge⟩

end Sweep
