import Mathlib.Logic.Relation

/-!
# Where paths meet again

A graph whose edges all lead down in some rank.  A node post-dominates another where every path from
that one to an end passes it.  Some nodes may have a nearest common post-dominator, and what a path
passes before it stays apart from all that lies behind.
-/

namespace PostDominance

variable {Node : Type*} (edge : Node → Node → Prop)

/-- A path between two nodes that nowhere meets an exit. -/
inductive Avoiding (exit : Option Node) : Node → Node → Prop
  | refl {node : Node} : some node ≠ exit → Avoiding exit node node
  | head {node next last : Node} :
      some node ≠ exit → edge node next → Avoiding exit next last → Avoiding exit node last

def Final (node : Node) : Prop := ∀ next, ¬ edge node next

def PostDominates (exit node : Node) : Prop :=
  ∀ last, Avoiding edge (some exit) node last → ¬ Final edge last

/-- The nearest common post-dominator of some nodes, if there is any. -/
structure MeetsAt (meet : Option Node) (nodes : List Node) : Prop where
  common : ∀ met, meet = some met → ∀ node ∈ nodes, PostDominates edge met node
  nearest : ∀ exit, (∀ node ∈ nodes, PostDominates edge exit node) →
    ∃ met, meet = some met ∧ PostDominates edge exit met

variable {edge} {exit meet : Option Node} {node next last met : Node} {nodes : List Node}

/-! ## Paths -/

namespace Avoiding

theorem left_ne (path : Avoiding edge exit node last) : some node ≠ exit := by
  cases path with
  | refl apart => exact apart
  | head apart _ _ => exact apart

theorem right_ne (path : Avoiding edge exit node last) : some last ≠ exit := by
  induction path with
  | refl apart => exact apart
  | head _ _ _ ih => exact ih

theorem trans (path : Avoiding edge exit node next) (rest : Avoiding edge exit next last) :
    Avoiding edge exit node last := by
  induction path with
  | refl _ => exact rest
  | head apart step _ ih => exact .head apart step (ih rest)

theorem reaches (path : Avoiding edge exit node last) : Relation.ReflTransGen edge node last := by
  induction path with
  | refl _ => exact .refl
  | head _ step _ ih => exact .head step ih

/-- A path avoids a node, or goes on from it. -/
theorem split (path : Avoiding edge exit node last) (met : Node) :
    Avoiding edge (some met) node last ∨ Avoiding edge exit met last := by
  induction path with
  | @refl node apart =>
      by_cases here : node = met
      · exact .inr (here ▸ .refl apart)
      · exact .inl (.refl fun same => here (Option.some.inj same))
  | @head node next last apart step rest ih =>
      by_cases here : node = met
      · exact .inr (here ▸ .head apart step rest)
      · exact ih.imp_left (.head (fun same => here (Option.some.inj same)) step)

/-- A path avoids what none of its nodes is. -/
theorem of_ne (path : Avoiding edge meet node last)
    (apart : ∀ passed, Avoiding edge meet node passed → some passed ≠ exit) :
    Avoiding edge exit node last := by
  induction path with
  | refl here => exact .refl (apart _ (.refl here))
  | head here step _ ih =>
      exact .head (apart _ (.refl here)) step
        (ih fun passed path => apart passed (.head here step path))

end Avoiding

/-! ## Post-dominators -/

namespace PostDominates

variable {exit : Node}

theorem refl : PostDominates edge exit exit := fun _ path => absurd rfl path.left_ne

theorem along (post : PostDominates edge exit node) (path : Avoiding edge (some exit) node next) :
    PostDominates edge exit next := fun last rest => post last (path.trans rest)

theorem step (post : PostDominates edge exit node) (apart : node ≠ exit) (step : edge node next) :
    PostDominates edge exit next := fun last rest =>
  post last (.head (fun same => apart (Option.some.inj same)) step rest)

theorem trans (post : PostDominates edge met node) (behind : PostDominates edge exit met) :
    PostDominates edge exit node := fun last path final =>
  (path.split met).elim (fun avoids => post last avoids final) fun rest => behind last rest final

end PostDominates

theorem MeetsAt.single (node : Node) : MeetsAt edge (some node) [node] where
  common met same other member := by
    rw [List.mem_singleton.mp member, Option.some.inj same]
    exact .refl
  nearest exit post := ⟨node, rfl, post node (List.mem_singleton_self node)⟩

/-- One more node has a common post-dominator with the others where it has one with theirs. -/
theorem MeetsAt.snoc (meets : MeetsAt edge meet nodes) {further : Option Node}
    (pair : ∀ met, meet = some met → MeetsAt edge further [met, last])
    (none : meet = none → further = none) : MeetsAt edge further (nodes ++ [last]) := by
  cases meet with
  | none =>
      rw [none rfl]
      refine ⟨fun met same => (Option.some_ne_none met same.symm).elim, fun exit post => ?_⟩
      obtain ⟨met, same, -⟩ :=
        meets.nearest exit fun node member => post node (List.mem_append_left _ member)
      cases same
  | some met =>
      refine ⟨fun further same node member => ?_, fun exit post => ?_⟩
      · have common := (pair met rfl).common further same
        obtain among | same := List.mem_append.mp member
        · exact (meets.common met rfl node among).trans (common met List.mem_cons_self)
        · exact common node (List.mem_cons_of_mem _ same)
      · obtain ⟨other, same, behind⟩ :=
          meets.nearest exit fun node member => post node (List.mem_append_left _ member)
        cases same
        refine (pair met rfl).nearest exit fun node member => ?_
        obtain rfl | same := List.mem_cons.mp member
        · exact behind
        · exact post node (List.mem_append_right _ same)

/-! ## Ranks -/

section Ranked

variable {rank : Node → Nat} (falls : ∀ node next, edge node next → rank next < rank node)

include falls

theorem rank_le (path : Relation.ReflTransGen edge node last) : rank last ≤ rank node := by
  induction path with
  | refl => exact Nat.le_refl _
  | tail _ step ih => exact Nat.le_trans (Nat.le_of_lt (falls _ _ step)) ih

theorem exists_final (node : Node) :
    ∃ last, Relation.ReflTransGen edge node last ∧ Final edge last := by
  induction bound : rank node using Nat.strongRecOn generalizing node with
  | ind bound ih =>
      by_cases final : Final edge node
      · exact ⟨node, .refl, final⟩
      · obtain ⟨next, step⟩ := Classical.not_forall_not.mp final
        obtain ⟨last, path, final⟩ := ih _ (bound ▸ falls node next step) next rfl
        exact ⟨last, .head step path, final⟩

/-- A post-dominator can be reached, past what does not lie behind it. -/
theorem PostDominates.leads (post : PostDominates edge met node)
    (apart : ∀ passed, Avoiding edge (some met) node passed → some passed ≠ exit)
    (distinct : some met ≠ exit) : Avoiding edge exit node met := by
  obtain ⟨last, path, final⟩ := exists_final falls node
  induction path using Relation.ReflTransGen.head_induction_on with
  | refl =>
      by_cases here : last = met
      · exact here ▸ .refl (here ▸ distinct)
      · exact absurd final (post last (.refl fun same => here (Option.some.inj same)))
  | @head node next step _ ih =>
      by_cases here : node = met
      · subst here
        exact .refl distinct
      · have avoids : some node ≠ some met := fun same => here (Option.some.inj same)
        exact .head (apart node (.refl avoids)) step
          (ih (post.step here step) fun passed path => apart passed (.head avoids step path))

theorem PostDominates.reaches (post : PostDominates edge met node) :
    Relation.ReflTransGen edge node met :=
  (post.leads falls (fun _ _ => Option.some_ne_none _) (Option.some_ne_none _)).reaches

theorem PostDominates.rank_lt (post : PostDominates edge met node) (distinct : node ≠ met) :
    rank met < rank node := by
  obtain same | ⟨next, step, path⟩ := (post.reaches falls).cases_head
  · exact absurd same distinct
  · exact Nat.lt_of_le_of_lt (rank_le falls path) (falls node next step)

/-- What a path passes before the nodes meet is no common post-dominator of theirs. -/
theorem MeetsAt.ne_exit (meets : MeetsAt edge meet nodes) (member : node ∈ nodes)
    (path : Avoiding edge meet node last)
    (post : ∀ met, exit = some met → ∀ node ∈ nodes, PostDominates edge met node) :
    some last ≠ exit := by
  intro here
  obtain ⟨met, rfl, behind⟩ := meets.nearest last (post last here.symm)
  have distinct : last ≠ met := fun same => path.right_ne (congrArg some same)
  have before := ((meets.common met rfl node member).along path).rank_lt falls distinct
  have after := behind.rank_lt falls distinct.symm
  omega

/-- What a path passes before the nodes meet is not passed behind. -/
theorem MeetsAt.not_reaches (meets : MeetsAt edge (some met) nodes) (member : node ∈ nodes)
    (path : Avoiding edge (some met) node last) : ¬ Relation.ReflTransGen edge met last := by
  intro behind
  have distinct : last ≠ met := fun same => path.right_ne (congrArg some same)
  have before := ((meets.common met rfl node member).along path).rank_lt falls distinct
  have after := rank_le falls behind
  omega

end Ranked

end PostDominance
