import TopoLlvm.Library.FlowGraph
import Mathlib.Data.List.Infix

/-!
# Natural loops

The natural loop of a header holds the nodes from which a back edge is reached without passing the
header.  What dominates a node of the loop from outside dominates the header already, and with it
every predecessor through which alone the loop is entered.
-/

namespace FlowGraph

variable {Node : Type*} (g : FlowGraph Node)

/-- An edge to a header from a node that the header dominates. -/
def BackEdge (latch header : Node) : Prop :=
  g.edge latch header ∧ g.Reached latch ∧ (latch = header ∨ g.Dominates header latch)

/-- The nodes of the natural loop of a header. -/
def InLoop (header node : Node) : Prop :=
  node = header ∨ g.Reached node ∧ ∃ latch, g.BackEdge latch header ∧
    ∃ nodes, g.Walk node nodes latch ∧ header ∉ latch :: nodes

/-- Every walk from the entry takes the edge before it comes to the node. -/
def EdgeDominates (source target node : Node) : Prop :=
  ∀ nodes, g.Walk g.entry nodes node → [source, target] <:+: nodes ++ [node]

variable {g} {header node latch target before : Node} {nodes : List Node}

theorem Walk.head? (walk : g.Walk node nodes target) :
    (nodes ++ [target]).head? = some node := by
  cases walk <;> rfl

namespace InLoop

/-- A header dominates the other nodes of its loop. -/
theorem dominates (inside : g.InLoop header node) (other : node ≠ header) :
    g.Dominates header node := by
  obtain rfl | ⟨-, latch, ⟨-, -, atHeader⟩, path, walk, avoids⟩ := inside
  · exact absurd rfl other
  obtain ⟨apart, avoids⟩ := List.ne_and_not_mem_of_not_mem_cons avoids
  intro nodes reach
  have passes := atHeader.resolve_left apart.symm _ (reach.append walk)
  exact (List.mem_append.mp passes).resolve_right avoids

theorem reached (inside : g.InLoop header node) (start : g.Reached header) : g.Reached node := by
  obtain rfl | ⟨reached, -⟩ := inside
  · exact start
  · exact reached

/-- Only the header of a loop is entered from outside. -/
theorem of_edge {next : Node} (reached : g.Reached node) (edge : g.edge node next)
    (inside : g.InLoop header next) (below : next ≠ header) : g.InLoop header node := by
  classical
  by_cases same : node = header
  · exact .inl same
  obtain rfl | ⟨-, latch, back, path, walk, avoids⟩ := inside
  · exact absurd rfl below
  obtain ⟨apart, avoids⟩ := List.ne_and_not_mem_of_not_mem_cons avoids
  refine .inr ⟨reached, latch, back, _, .cons edge walk, fun member => ?_⟩
  rcases List.mem_cons.mp member with equal | member
  · exact apart equal
  · exact avoids ((List.mem_cons.mp member).resolve_left (Ne.symm same))

/-- A walk to a node of the loop that does not pass the header is inside the loop. -/
theorem inside_or_exists_walk (walk : g.Walk before nodes node) (reached : g.Reached before)
    (inside : g.InLoop header node) :
    (header ∉ nodes ∧ g.InLoop header before ∧ ∀ passed ∈ nodes, g.InLoop header passed) ∨
      ∃ nodes, g.Walk header nodes node ∧ ∀ passed ∈ nodes, g.InLoop header passed := by
  classical
  induction walk with
  | nil => exact .inl ⟨nofun, inside, nofun⟩
  | @cons first next last rest edge walk ih =>
      obtain ⟨path, reach⟩ := reached
      rcases ih ⟨_, reach.append (.cons edge (.nil _))⟩ inside with ⟨avoids, entered, all⟩ | found
      · by_cases here : first = header
        · subst here
          refine .inr ⟨_, .cons edge walk, fun passed member => ?_⟩
          rcases List.mem_cons.mp member with rfl | member
          · exact .inl rfl
          · exact all passed member
        by_cases there : next = header
        · subst there
          exact .inr ⟨_, walk, all⟩
        have began : g.InLoop header first := entered.of_edge ⟨path, reach⟩ edge there
        refine .inl ⟨fun member => ?_, began, fun passed member => ?_⟩
        · exact avoids ((List.mem_cons.mp member).resolve_left (Ne.symm here))
        · rcases List.mem_cons.mp member with rfl | member
          · exact began
          · exact all passed member
      · exact .inr found

/-- A node of the loop is reached from the header inside the loop. -/
theorem exists_walk (inside : g.InLoop header node) (start : g.Reached header) :
    ∃ nodes, g.Walk header nodes node ∧ ∀ passed ∈ nodes, g.InLoop header passed := by
  classical
  by_cases same : node = header
  · subst same
    exact ⟨[], .nil _, nofun⟩
  obtain ⟨nodes, walk⟩ := inside.reached start
  have passes := inside.dominates same nodes walk
  rcases inside.inside_or_exists_walk walk ⟨[], .nil _⟩ with ⟨avoids, -⟩ | found
  · exact absurd passes avoids
  · exact found

/-- What dominates a node of the loop from outside dominates the header. -/
theorem dominates_header (inside : g.InLoop header node) (start : g.Reached header)
    (outside : ¬ g.InLoop header before) (dominates : g.Dominates before node) :
    g.Dominates before header := by
  obtain ⟨rest, onwards, all⟩ := inside.exists_walk start
  intro nodes reach
  rcases List.mem_append.mp (dominates _ (reach.append onwards)) with early | late
  · exact early
  · exact absurd (all _ late) outside

/-- An edge out of a node outside the loop that dominates a node of the loop dominates the
header. -/
theorem edgeDominates_header (inside : g.InLoop header node) (start : g.Reached header)
    (outside : ¬ g.InLoop header before) (dominates : g.EdgeDominates before target node) :
    g.EdgeDominates before target header := by
  obtain ⟨rest, onwards, all⟩ := inside.exists_walk start
  intro nodes reach
  obtain ⟨front, back, split⟩ := dominates _ (reach.append onwards)
  have tail : ∃ behind, rest ++ [node] = header :: behind ∧
      ∀ passed ∈ behind, g.InLoop header passed := by
    cases onwards with
    | nil => exact ⟨[], rfl, nofun⟩
    | cons edge walk =>
        refine ⟨_, rfl, fun passed member => ?_⟩
        rcases List.mem_append.mp member with early | last
        · exact all passed (List.mem_cons_of_mem _ early)
        · exact List.mem_singleton.mp last ▸ inside
  obtain ⟨behind, begins, all⟩ := tail
  have absent : before ∉ behind := fun member => outside (all _ member)
  have whole : front ++ ([before, target] ++ back) = (nodes ++ [header]) ++ behind := by
    rw [← List.append_assoc, split, List.append_assoc, begins, List.append_assoc]
    rfl
  rcases List.append_eq_append_iff.mp whole with ⟨between, first, second⟩ | ⟨between, -, later⟩
  · cases between with
    | nil =>
        have starts : before :: target :: back = behind := second
        exact absurd (starts ▸ List.mem_cons_self ..) absent
    | cons here between =>
        obtain ⟨rfl, tail⟩ := List.cons.inj second
        cases between with
        | nil =>
            obtain ⟨-, last⟩ := List.append_inj' first rfl
            exact absurd (.inl (List.cons.inj last).1.symm) outside
        | cons next between =>
            obtain ⟨same, -⟩ := List.cons.inj tail
            exact ⟨front, between, by rw [first, same]; simp⟩
  · exact absurd (by simp [later]) absent

end InLoop

/-- What dominates a node dominates its predecessors, unless it is one. -/
theorem Dominates.of_edge (dominates : g.Dominates before node) (edge : g.edge target node)
    (apart : before ≠ target) : g.Dominates before target := by
  intro nodes reach
  have passes := dominates _ (reach.append (.cons edge (.nil _)))
  exact (List.mem_append.mp passes).resolve_right fun last => apart (List.mem_singleton.mp last)

theorem EdgeDominates.of_edge {source : Node} (dominates : g.EdgeDominates source target node)
    (edge : g.edge before node) (apart : source ≠ before) :
    g.EdgeDominates source target before := by
  intro nodes reach
  have passes := dominates _ (reach.append (.cons edge (.nil _)))
  rcases List.infix_concat_iff.mp passes with last | early
  · obtain ⟨front, split⟩ := last
    have split : (front ++ [source]) ++ [target] = (nodes ++ [before]) ++ [node] := by
      rw [← split, List.append_assoc]
      rfl
    obtain ⟨ends, -⟩ := List.append_inj' split rfl
    obtain ⟨-, same⟩ := List.append_inj' ends rfl
    exact absurd (List.cons.inj same).1 apart
  · exact early

theorem dominates_of_entry (apart : node ≠ g.entry) : g.Dominates g.entry node := by
  intro nodes reach
  cases reach with
  | nil => exact absurd rfl apart
  | cons edge walk => exact List.mem_cons_self ..

end FlowGraph
