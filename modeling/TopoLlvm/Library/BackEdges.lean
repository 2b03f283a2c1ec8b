import Mathlib.Algebra.Order.BigOperators.Group.List
import Mathlib.Algebra.Order.Group.Nat
import Mathlib.Algebra.Ring.Nat
import Mathlib.Logic.Function.Iterate
import Mathlib.Logic.Relation

/-!
# Back edges

A depth-first search with a stack of its own marks the two ends of each edge that goes back to a
node that is still being searched.  These are the edges from a node to one on the first path to it:
the path on which no later successor of a node leads to the end around the nodes before.
-/

namespace BackEdges

variable {Node : Type*} (next : Node → List Node)

/-! ## First paths -/

/-- A node leads to another around some nodes. -/
def Leads (avoided : List Node) (node target : Node) : Prop :=
  node ∉ avoided ∧
    Relation.ReflTransGen (fun node successor => successor ∈ next node ∧ successor ∉ avoided)
      node target

/-- The first path to a target, backwards and with the nodes before its first one. -/
inductive FirstPath (target : Node) : List Node → Node → List Node → Prop
  | here (before : List Node) : FirstPath target before target (target :: before)
  | step {before earlier later path : List Node} {node successor : Node} :
      next node = earlier ++ successor :: later → successor ∉ node :: before →
      (∀ other ∈ later, ¬ Leads next (node :: before) other target) →
      FirstPath target (node :: before) successor path → FirstPath target before node path

/-- A node is an end of an edge from the last node of a path back to the path. -/
def Ends (target : Node) (path : List Node) (node : Node) : Prop :=
  ∃ successor ∈ next target, successor ∈ path ∧ (node = target ∨ node = successor)

/-- A node is an end of an edge that goes back on a first path from a root. -/
def OnBackEdge (root node : Node) : Prop :=
  ∃ target path, FirstPath next target [] root path ∧ Ends next target path node

/-- The path to the target that starts with the first of some nodes that leads to it. -/
def Found (target : Node) (before path : List Node) : List Node → Prop
  | [] => False
  | node :: nodes =>
      node ∉ before ∧ FirstPath next target before node path ∨
        ¬ Leads next before node target ∧ Found target before path nodes

variable {next} {avoided before path visited : List Node} {node successor target : Node}

theorem Leads.refl (outside : node ∉ avoided) : Leads next avoided node node := ⟨outside, .refl⟩

theorem Leads.tail (leads : Leads next avoided node target) (edge : successor ∈ next target)
    (outside : successor ∉ avoided) : Leads next avoided node successor :=
  ⟨leads.1, leads.2.tail ⟨edge, outside⟩⟩

theorem Leads.not_mem (leads : Leads next avoided node target) : target ∉ avoided := by
  rcases Relation.ReflTransGen.cases_tail leads.2 with rfl | ⟨_, -, -, outside⟩
  · exact leads.1
  · exact outside

theorem Leads.head (leads : Leads next (node :: before) successor target)
    (edge : successor ∈ next node) (outside : node ∉ before) : Leads next before node target := by
  have fewer : ∀ {other : Node}, other ∉ node :: before → other ∉ before := by simp
  refine ⟨outside, .head ⟨edge, fewer leads.1⟩ ?_⟩
  refine Relation.ReflTransGen.mono ?_ _ _ leads.2
  exact fun _ _ step => ⟨step.1, fewer step.2⟩

/-- A path may be taken from its last visit of the first node on. -/
theorem leads_iff (outside : node ∉ before) :
    Leads next before node target ↔
      target = node ∨ ∃ successor ∈ next node, Leads next (node :: before) successor target := by
  constructor
  · rintro ⟨-, steps⟩
    induction steps with
    | refl => exact .inl rfl
    | @tail between target _ step ih =>
        by_cases same : target = node
        · exact .inl same
        · have fresh : target ∉ node :: before := by simp [same, step.2]
          rcases ih with rfl | ⟨successor, edge, leads⟩
          · exact .inr ⟨target, step.1, .refl fresh⟩
          · exact .inr ⟨successor, edge, leads.tail step.1 fresh⟩
  · rintro (rfl | ⟨successor, edge, leads⟩)
    · exact .refl outside
    · exact leads.head edge outside

theorem FirstPath.leads (first : FirstPath next target before node path)
    (outside : node ∉ before) : Leads next before node target := by
  induction first with
  | here before => exact .refl outside
  | step split fresh _ _ ih =>
      refine (ih fresh).head ?_ outside
      rw [split]
      exact List.mem_append_right _ List.mem_cons_self

theorem found_iff {nodes : List Node} :
    Found next target before path nodes ↔ ∃ front node back, nodes = front ++ node :: back ∧
      (∀ other ∈ front, ¬ Leads next before other target) ∧
      node ∉ before ∧ FirstPath next target before node path := by
  induction nodes with
  | nil => simp [Found]
  | cons head nodes ih =>
      rw [Found, ih]
      constructor
      · rintro (⟨outside, first⟩ | ⟨astray, front, node, back, rfl, others, outside, first⟩)
        · exact ⟨[], head, nodes, rfl, nofun, outside, first⟩
        · exact ⟨head :: front, node, back, rfl, List.forall_mem_cons.mpr ⟨astray, others⟩, outside,
            first⟩
      · rintro ⟨front, node, back, split, others, outside, first⟩
        cases front with
        | nil =>
            obtain ⟨rfl, rfl⟩ := List.cons.inj split
            exact .inl ⟨outside, first⟩
        | cons other front =>
            obtain ⟨rfl, rfl⟩ := List.cons.inj split
            rw [List.forall_mem_cons] at others
            exact .inr ⟨others.1, front, node, back, rfl, others.2, outside, first⟩

/-- A first path ends at its first node or goes on from the last successor that leads to its end. -/
theorem firstPath_iff :
    FirstPath next target before node path ↔
      target = node ∧ path = node :: before ∨
        Found next target (node :: before) path (next node).reverse := by
  rw [found_iff]
  constructor
  · intro first
    cases first with
    | here => exact .inl ⟨rfl, rfl⟩
    | @step _ earlier later _ _ successor split fresh others first =>
        refine .inr ⟨later.reverse, successor, earlier.reverse, by simp [split], ?_, fresh, first⟩
        exact fun other member => others other (List.mem_reverse.mp member)
  · rintro (⟨rfl, rfl⟩ | ⟨front, successor, back, split, others, fresh, first⟩)
    · exact .here before
    · have order : next node = back.reverse ++ successor :: front.reverse := by
        rw [← List.reverse_reverse (next node), split]
        simp
      exact .step order fresh (fun other member => others other (List.mem_reverse.mp member)) first

theorem Found.leads {nodes : List Node} (found : Found next target before path nodes) :
    ∃ node ∈ nodes, Leads next before node target := by
  obtain ⟨front, node, back, rfl, -, outside, first⟩ := found_iff.mp found
  exact ⟨node, by simp, first.leads outside⟩

/-! ## The search -/

/-- What a search holds; a node that is pushed with `true` is being left. -/
structure Search (Node : Type*) where
  visited : List Node
  onStack : List Node
  stack : List (Node × Bool)
  reached : List Node
  marked : List Node

variable [DecidableEq Node]

namespace Search

/-- Look at a successor of a node. -/
def look (node : Node) (search : Search Node) (successor : Node) : Search Node :=
  if successor ∈ search.onStack then
    { search with marked := (search.marked.insert successor).insert node }
  else
    { search with
      reached := search.reached.insert successor
      stack := if successor ∈ search.visited then search.stack
        else (successor, false) :: search.stack }

variable (next) in
/-- Take a node from the stack. -/
def step (search : Search Node) : Search Node :=
  match search.stack with
  | [] => search
  | (node, true) :: stack => { search with onStack := search.onStack.erase node, stack }
  | (node, false) :: stack =>
      if node ∈ search.visited then { search with stack }
      else (next node).foldl (look node)
        { search with
          visited := node :: search.visited
          onStack := node :: search.onStack
          stack := (node, true) :: stack }

def start (root : Node) (reached marked : List Node) : Search Node where
  visited := []
  onStack := []
  stack := [(root, false)]
  reached := reached
  marked := marked

end Search

variable (next) in
/-- What is left to do, with some nodes visited. -/
def weight (nodes visited : List Node) : Nat :=
  (nodes.map fun node => if node ∈ visited then 0 else (next node).length + 1).sum

variable (next) in
/-- Search from a root on, through the given nodes. -/
def run (nodes : List Node) (root : Node) (reached marked : List Node) : Search Node :=
  (Search.step next)^[weight next nodes [] + 1] (.start root reached marked)

/-! ## What a search finds -/

variable (next) in
/-- All nodes that are visited and not being searched have visited successors. -/
def Closed (before visited : List Node) : Prop :=
  before ⊆ visited ∧ ∀ node ∈ visited, node ∉ before → ∀ successor ∈ next node, successor ∈ visited

variable (next) in
/-- A search has gone through some nodes, the first one first. -/
structure Explores (before nodes : List Node) (search after : Search Node) : Prop where
  onStack : after.onStack = search.onStack
  visited : ∀ target, target ∈ after.visited ↔
    target ∈ search.visited ∨ ∃ node ∈ nodes, Leads next before node target
  marked : ∀ node, node ∈ after.marked ↔ node ∈ search.marked ∨ ∃ target path,
    target ∉ search.visited ∧ Found next target before path nodes ∧ Ends next target path node
  reached : ∀ target ∈ after.reached, target ∈ search.reached ∨
    ∃ node ∈ nodes, ∃ last, Leads next before node last ∧ target ∈ next last

variable {nodes : List Node} {search after later : Search Node}

omit [DecidableEq Node] in
theorem Closed.leads (closed : Closed next before visited) (leads : Leads next before node target)
    (member : node ∈ visited) : target ∈ visited := by
  obtain ⟨outside, steps⟩ := leads
  induction steps with
  | refl => exact member
  | tail steps step ih =>
      exact closed.2 _ ih (Leads.not_mem ⟨outside, steps⟩) _ step.1

omit [DecidableEq Node] in
theorem Explores.closed (explores : Explores next before nodes search after)
    (closed : Closed next before search.visited) : Closed next before after.visited := by
  refine ⟨fun node member => (explores.visited node).mpr (.inl (closed.1 member)), ?_⟩
  intro node member outside successor edge
  rw [explores.visited] at member ⊢
  rcases member with old | ⟨first, inside, leads⟩
  · exact .inl (closed.2 node old outside successor edge)
  · by_cases pending : successor ∈ before
    · exact .inl (closed.1 pending)
    · exact .inr ⟨first, inside, leads.tail edge pending⟩

omit [DecidableEq Node] in
/-- Nothing new is found from a node that has been visited. -/
theorem explores_visited (closed : Closed next before search.visited)
    (member : node ∈ search.visited) (stack : List (Node × Bool)) :
    Explores next before [node] search { search with stack } where
  onStack := rfl
  visited target := by
    refine ⟨.inl, ?_⟩
    rintro (old | ⟨_, same, leads⟩)
    · exact old
    · obtain rfl := List.mem_singleton.mp same
      exact closed.leads leads member
  marked other := by
    refine ⟨.inl, ?_⟩
    rintro (old | ⟨target, path, fresh, found, -⟩)
    · exact old
    · obtain ⟨_, same, leads⟩ := found.leads
      obtain rfl := List.mem_singleton.mp same
      exact absurd (closed.leads leads member) fresh
  reached _ := .inl

omit [DecidableEq Node] in
theorem Explores.cons (first : Explores next before [node] search after)
    (rest : Explores next before nodes after later) :
    Explores next before (node :: nodes) search later where
  onStack := rest.onStack.trans first.onStack
  visited target := by
    rw [rest.visited, first.visited]
    simp [or_assoc]
  marked other := by
    rw [rest.marked, first.marked, or_assoc]
    refine or_congr_right ?_
    constructor
    · rintro (⟨target, path, fresh, found, ends⟩ | ⟨target, path, fresh, found, ends⟩)
      · exact ⟨target, path, fresh, .inl (found.resolve_right fun none => none.2), ends⟩
      · rw [first.visited, not_or] at fresh
        have astray : ¬ Leads next before node target := fun leads =>
          fresh.2 ⟨node, List.mem_singleton_self _, leads⟩
        exact ⟨target, path, fresh.1, .inr ⟨astray, found⟩, ends⟩
    · rintro ⟨target, path, fresh, here | ⟨astray, found⟩, ends⟩
      · exact .inl ⟨target, path, fresh, .inl here, ends⟩
      · refine .inr ⟨target, path, ?_, found, ends⟩
        rw [first.visited, not_or]
        refine ⟨fresh, ?_⟩
        rintro ⟨_, same, leads⟩
        obtain rfl := List.mem_singleton.mp same
        exact astray leads
  reached target member := by
    rcases rest.reached target member with old | ⟨other, inside, last, leads, edge⟩
    · rcases first.reached target old with older | ⟨_, same, last, leads, edge⟩
      · exact .inl older
      · obtain rfl := List.mem_singleton.mp same
        exact .inr ⟨_, List.mem_cons_self, last, leads, edge⟩
    · exact .inr ⟨other, List.mem_cons_of_mem _ inside, last, leads, edge⟩

/-! ### One node -/

/-- Looking at successors marks those that are being searched, and pushes new ones. -/
theorem foldl_look (search : Search Node) (inside : search.onStack ⊆ search.visited)
    (nodes : List Node) :
    let scanned := nodes.foldl (Search.look node) search
    scanned.onStack = search.onStack ∧ scanned.visited = search.visited ∧
      scanned.stack = (nodes.reverse.filter (· ∉ search.visited)).map (·, false) ++ search.stack ∧
      (∀ other, other ∈ scanned.marked ↔ other ∈ search.marked ∨
        ∃ successor ∈ nodes, successor ∈ search.onStack ∧ (other = node ∨ other = successor)) ∧
      ∀ other ∈ scanned.reached, other ∈ search.reached ∨ other ∈ nodes := by
  induction nodes generalizing search with
  | nil => simp
  | cons successor nodes ih =>
      rw [List.foldl_cons]
      by_cases back : successor ∈ search.onStack
      · have looked : Search.look node search successor =
            { search with marked := (search.marked.insert successor).insert node } := if_pos back
        have known := inside back
        obtain ⟨onStack, visited, stack, marked, reached⟩ := ih (Search.look node search successor)
          (by rw [looked]; exact inside)
        rw [looked] at onStack visited stack marked reached ⊢
        refine ⟨onStack, visited, by simp [stack, known], fun other => ?_, fun other member => ?_⟩
        · rw [marked]
          simp only [List.mem_insert_iff, List.mem_cons, exists_eq_or_imp, back, true_and]
          grind
        · exact (reached other member).imp id (List.mem_cons_of_mem _)
      · have looked : Search.look node search successor =
            { search with
              reached := search.reached.insert successor
              stack := if successor ∈ search.visited then search.stack
                else (successor, false) :: search.stack } := if_neg back
        obtain ⟨onStack, visited, stack, marked, reached⟩ := ih (Search.look node search successor)
          (by rw [looked]; exact inside)
        rw [looked] at onStack visited stack marked reached ⊢
        refine ⟨onStack, visited, ?_, fun other => ?_, fun other member => ?_⟩
        · rw [stack]
          by_cases known : successor ∈ search.visited <;> simp [known, List.filter_append]
        · rw [marked]
          simp [back]
        · rcases reached other member with old | new
          · rcases List.mem_insert_iff.mp old with rfl | older
            · exact .inr List.mem_cons_self
            · exact .inl older
          · exact .inr (List.mem_cons_of_mem _ new)

omit [DecidableEq Node] in
/-- A new node is explored by looking at its successors and exploring these. -/
theorem explores_new {scanned after : Search Node} (closed : Closed next before search.visited)
    (fresh : node ∉ search.visited) (stack : List (Node × Bool)) (onStack : List Node)
    (restored : onStack = search.onStack)
    (visited : scanned.visited = node :: search.visited)
    (marked : ∀ other, other ∈ scanned.marked ↔ other ∈ search.marked ∨
      Ends next node (node :: before) other)
    (reached : ∀ other ∈ scanned.reached, other ∈ search.reached ∨ other ∈ next node)
    (explores : Explores next (node :: before) (next node).reverse scanned after) :
    Explores next before [node] search { after with stack, onStack } := by
  have outside : node ∉ before := fun member => fresh (closed.1 member)
  constructor
  · exact restored
  · intro target
    rw [explores.visited, visited, List.mem_cons]
    simp only [List.mem_reverse, List.mem_singleton, exists_eq_left, leads_iff outside]
    tauto
  · intro other
    rw [explores.marked, marked, visited, or_assoc]
    refine or_congr_right ?_
    constructor
    · rintro (ends | ⟨target, path, new, found, ends⟩)
      · exact ⟨node, node :: before, fresh, .inl ⟨outside, .here before⟩, ends⟩
      · rw [List.mem_cons, not_or] at new
        exact ⟨target, path, new.2, .inl ⟨outside, firstPath_iff.mpr (.inr found)⟩, ends⟩
    · rintro ⟨target, path, new, found, ends⟩
      rcases firstPath_iff.mp (found.resolve_right fun none => none.2).2 with ⟨rfl, rfl⟩ | deeper
      · exact .inl ends
      · obtain ⟨_, -, leads⟩ := deeper.leads
        have apart : target ≠ node := fun same => leads.not_mem (same ▸ List.mem_cons_self)
        exact .inr ⟨target, path, by simp [apart, new], deeper, ends⟩
  · intro target member
    rcases explores.reached target member with old | ⟨successor, inside, last, leads, edge⟩
    · rcases reached target old with older | edge
      · exact .inl older
      · exact .inr ⟨node, List.mem_singleton_self _, node, .refl outside, edge⟩
    · refine .inr ⟨node, List.mem_singleton_self _, last, ?_, edge⟩
      exact (leads_iff outside).mpr (.inr ⟨successor, List.mem_reverse.mp inside, leads⟩)

/-! ### Runs -/

variable (next) (nodes) in
theorem weight_mono (more : visited ⊆ avoided) :
    weight next nodes avoided ≤ weight next nodes visited := by
  refine List.sum_le_sum fun node _ => ?_
  by_cases old : node ∈ visited
  · simp [old, more old]
  · rw [if_neg old]
    split <;> omega

variable (next) in
theorem weight_cons (inside : node ∈ nodes) (fresh : node ∉ visited) :
    weight next nodes (node :: visited) + (next node).length + 1 ≤ weight next nodes visited := by
  obtain ⟨front, back, rfl⟩ := List.append_of_mem inside
  have first := weight_mono next front (List.subset_cons_self node visited)
  have last := weight_mono next back (List.subset_cons_self node visited)
  simp only [weight] at first last ⊢
  simp only [List.map_append, List.map_cons, List.sum_append, List.sum_cons, List.mem_cons_self,
    if_true, fresh, if_false]
  omega

variable (next) in
theorem step_pending {stack : List (Node × Bool)} (top : search.stack = (node, false) :: stack)
    (fresh : node ∉ search.visited) :
    search.step next = (next node).foldl (Search.look node)
      { search with
        visited := node :: search.visited
        onStack := node :: search.onStack
        stack := (node, true) :: stack } := by
  rw [Search.step, top]
  exact if_neg fresh

variable (next) in
/-- In a bounded number of steps, a search explores nodes and comes back to a stack. -/
def Returns (nodes pending : List Node) (stack : List (Node × Bool)) (search : Search Node) :
    Prop :=
  ∃ steps, Explores next search.onStack pending search ((Search.step next)^[steps] search) ∧
    ((Search.step next)^[steps] search).stack = stack ∧
    steps + weight next nodes ((Search.step next)^[steps] search).visited ≤
      weight next nodes search.visited + pending.length

theorem returns_visited {stack : List (Node × Bool)} (top : search.stack = (node, false) :: stack)
    (closed : Closed next search.onStack search.visited) (old : node ∈ search.visited) :
    Returns next nodes [node] stack search := by
  have stepped : search.step next = { search with stack } := by
    rw [Search.step, top]
    exact if_pos old
  refine ⟨1, ?_, ?_, ?_⟩ <;> rw [Function.iterate_one, stepped]
  · exact explores_visited closed old stack
  · exact (Nat.add_comm ..).le

theorem returns_nil {stack : List (Node × Bool)} (top : search.stack = stack) :
    Returns next nodes [] stack search := by
  refine ⟨0, ⟨rfl, by simp, by simp [Found], fun _ => .inl⟩, top, ?_⟩
  simp

theorem returns_cons {pending : List Node} {middle stack : List (Node × Bool)}
    (first : Returns next nodes [node] middle search)
    (rest : ∀ after : Search Node, Explores next search.onStack [node] search after →
      after.stack = middle → Returns next nodes pending stack after) :
    Returns next nodes (node :: pending) stack search := by
  obtain ⟨steps, explores, between, few⟩ := first
  obtain ⟨more, exploresRest, last, fewer⟩ := rest _ explores between
  refine ⟨more + steps, ?_, ?_, ?_⟩ <;> rw [Function.iterate_add_apply]
  · rw [explores.onStack] at exploresRest
    exact explores.cons exploresRest
  · exact last
  · simp only [List.length_cons, List.length_nil] at few ⊢
    omega

/-- Pending nodes are explored one after the other; those that are known are not on the stack. -/
theorem returns_pending {limit : Nat} {known pending : List Node} {stack : List (Node × Bool)}
    (single : ∀ (search : Search Node) node stack, search.stack = (node, false) :: stack →
      node ∈ nodes → Closed next search.onStack search.visited → node ∉ search.onStack →
      weight next nodes search.visited < limit → Returns next nodes [node] stack search)
    (inside : pending ⊆ nodes)
    (top : search.stack = (pending.filter (· ∉ known)).map (·, false) ++ stack)
    (closed : Closed next search.onStack search.visited) (old : known ⊆ search.visited)
    (searched : search.onStack ⊆ known) (enough : weight next nodes search.visited < limit) :
    Returns next nodes pending stack search := by
  induction pending generalizing search with
  | nil => exact returns_nil top
  | cons node pending ih =>
      rw [List.cons_subset] at inside
      have rest (after : Search Node) (explores : Explores next search.onStack [node] search after)
          (top : after.stack = (pending.filter (· ∉ known)).map (·, false) ++ stack) :
          Returns next nodes pending stack after := by
        have more : search.visited ⊆ after.visited := fun other member =>
          (explores.visited other).mpr (.inl member)
        refine ih inside.2 top ?_ (List.Subset.trans old more) ?_ ?_
        · rw [explores.onStack]
          exact explores.closed closed
        · rwa [explores.onStack]
        · exact (weight_mono _ _ more).trans_lt enough
      by_cases skipped : node ∈ known
      · have same : search.stack = (pending.filter (· ∉ known)).map (·, false) ++ stack := by
          rw [top, List.filter_cons_of_neg (by simpa using skipped)]
        obtain ⟨steps, explores, last, few⟩ := rest search
          (explores_visited closed (old skipped) search.stack) same
        refine ⟨steps, ?_, last, by simpa [← Nat.add_assoc] using few.trans (Nat.le_succ _)⟩
        exact (explores_visited closed (old skipped) search.stack).cons explores
      · rw [List.filter_cons_of_pos (by simpa using skipped), List.map_cons, List.cons_append] at top
        refine returns_cons ?_ rest
        exact single search node _ top inside.1 closed (fun member => skipped (searched member))
          enough

/-- A search explores the node on top of its stack. -/
theorem returns_node (complete : ∀ node, next node ⊆ nodes) (limit : Nat) (search : Search Node)
    (node : Node) (stack : List (Node × Bool)) (top : search.stack = (node, false) :: stack)
    (inside : node ∈ nodes) (closed : Closed next search.onStack search.visited)
    (outside : node ∉ search.onStack) (enough : weight next nodes search.visited < limit) :
    Returns next nodes [node] stack search := by
  induction limit generalizing search node stack with
  | zero => omega
  | succ limit ih =>
      by_cases old : node ∈ search.visited
      · exact returns_visited top closed old
      let entered : Search Node :=
        { search with
          visited := node :: search.visited
          onStack := node :: search.onStack
          stack := (node, true) :: stack }
      have lighter := weight_cons next inside old
      have subset : entered.onStack ⊆ entered.visited :=
        List.cons_subset_cons node closed.1
      obtain ⟨onStack, visited, pending, marked, reached⟩ :=
        @foldl_look _ node _ entered subset (next node)
      have stepped := step_pending next top old
      have still : Closed next (node :: search.onStack) (node :: search.visited) := by
        refine ⟨subset, ?_⟩
        intro other member apart successor edge
        rw [List.mem_cons, not_or] at apart
        have older := (List.mem_cons.mp member).resolve_left apart.1
        exact List.mem_cons_of_mem _ (closed.2 other older apart.2 successor edge)
      -- The successors are explored with the node on the stack, and then it is left.
      have successors : Returns next nodes (next node).reverse ((node, true) :: stack)
          ((next node).foldl (Search.look node) entered) := by
        refine returns_pending ih (fun other member => ?_) pending ?_ ?_ ?_ ?_
        · exact complete node (List.mem_reverse.mp member)
        · rwa [onStack, visited]
        · rw [visited]
          exact List.Subset.refl _
        · rw [onStack]
          exact subset
        · rw [visited]
          simp only [entered]
          omega
      obtain ⟨steps, explores, last, few⟩ := successors
      rw [onStack] at explores
      rw [visited, List.length_reverse] at few
      have popped (after : Search Node) (top : after.stack = (node, true) :: stack) :
          after.step next = { after with onStack := after.onStack.erase node, stack } := by
        rw [Search.step, top]
      refine ⟨1 + (steps + 1), ?_, ?_, ?_⟩ <;>
        rw [Function.iterate_add_apply, Function.iterate_add_apply, Function.iterate_one, stepped,
          popped _ last]
      · refine explores_new closed old stack _ ?_ visited marked reached explores
        rw [explores.onStack, onStack]
        exact List.erase_cons_head node search.onStack
      · simp only [entered, List.length_singleton] at few ⊢
        omega

/-- **Back edges.** A search marks the ends of the edges that go back on the first paths from its
root, and reaches only what the root leads to. -/
theorem run_spec (complete : ∀ node, next node ⊆ nodes) {root : Node} (inside : root ∈ nodes)
    (reached marked : List Node) :
    (run next nodes root reached marked).stack = [] ∧
      (∀ node, node ∈ (run next nodes root reached marked).marked ↔
        node ∈ marked ∨ OnBackEdge next root node) ∧
      ∀ node ∈ (run next nodes root reached marked).reached,
        node ∈ reached ∨
          Relation.TransGen (fun node successor => successor ∈ next node) root node := by
  have closed : Closed next ([] : List Node) [] := ⟨List.Subset.refl _, nofun⟩
  obtain ⟨steps, explores, last, few⟩ := returns_node complete _ (.start root reached marked) root
    [] rfl inside closed List.not_mem_nil (Nat.lt_succ_self _)
  have rest (more : Nat) (after : Search Node) (done : after.stack = []) :
      (Search.step next)^[more] after = after := by
    refine Function.iterate_fixed ?_ more
    rw [Search.step, done]
  have final : run next nodes root reached marked =
      (Search.step next)^[steps] (.start root reached marked) := by
    have enough : steps ≤ weight next nodes [] + 1 := (Nat.le_add_right ..).trans few
    rw [run, ← Nat.sub_add_cancel enough, Function.iterate_add_apply, rest _ _ last]
  rw [final]
  refine ⟨last, fun node => ?_, fun node member => ?_⟩
  · rw [explores.marked]
    refine or_congr_right ⟨?_, ?_⟩
    · rintro ⟨target, path, -, found, ends⟩
      exact ⟨target, path, (found.resolve_right fun none => none.2).2, ends⟩
    · rintro ⟨target, path, first, ends⟩
      exact ⟨target, path, List.not_mem_nil, .inl ⟨List.not_mem_nil, first⟩, ends⟩
  · rcases explores.reached node member with old | ⟨_, same, last, leads, edge⟩
    · exact .inl old
    · obtain rfl := List.mem_singleton.mp same
      have steps := Relation.ReflTransGen.mono (fun _ _ step => step.1) _ _ leads.2
      exact .inr (Relation.TransGen.tail' steps edge)

end BackEdges
