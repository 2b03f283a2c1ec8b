import Mathlib.Data.List.Count

/-!
# Runs of a flow graph

Walks between nodes and runs to an exit, as lists of the nodes visited.  Two nodes are visited
equally often by all runs exactly where they alternate, one of them always first.
-/

/-- A flow graph; an exit may have successors. -/
structure FlowGraph (Node : Type*) where
  edge : Node → Node → Prop
  entry : Node
  exit : Node → Prop

namespace FlowGraph

variable {Node : Type*} (g : FlowGraph Node)

/-- A walk from a node to another, with the nodes visited before the last. -/
inductive Walk : Node → List Node → Node → Prop
  | nil (node : Node) : Walk node [] node
  | cons {node next last : Node} {nodes : List Node} :
      g.edge node next → Walk next nodes last → Walk node (node :: nodes) last

/-- A run from a node to an exit, with all nodes visited. -/
inductive Run : Node → List Node → Prop
  | exit {node : Node} : g.exit node → Run node [node]
  | step {node next : Node} {nodes : List Node} :
      g.edge node next → Run next nodes → Run node (node :: nodes)

def Reached (node : Node) : Prop := ∃ nodes, g.Walk g.entry nodes node

/-- Some run leads on to an exit. -/
def Finishes (node : Node) : Prop := ∃ nodes, g.Run node nodes

/-- Every walk from the entry passes the first node before the second. -/
def Dominates (node other : Node) : Prop := ∀ nodes, g.Walk g.entry nodes other → node ∈ nodes

variable {g} {node next last : Node} {nodes others : List Node}

theorem Walk.append (walk : g.Walk node nodes next) (rest : g.Walk next others last) :
    g.Walk node (nodes ++ others) last := by
  induction walk with
  | nil => exact rest
  | cons edge _ ih => exact .cons edge (ih rest)

theorem Walk.run (walk : g.Walk node nodes next) (rest : g.Run next others) :
    g.Run node (nodes ++ others) := by
  induction walk with
  | nil => exact rest
  | cons edge _ ih => exact .step edge (ih rest)

theorem Walk.split (walk : g.Walk node (nodes ++ next :: others) last) :
    g.Walk node nodes next ∧ g.Walk next (next :: others) last := by
  induction nodes generalizing node with
  | nil =>
      cases walk with
      | cons edge rest => exact ⟨.nil _, .cons edge rest⟩
  | cons first nodes ih =>
      cases walk with
      | cons edge rest =>
          obtain ⟨front, back⟩ := ih rest
          exact ⟨.cons edge front, back⟩

theorem Run.split (run : g.Run node (nodes ++ next :: others)) :
    g.Walk node nodes next ∧ g.Run next (next :: others) := by
  induction nodes generalizing node with
  | nil =>
      cases run with
      | exit isExit => exact ⟨.nil _, .exit isExit⟩
      | step edge rest => exact ⟨.nil _, .step edge rest⟩
  | cons first nodes ih =>
      rw [List.cons_append] at run
      generalize whole : nodes ++ next :: others = rest at run
      cases run with
      | exit _ => simp at whole
      | step edge run =>
          subst whole
          obtain ⟨front, back⟩ := ih run
          exact ⟨.cons edge front, back⟩

theorem Run.eq_cons (run : g.Run node nodes) : ∃ rest, nodes = node :: rest := by
  cases run with
  | exit _ => exact ⟨[], rfl⟩
  | step _ _ => exact ⟨_, rfl⟩

theorem Run.finishes_of_mem (run : g.Run node nodes) (member : next ∈ nodes) :
    g.Finishes next := by
  obtain ⟨before, after, rfl⟩ := List.append_of_mem member
  exact ⟨_, run.split.2⟩

/-- What a node does to a resource that is held in turns. -/
inductive Role where
  | opens
  | closes
  /-- Only while the resource is held. -/
  | inside
  /-- Only while it is not held. -/
  | outside
  | neutral
  deriving DecidableEq

namespace Role

/-- One turn; none where the role does not fit. -/
def turn (held : Bool) : Role → Option Bool
  | opens => if held then none else some true
  | closes => if held then some false else none
  | inside => if held then some true else none
  | outside => if held then none else some false
  | neutral => some held

def turns (held : Bool) (roles : List Role) : Option Bool := roles.foldlM turn held

def NeedsHeld (role : Role) : Prop := role = closes ∨ role = inside

def NeedsFree (role : Role) : Prop := role = opens ∨ role = outside

@[simp] theorem turns_nil (held : Bool) : turns held [] = some held := rfl

@[simp] theorem turns_cons (held : Bool) (role : Role) (roles : List Role) :
    turns held (role :: roles) = (role.turn held).bind fun held => turns held roles := rfl

theorem turns_append (held : Bool) (roles others : List Role) :
    turns held (roles ++ others) = (turns held roles).bind fun held => turns held others :=
  List.foldlM_append

theorem held_of_needsHeld {role : Role} {held next : Bool} (turn : role.turn held = some next)
    (needs : role.NeedsHeld) : held = true := by
  rcases needs with rfl | rfl <;> cases held <;> first | rfl | cases turn

theorem free_of_needsFree {role : Role} {held next : Bool} (turn : role.turn held = some next)
    (needs : role.NeedsFree) : held = false := by
  rcases needs with rfl | rfl <;> cases held <;> first | rfl | cases turn

theorem next_of_closes {held next : Bool} (turn : closes.turn held = some next) :
    next = false := by
  cases held <;> cases turn
  rfl

theorem next_of_opens {held next : Bool} (turn : opens.turn held = some next) : next = true := by
  cases held <;> cases turn
  rfl

/-- Without an opening a free resource stays free. -/
theorem turns_free {roles : List Role} (none : opens ∉ roles) {held : Bool}
    (took : turns false roles = some held) : held = false := by
  induction roles with
  | nil => exact (Option.some.inj took).symm
  | cons role roles ih =>
      obtain ⟨other, rest⟩ := List.ne_and_not_mem_of_not_mem_cons none
      cases role <;> simp [turn] at took other <;> exact ih rest took

/-- Without a closing a held resource stays held. -/
theorem turns_held {roles : List Role} (none : closes ∉ roles) {held : Bool}
    (took : turns true roles = some held) : held = true := by
  induction roles with
  | nil => exact (Option.some.inj took).symm
  | cons role roles ih =>
      obtain ⟨other, rest⟩ := List.ne_and_not_mem_of_not_mem_cons none
      cases role <;> simp [turn] at took other <;> exact ih rest took

end Role

/-- The conditions, on walks between two events, under which runs take turns. -/
structure Disciplined (g : FlowGraph Node) (role : Node → Role) : Prop where
  opened : ∀ nodes node, g.Walk g.entry nodes node → g.Finishes node → (role node).NeedsHeld →
    ∃ before ∈ nodes, role before = .opens
  reopened : ∀ nodes first node, g.Reached first → role first = .closes →
    g.Walk first (first :: nodes) node → g.Finishes node → (role node).NeedsHeld →
      ∃ before ∈ nodes, role before = .opens
  closed : ∀ nodes first node, g.Reached first → role first = .opens →
    g.Walk first (first :: nodes) node → g.Finishes node → (role node).NeedsFree →
      ∃ before ∈ nodes, role before = .closes
  ended : ∀ nodes first, g.Reached first → role first = .opens → g.Run first (first :: nodes) →
    ∃ before ∈ nodes, role before = .closes

variable {role : Node → Role}

/-- What a walk from the entry says about the resource. -/
inductive Holds (role : Node → Role) : Bool → List Node → Prop
  | held (before after : List Node) {node : Node} : role node = .opens →
      (∀ other ∈ after, role other ≠ .closes) → Holds role true (before ++ node :: after)
  | fresh {nodes : List Node} : (∀ other ∈ nodes, role other ≠ .opens) → Holds role false nodes
  | free (before after : List Node) {node : Node} : role node = .closes →
      (∀ other ∈ after, role other ≠ .opens) → Holds role false (before ++ node :: after)

/-- A node that neither opens nor closes changes nothing. -/
theorem Holds.still {held : Bool} (holds : Holds role held nodes) (opens : role node ≠ .opens)
    (closes : role node ≠ .closes) : Holds role held (nodes ++ [node]) := by
  have tail {nodes : List Node} {kind : Role} (all : ∀ other ∈ nodes, role other ≠ kind)
      (here : role node ≠ kind) : ∀ other ∈ nodes ++ [node], role other ≠ kind := by
    intro other member
    rcases List.mem_append.mp member with old | new
    · exact all other old
    · exact List.mem_singleton.mp new ▸ here
  cases holds with
  | held before after opened none =>
      rw [List.append_assoc, List.cons_append]
      exact .held before _ opened (tail none closes)
  | fresh none => exact .fresh (tail none opens)
  | free before after closed none =>
      rw [List.append_assoc, List.cons_append]
      exact .free before _ closed (tail none opens)

/-- In a disciplined graph a node that needs the resource is reached with it. -/
theorem Disciplined.held_of_needsHeld (disciplined : g.Disciplined role)
    (walk : g.Walk g.entry nodes node) (finishes : g.Finishes node) {held : Bool}
    (holds : Holds role held nodes) (needs : (role node).NeedsHeld) : held = true := by
  cases holds with
  | held => rfl
  | fresh none =>
      obtain ⟨before, member, opened⟩ := disciplined.opened nodes node walk finishes needs
      exact absurd opened (none before member)
  | free before after closed none =>
      obtain ⟨front, back⟩ := walk.split
      obtain ⟨other, member, opened⟩ :=
        disciplined.reopened after _ node ⟨_, front⟩ closed back finishes needs
      exact absurd opened (none other member)

/-- In a disciplined graph a node that needs the resource free is reached without it. -/
theorem Disciplined.free_of_needsFree (disciplined : g.Disciplined role)
    (walk : g.Walk g.entry nodes node) (finishes : g.Finishes node) {held : Bool}
    (holds : Holds role held nodes) (needs : (role node).NeedsFree) : held = false := by
  cases holds with
  | fresh => rfl
  | free => rfl
  | held before after opened none =>
      obtain ⟨front, back⟩ := walk.split
      obtain ⟨other, member, closed⟩ :=
        disciplined.closed after _ node ⟨_, front⟩ opened back finishes needs
      exact absurd closed (none other member)

/-- In a disciplined graph each node reached fits. -/
theorem Disciplined.turn (disciplined : g.Disciplined role) (walk : g.Walk g.entry nodes node)
    (finishes : g.Finishes node) {held : Bool} (holds : Holds role held nodes) :
    ∃ next, (role node).turn held = some next ∧ Holds role next (nodes ++ [node]) := by
  have needsHeld := disciplined.held_of_needsHeld walk finishes holds
  have needsFree := disciplined.free_of_needsFree walk finishes holds
  have nothing {kind : Role} : ∀ other ∈ ([] : List Node), role other ≠ kind := nofun
  cases kind : role node with
  | opens =>
      obtain rfl := needsFree (.inl kind)
      exact ⟨true, rfl, .held nodes [] kind nothing⟩
  | closes =>
      obtain rfl := needsHeld (.inl kind)
      exact ⟨false, rfl, .free nodes [] kind nothing⟩
  | inside =>
      obtain rfl := needsHeld (.inr kind)
      exact ⟨true, rfl, holds.still (by simp [kind]) (by simp [kind])⟩
  | outside =>
      obtain rfl := needsFree (.inr kind)
      exact ⟨false, rfl, holds.still (by simp [kind]) (by simp [kind])⟩
  | neutral => exact ⟨held, rfl, holds.still (by simp [kind]) (by simp [kind])⟩

/-- Runs of a disciplined graph take turns, from any walk on. -/
theorem Disciplined.turns_run (disciplined : g.Disciplined role) (run : g.Run node others)
    (walk : g.Walk g.entry nodes node) {held : Bool} (holds : Holds role held nodes) :
    Role.turns held (others.map role) = some false := by
  induction run generalizing nodes held with
  | @exit node isExit =>
      obtain ⟨next, turn, holds⟩ := disciplined.turn walk ⟨_, .exit isExit⟩ holds
      rw [List.map_singleton, Role.turns_cons, turn]
      cases next with
      | false => rfl
      | true =>
          have complete := walk.run (.exit isExit)
          generalize visited : nodes ++ [node] = whole at holds complete
          cases holds with
          | held before after opened none =>
              obtain ⟨front, back⟩ := complete.split
              obtain ⟨other, member, closed⟩ := disciplined.ended after _ ⟨_, front⟩ opened back
              exact absurd closed (none other member)
  | step edge run ih =>
      obtain ⟨next, turn, holds⟩ := disciplined.turn walk ⟨_, .step edge run⟩ holds
      rw [List.map_cons, Role.turns_cons, turn]
      exact ih (walk.append (.cons edge (.nil _))) holds

/-- All runs take turns exactly in a disciplined graph. -/
theorem disciplined_iff : g.Disciplined role ↔
    ∀ nodes, g.Run g.entry nodes → Role.turns false (nodes.map role) = some false := by
  constructor
  · intro disciplined nodes run
    exact disciplined.turns_run run (.nil _) (.fresh nofun)
  · intro takes
    -- The resource at a node of a run, from the walk that leads to it.
    have arrive {nodes : List Node} {node : Node} (walk : g.Walk g.entry nodes node)
        (finishes : g.Finishes node) : ∃ held next, Role.turns false (nodes.map role) = some held ∧
          (role node).turn held = some next := by
      obtain ⟨rest, run⟩ := finishes
      obtain ⟨tail, rfl⟩ := run.eq_cons
      have whole := takes _ (walk.run run)
      rw [List.map_append, Role.turns_append] at whole
      obtain ⟨held, before, whole⟩ := Option.bind_eq_some_iff.mp whole
      rw [List.map_cons, Role.turns_cons] at whole
      obtain ⟨next, turn, -⟩ := Option.bind_eq_some_iff.mp whole
      exact ⟨held, next, before, turn⟩
    have pass {front nodes : List Node} {first : Node} {held : Bool}
        (whole : Role.turns false ((front ++ first :: nodes).map role) = some held) :
        ∃ before next, (role first).turn before = some next ∧
          Role.turns next (nodes.map role) = some held := by
      rw [List.map_append, Role.turns_append] at whole
      obtain ⟨before, -, whole⟩ := Option.bind_eq_some_iff.mp whole
      rw [List.map_cons, Role.turns_cons] at whole
      obtain ⟨next, turn, rest⟩ := Option.bind_eq_some_iff.mp whole
      exact ⟨before, next, turn, rest⟩
    constructor
    case opened =>
      intro nodes node walk finishes needs
      obtain ⟨held, next, before, turn⟩ := arrive walk finishes
      by_contra none
      have free := Role.turns_free (fun member => none (List.mem_map.mp member)) before
      rw [Role.held_of_needsHeld turn needs] at free
      cases free
    case reopened =>
      rintro nodes first node ⟨front, reached⟩ closes walk finishes needs
      obtain ⟨held, next, before, turn⟩ := arrive (reached.append walk) finishes
      obtain ⟨_, after, firstTurn, rest⟩ := pass before
      rw [closes] at firstTurn
      obtain rfl := Role.next_of_closes firstTurn
      by_contra none
      have free := Role.turns_free (fun member => none (List.mem_map.mp member)) rest
      rw [Role.held_of_needsHeld turn needs] at free
      cases free
    case closed =>
      rintro nodes first node ⟨front, reached⟩ opens walk finishes needs
      obtain ⟨held, next, before, turn⟩ := arrive (reached.append walk) finishes
      obtain ⟨_, after, firstTurn, rest⟩ := pass before
      rw [opens] at firstTurn
      obtain rfl := Role.next_of_opens firstTurn
      by_contra none
      have held := Role.turns_held (fun member => none (List.mem_map.mp member)) rest
      rw [Role.free_of_needsFree turn needs] at held
      cases held
    case ended =>
      rintro nodes first ⟨front, reached⟩ opens run
      obtain ⟨_, after, firstTurn, rest⟩ := pass (takes _ (reached.run run))
      rw [opens] at firstTurn
      obtain rfl := Role.next_of_opens firstTurn
      by_contra none
      cases Role.turns_held (fun member => none (List.mem_map.mp member)) rest

/-- What takes turns is opened as often as it is closed, once more while it is held. -/
theorem Role.count_of_turns {roles : List Role} {held last : Bool}
    (took : turns held roles = some last) :
    roles.count closes + last.toNat = roles.count opens + held.toNat := by
  induction roles generalizing held with
  | nil =>
      cases took
      rfl
  | cons role roles ih =>
      obtain ⟨next, turn, rest⟩ := Option.bind_eq_some_iff.mp took
      have counts := ih rest
      cases role <;> cases held <;> cases turn <;> simp at counts ⊢ <;> omega

/-! ## Two nodes visited equally often -/

variable [DecidableEq Node]

/-- The first node opens and the second closes. -/
def alternation (first second node : Node) : Role :=
  if node = first then .opens else if node = second then .closes else .neutral

section

variable {first second : Node}

theorem alternation_eq_opens : alternation first second node = .opens ↔ node = first := by
  unfold alternation
  split
  · simp_all
  · split <;> simp_all

theorem alternation_eq_closes (apart : first ≠ second) :
    alternation first second node = .closes ↔ node = second := by
  unfold alternation
  split
  · rename_i here
    simp [here, apart]
  · split <;> simp_all

theorem alternation_needsHeld (apart : first ≠ second) :
    (alternation first second node).NeedsHeld ↔ node = second := by
  rw [Role.NeedsHeld, alternation_eq_closes apart, or_iff_left]
  unfold alternation
  split
  · nofun
  · split <;> nofun

theorem alternation_needsFree :
    (alternation first second node).NeedsFree ↔ node = first := by
  rw [Role.NeedsFree, alternation_eq_opens, or_iff_left]
  unfold alternation
  split
  · nofun
  · split <;> nofun

theorem count_opens_alternation (nodes : List Node) :
    (nodes.map (alternation first second)).count .opens = nodes.count first := by
  rw [List.count_eq_countP, List.countP_map, List.count_eq_countP]
  refine List.countP_congr fun node _ => ?_
  simp [alternation_eq_opens]

theorem count_closes_alternation (apart : first ≠ second) (nodes : List Node) :
    (nodes.map (alternation first second)).count .closes = nodes.count second := by
  rw [List.count_eq_countP, List.countP_map, List.count_eq_countP]
  refine List.countP_congr fun node _ => ?_
  simp [alternation_eq_closes apart]

/-- A walk to a node stops at its first visit. -/
theorem Walk.first_visit (walk : g.Walk node nodes last) :
    ∃ front, g.Walk node front last ∧ last ∉ front ∧ front ⊆ nodes := by
  by_cases visited : last ∈ nodes
  · obtain ⟨front, back, rfl, fresh⟩ := List.eq_append_cons_of_mem visited
    exact ⟨front, walk.split.1, fresh, List.subset_append_left _ _⟩
  · exact ⟨nodes, walk, visited, List.Subset.refl _⟩

variable (g) in
/-- Every run visits the nodes equally often. -/
def VisitedEqually (first second : Node) : Prop :=
  ∀ nodes, g.Run g.entry nodes → nodes.count second = nodes.count first

/-- A walk from a node back to it passes the other node: otherwise it could be repeated. -/
theorem VisitedEqually.cycle (equal : g.VisitedEqually first second) (apart : first ≠ second)
    (reached : g.Reached first) (walk : g.Walk first (first :: nodes) first)
    (finishes : g.Finishes first) : second ∈ nodes := by
  obtain ⟨front, reached⟩ := reached
  obtain ⟨rest, run⟩ := finishes
  by_contra none
  have once := equal _ (reached.run run)
  have twice := equal _ (reached.run (walk.run run))
  have absent := List.count_eq_zero.mpr none
  simp only [List.count_append, List.count_cons_self, List.count_cons_of_ne apart] at once twice
  omega

/-- One of the nodes comes first on all walks from the entry. -/
theorem VisitedEqually.order (equal : g.VisitedEqually first second) (apart : first ≠ second)
    (walk : g.Walk g.entry nodes first) (free : second ∉ nodes)
    (other : g.Walk g.entry others second) (otherFinishes : g.Finishes second) :
    first ∈ others := by
  by_contra otherFree
  obtain ⟨front, walk, fresh, inside⟩ := walk.first_visit
  obtain ⟨otherFront, other, otherFresh, otherInside⟩ := other.first_visit
  have free : second ∉ front := fun member => free (inside member)
  have otherFree : first ∉ otherFront := fun member => otherFree (otherInside member)
  obtain ⟨rest, run⟩ := otherFinishes
  obtain ⟨tail, rfl⟩ := run.eq_cons
  -- A run from the second node visits the first later.
  have counts := equal _ (other.run run)
  simp only [List.count_append, List.count_eq_zero.mpr otherFresh,
    List.count_eq_zero.mpr otherFree] at counts
  have later : first ∈ second :: tail := by
    refine List.count_pos_iff.mp ?_
    rw [List.count_cons_self] at counts
    omega
  obtain ⟨before, after, split, absent⟩ := List.eq_append_cons_of_mem later
  rw [split] at run counts
  have rest := equal _ (walk.run run.split.2)
  cases before with
  | nil => exact apart (List.cons.inj split).1.symm
  | cons head before =>
      obtain rfl := (List.cons.inj split).1
      simp only [List.count_append, List.count_eq_zero.mpr free, List.count_eq_zero.mpr fresh,
        List.count_eq_zero.mpr absent, List.count_cons_self] at counts rest
      omega

theorem VisitedEqually.symm (equal : g.VisitedEqually first second) :
    g.VisitedEqually second first := fun nodes run => (equal nodes run).symm

/-- Nodes visited equally often alternate where the first comes first on some walk. -/
theorem VisitedEqually.disciplined (equal : g.VisitedEqually first second) (apart : first ≠ second)
    (walk : g.Walk g.entry nodes first) (free : second ∉ nodes) :
    g.Disciplined (alternation first second) where
  opened others node other finishes needs := by
    obtain rfl := (alternation_needsHeld apart).mp needs
    exact ⟨first, equal.order apart walk free other finishes, alternation_eq_opens.mpr rfl⟩
  reopened others node last reached closes other finishes needs := by
    obtain rfl := (alternation_eq_closes apart).mp closes
    obtain rfl := (alternation_needsHeld apart).mp needs
    exact ⟨first, equal.symm.cycle apart.symm reached other finishes,
      alternation_eq_opens.mpr rfl⟩
  closed others node last reached opens other finishes needs := by
    obtain rfl := alternation_eq_opens.mp opens
    obtain rfl := alternation_needsFree.mp needs
    exact ⟨second, equal.cycle apart reached other finishes, (alternation_eq_closes apart).mpr rfl⟩
  ended others node reached opens run := by
    obtain rfl := alternation_eq_opens.mp opens
    obtain ⟨front, walk, fresh, inside⟩ := walk.first_visit
    have free : second ∉ front := fun member => free (inside member)
    have counts := equal _ (walk.run run)
    simp only [List.count_append, List.count_eq_zero.mpr free, List.count_eq_zero.mpr fresh,
      List.count_cons_self, List.count_cons_of_ne apart] at counts
    exact ⟨second, List.count_pos_iff.mp (by omega), (alternation_eq_closes apart).mpr rfl⟩

omit [DecidableEq Node] in
/-- Nodes that dominate each other are not reached. -/
theorem not_reached_of_dominates (ahead : g.Dominates second first)
    (behind : g.Dominates first second) : ¬ g.Reached first := by
  rintro ⟨nodes, walk⟩
  induction count : nodes.length using Nat.strongRecOn generalizing nodes with
  | ind count ih =>
      obtain ⟨front, back, rfl⟩ := List.append_of_mem (ahead nodes walk)
      obtain ⟨start, rest, rfl⟩ := List.append_of_mem (behind front walk.split.1)
      refine ih start.length ?_ start walk.split.1.split.1 rfl
      simp only [List.length_append, List.length_cons] at count
      omega

/-- All runs visit two nodes equally often exactly where these alternate, one always first. -/
theorem visitedEqually_iff (apart : first ≠ second) : g.VisitedEqually first second ↔
    g.Disciplined (alternation first second) ∨ g.Disciplined (alternation second first) := by
  constructor
  · intro equal
    by_cases ahead : ∃ nodes, g.Walk g.entry nodes first ∧ second ∉ nodes
    · obtain ⟨nodes, walk, free⟩ := ahead
      exact .inl (equal.disciplined apart walk free)
    by_cases behind : ∃ nodes, g.Walk g.entry nodes second ∧ first ∉ nodes
    · obtain ⟨nodes, walk, free⟩ := behind
      exact .inr (equal.symm.disciplined apart.symm walk free)
    -- Otherwise neither node is reached.
    push Not at ahead behind
    have first_unreached : ¬ g.Reached first := not_reached_of_dominates ahead behind
    have second_unreached : ¬ g.Reached second := not_reached_of_dominates behind ahead
    exact .inl
      { opened := fun nodes node walk _ needs => absurd
          ⟨nodes, (alternation_needsHeld apart).mp needs ▸ walk⟩ second_unreached
        reopened := fun _ node _ reached closes => absurd
          ((alternation_eq_closes apart).mp closes ▸ reached) second_unreached
        closed := fun _ node _ reached opens => absurd
          (alternation_eq_opens.mp opens ▸ reached) first_unreached
        ended := fun _ node reached opens => absurd
          (alternation_eq_opens.mp opens ▸ reached) first_unreached }
  · rintro (disciplined | disciplined) nodes run
    · have counts := Role.count_of_turns (disciplined_iff.mp disciplined nodes run)
      rw [count_opens_alternation, count_closes_alternation apart] at counts
      exact Nat.add_right_cancel counts
    · have counts := Role.count_of_turns (disciplined_iff.mp disciplined nodes run)
      rw [count_opens_alternation, count_closes_alternation apart.symm] at counts
      exact (Nat.add_right_cancel counts).symm

end

end FlowGraph
