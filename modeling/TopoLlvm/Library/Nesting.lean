import TopoLlvm.Library.FlowGraph
import Mathlib.Data.List.Nodup

/-!
# Spans along the runs of a flow graph

Nodes open and close spans.  All runs nest the spans exactly where each span is opened and closed in
turns and no walk crosses two spans.
-/

namespace FlowGraph

/-- The end of a span at a node. -/
inductive Mark (Span : Type*) where
  | opens (span : Span)
  | closes (span : Span)
  deriving DecidableEq

/-- The marks of the nodes; a span is opened at one node only. -/
structure Marking (Node Span : Type*) where
  mark : Node → Option (Mark Span)
  opens_inj : ∀ {node other : Node} {span : Span}, mark node = some (.opens span) →
    mark other = some (.opens span) → node = other

section

variable {Node Span : Type*} [DecidableEq Span]

/-- What a mark does to the open spans, innermost first; only the innermost can be closed. -/
def Mark.apply (stack : List Span) : Mark Span → Option (List Span)
  | .opens span => some (span :: stack)
  | .closes span => if stack.head? = some span then some stack.tail else none

namespace Marking

variable (marking : Marking Node Span)

/-- The open spans after some nodes; none where the nodes do not nest. -/
def nest (stack : List Span) (nodes : List Node) : Option (List Span) :=
  (nodes.filterMap marking.mark).foldlM Mark.apply stack

/-- What a node does to one span. -/
def role (span : Span) (node : Node) : Role :=
  if marking.mark node = some (.opens span) then .opens
  else if marking.mark node = some (.closes span) then .closes
  else .neutral

variable {marking} {stack : List Span} {span other : Span} {node : Node} {nodes others : List Node}

@[simp]
theorem nest_nil : marking.nest stack [] = some stack := rfl

theorem nest_append : marking.nest stack (nodes ++ others) =
    (marking.nest stack nodes).bind fun stack => marking.nest stack others := by
  rw [nest, List.filterMap_append, List.foldlM_append]
  rfl

theorem nest_cons : marking.nest stack (node :: nodes) =
    (marking.nest stack [node]).bind fun stack => marking.nest stack nodes :=
  @nest_append _ _ _ marking stack [node] nodes

theorem nest_unmarked (unmarked : marking.mark node = none) :
    marking.nest stack [node] = some stack := by
  simp [nest, unmarked]

theorem nest_opens (opens : marking.mark node = some (.opens span)) :
    marking.nest stack [node] = some (span :: stack) := by
  simp [nest, opens, Mark.apply]

theorem nest_closes (closes : marking.mark node = some (.closes span)) :
    marking.nest stack [node] = if stack.head? = some span then some stack.tail else none := by
  simp [nest, closes, Mark.apply]

theorem role_opens : marking.role span node = .opens ↔
    marking.mark node = some (.opens span) := by
  unfold role
  split_ifs <;> simp_all

theorem role_closes : marking.role span node = .closes ↔
    marking.mark node = some (.closes span) := by
  unfold role
  split_ifs <;> simp_all

theorem role_neutral : marking.role span node = .neutral ↔
    marking.mark node ≠ some (.opens span) ∧ marking.mark node ≠ some (.closes span) := by
  unfold role
  split_ifs <;> simp_all

theorem role_cases (span : Span) (node : Node) : marking.mark node = some (.opens span) ∨
    marking.mark node = some (.closes span) ∨ marking.role span node = .neutral := by
  rw [role_neutral]
  tauto

/-- A node changes how often a span is open by what it does to it. -/
theorem count_nest_single (span : Span) {next : List Span}
    (took : marking.nest stack [node] = some next) :
    next.count span + [marking.role span node].count .closes =
      stack.count span + [marking.role span node].count .opens := by
  cases mark : marking.mark node with
  | none =>
      rw [nest_unmarked mark] at took
      cases took
      simp [role, mark]
  | some mark' =>
      cases mark' with
      | opens other =>
          rw [nest_opens mark] at took
          cases took
          by_cases same : other = span
          · simp [role, mark, same]
          · simp [role, mark, same, List.count_cons_of_ne same]
      | closes other =>
          rw [nest_closes mark] at took
          split at took
          · rename_i top
            cases took
            obtain ⟨rest, rfl⟩ := List.head?_eq_some_iff.mp top
            by_cases same : other = span
            · simp [role, mark, same]
            · simp [role, mark, same, List.count_cons_of_ne same]
          · cases took

/-- Nodes that nest open and close a span as often as it is open after and before. -/
theorem count_nest (span : Span) {next : List Span} (took : marking.nest stack nodes = some next) :
    next.count span + (nodes.map (marking.role span)).count .closes =
      stack.count span + (nodes.map (marking.role span)).count .opens := by
  induction nodes generalizing stack with
  | nil =>
      cases took
      rfl
  | cons node nodes ih =>
      rw [nest_cons] at took
      obtain ⟨between, first, rest⟩ := Option.bind_eq_some_iff.mp took
      have single := count_nest_single span first
      have others := ih rest
      rw [List.map_cons, ← List.singleton_append, List.count_append, List.count_append]
      omega

theorem mem_nest_single (next : List Span) (took : marking.nest stack [node] = some next)
    (neutral : marking.role span node = .neutral) : span ∈ next ↔ span ∈ stack := by
  have counts := count_nest_single span took
  rw [neutral] at counts
  rw [← List.count_pos_iff, ← List.count_pos_iff]
  simp only [List.count_cons, List.count_nil] at counts
  simp at counts
  omega

end Marking

variable {g : FlowGraph Node} {marking : Marking Node Span} {node : Node} {nodes others : List Node}
  {stack : List Span} {span other : Span}

variable (g marking) in
/-- Every run nests the spans and leaves none open. -/
def Nested : Prop := ∀ nodes, g.Run g.entry nodes → marking.nest [] nodes = some []

variable (g marking) in
/-- A walk opens a span and then another one, and closes the first before the second. -/
def Crosses (span other : Span) : Prop :=
  ∃ front opener between second after closer,
    g.Walk g.entry (front ++ opener :: (between ++ second :: after)) closer ∧
      g.Finishes closer ∧ marking.mark opener = some (.opens span) ∧
      marking.mark second = some (.opens other) ∧ marking.mark closer = some (.closes span) ∧
      (∀ node ∈ between ++ second :: after, marking.role span node = .neutral) ∧
      ∀ node ∈ after, marking.mark node ≠ some (.closes other)

/-! ## What nested runs have -/

theorem Nested.split (nested : g.Nested marking) (walk : g.Walk g.entry nodes node)
    (run : g.Run node others) :
    ∃ stack, marking.nest [] nodes = some stack ∧ marking.nest stack others = some [] := by
  have whole := nested _ (walk.run run)
  rw [Marking.nest_append] at whole
  exact Option.bind_eq_some_iff.mp whole

/-- How often a span is open at a node does not depend on the walk there. -/
theorem Nested.count_eq (nested : g.Nested marking) {nodes' : List Node} {stack' : List Span}
    (walk : g.Walk g.entry nodes node) (walk' : g.Walk g.entry nodes' node)
    (finishes : g.Finishes node) (took : marking.nest [] nodes = some stack)
    (took' : marking.nest [] nodes' = some stack') (span : Span) :
    stack.count span = stack'.count span := by
  obtain ⟨rest, run⟩ := finishes
  obtain ⟨before, first, ends⟩ := nested.split walk run
  obtain ⟨before', first', ends'⟩ := nested.split walk' run
  obtain rfl := Option.some.inj (took.symm.trans first)
  obtain rfl := Option.some.inj (took'.symm.trans first')
  have counts := Marking.count_nest span ends
  have counts' := Marking.count_nest span ends'
  simp only [List.count_nil] at counts counts'
  omega

/-- A span is not open where it is opened. -/
theorem Nested.not_mem_opens (nested : g.Nested marking) (walk : g.Walk g.entry nodes node)
    (finishes : g.Finishes node) (took : marking.nest [] nodes = some stack)
    (opens : marking.mark node = some (.opens span)) : span ∉ stack := by
  classical
  obtain ⟨front, first, fresh, -⟩ := walk.first_visit
  obtain ⟨rest, run⟩ := finishes
  obtain ⟨stack', took', -⟩ := nested.split first run
  have never : (front.map (marking.role span)).count .opens = 0 := by
    rw [List.count_eq_zero]
    intro member
    obtain ⟨earlier, inside, role⟩ := List.mem_map.mp member
    exact fresh (marking.opens_inj (Marking.role_opens.mp role) opens ▸ inside)
  have counts := Marking.count_nest span took'
  rw [List.count_nil] at counts
  rw [← List.count_eq_zero, nested.count_eq walk first ⟨rest, run⟩ took took' span]
  omega

/-- One turn of a span in a nested run. -/
theorem Nested.turn (nested : g.Nested marking) (span : Span) (walk : g.Walk g.entry nodes node)
    (finishes : g.Finishes node) (took : marking.nest [] nodes = some stack)
    (once : stack.count span ≤ 1) :
    ∃ next, marking.nest [] (nodes ++ [node]) = some next ∧ next.count span ≤ 1 ∧
      (marking.role span node).turn (decide (span ∈ stack)) = some (decide (span ∈ next)) := by
  obtain ⟨rest, run⟩ := finishes
  obtain ⟨tail, rfl⟩ := run.eq_cons
  obtain ⟨before, first, ends⟩ := nested.split walk run
  obtain rfl := Option.some.inj (took.symm.trans first)
  rw [Marking.nest_cons] at ends
  obtain ⟨next, moved, -⟩ := Option.bind_eq_some_iff.mp ends
  refine ⟨next, by rw [Marking.nest_append, took, Option.bind_some, moved], ?_⟩
  have counts := Marking.count_nest_single span moved
  rcases marking.role_cases span node with opens | closes | neutral
  · have absent := nested.not_mem_opens walk ⟨_, run⟩ took opens
    have zero := List.count_eq_zero.mpr absent
    rw [Marking.role_opens.mpr opens] at counts ⊢
    simp [zero] at counts
    have inside : span ∈ next := List.count_pos_iff.mp (by omega)
    exact ⟨by omega, by simp [absent, inside, Role.turn]⟩
  · rw [Marking.nest_closes closes] at moved
    split at moved
    · rename_i top
      cases moved
      obtain ⟨rest, rfl⟩ := List.head?_eq_some_iff.mp top
      rw [List.count_cons_self] at once
      have absent : span ∉ rest := List.count_eq_zero.mp (by omega)
      rw [Marking.role_closes.mpr closes]
      exact ⟨by simp [List.count_eq_zero.mpr absent], by simp [absent, Role.turn]⟩
    · cases moved
  · have same := Marking.mem_nest_single next moved neutral
    rw [neutral] at counts ⊢
    simp at counts
    exact ⟨by omega, by simp [same, Role.turn]⟩

/-- Along a nested run each span is opened and closed in turns. -/
theorem Nested.turns (nested : g.Nested marking) (span : Span) (run : g.Run node others)
    (walk : g.Walk g.entry nodes node) (took : marking.nest [] nodes = some stack)
    (once : stack.count span ≤ 1) :
    Role.turns (decide (span ∈ stack)) (others.map (marking.role span)) = some false := by
  induction run generalizing nodes stack with
  | @exit node isExit =>
      obtain ⟨next, after, -, turn⟩ := nested.turn span walk ⟨_, .exit isExit⟩ took once
      have empty := nested _ (walk.run (.exit isExit))
      rw [after] at empty
      obtain rfl := Option.some.inj empty
      simp [turn]
  | step edge run ih =>
      obtain ⟨next, after, single, turn⟩ := nested.turn span walk ⟨_, .step edge run⟩ took once
      rw [List.map_cons, Role.turns_cons, turn]
      exact ih (walk.append (.cons edge (.nil _))) after single

theorem Nested.disciplined (nested : g.Nested marking) (span : Span) :
    g.Disciplined (marking.role span) :=
  disciplined_iff.mpr fun _ run => nested.turns span run (.nil _) rfl (Nat.zero_le _)

/-- What is open below a span stays there until that span is closed. -/
theorem Marking.nest_keeps (upper : List Span) {base next : List Span}
    (took : marking.nest (upper ++ span :: base) nodes = some next)
    (unclosed : ∀ node ∈ nodes, marking.mark node ≠ some (.closes span)) :
    ∃ fresh, next = fresh ++ span :: base ∧
      ∀ other ∈ fresh, other ∈ upper ∨ ∃ node ∈ nodes, marking.mark node = some (.opens other) := by
  induction nodes generalizing upper with
  | nil =>
      cases took
      exact ⟨upper, rfl, fun other member => .inl member⟩
  | cons node nodes ih =>
      obtain ⟨here, later⟩ := List.forall_mem_cons.mp unclosed
      rw [nest_cons] at took
      obtain ⟨between, first, rest⟩ := Option.bind_eq_some_iff.mp took
      have reach {upper' : List Span} (shape : between = upper' ++ span :: base)
          (known : ∀ other ∈ upper', other ∈ upper ∨
            marking.mark node = some (.opens other)) :
          ∃ fresh, next = fresh ++ span :: base ∧ ∀ other ∈ fresh, other ∈ upper ∨
            ∃ opener ∈ node :: nodes, marking.mark opener = some (.opens other) := by
        obtain ⟨fresh, ends, origin⟩ := ih _ (shape ▸ rest) later
        refine ⟨fresh, ends, fun other member => ?_⟩
        rcases origin other member with old | ⟨opener, inside, opens⟩
        · rcases known other old with old | opens
          · exact .inl old
          · exact .inr ⟨node, List.mem_cons_self, opens⟩
        · exact .inr ⟨opener, List.mem_cons_of_mem _ inside, opens⟩
      cases mark : marking.mark node with
      | none =>
          rw [nest_unmarked mark] at first
          cases first
          exact reach rfl fun other member => .inl member
      | some mark' =>
          cases mark' with
          | opens opened =>
              rw [nest_opens mark] at first
              cases first
              refine @reach (opened :: upper) rfl fun other member => ?_
              rcases List.mem_cons.mp member with rfl | old
              · exact .inr mark
              · exact .inl old
          | closes closed =>
              rw [nest_closes mark] at first
              split at first
              · rename_i top
                cases first
                cases upper with
                | nil =>
                    obtain rfl : span = closed := by simpa using top
                    exact absurd mark here
                | cons head upper =>
                    exact reach rfl fun other member => .inl (List.mem_cons_of_mem _ member)
              · cases first

/-- Nested runs cross no spans. -/
theorem Nested.not_crosses (nested : g.Nested marking) (span other : Span) :
    ¬ g.Crosses marking span other := by
  rintro ⟨front, opener, between, second, after, closer, walk, ⟨rest, run⟩, opens, opens', closes,
    neutral, unclosed⟩
  obtain ⟨tail, rfl⟩ := run.eq_cons
  obtain ⟨stack, took, ends⟩ := nested.split walk run
  have shape : front ++ opener :: (between ++ second :: after) =
      (front ++ opener :: between) ++ ([second] ++ after) := by simp
  rw [shape, Marking.nest_append] at took
  obtain ⟨base, -, took⟩ := Option.bind_eq_some_iff.mp took
  rw [Marking.nest_append, Marking.nest_opens opens', Option.bind_some] at took
  obtain ⟨fresh, rfl, origin⟩ := Marking.nest_keeps [] took unclosed
  rw [Marking.nest_cons, Marking.nest_closes closes] at ends
  obtain ⟨_, closed, -⟩ := Option.bind_eq_some_iff.mp ends
  obtain ⟨top, -⟩ := Option.ite_none_right_eq_some.mp closed
  cases fresh with
  | nil =>
      obtain rfl : other = span := by simpa using top
      exact absurd (neutral second (by simp)) (by simp [Marking.role_opens.mpr opens'])
  | cons head fresh =>
      obtain rfl : head = span := by simpa using top
      obtain ⟨again, inside, opens''⟩ := (origin head List.mem_cons_self).resolve_left nofun
      exact absurd (neutral again (by simp [inside])) (by simp [Marking.role_opens.mpr opens''])

/-! ## What makes runs nest -/

/-- The span has been opened, and nothing was done to it since. -/
def Opened (marking : Marking Node Span) (nodes : List Node) (span : Span) : Prop :=
  ∃ front opener after, nodes = front ++ opener :: after ∧
    marking.mark opener = some (.opens span) ∧ ∀ node ∈ after, marking.role span node = .neutral

/-- While the lower span was open the upper one has been opened, and not closed. -/
def Above (marking : Marking Node Span) (nodes : List Node) (upper lower : Span) : Prop :=
  ∃ front opener between second after,
    nodes = front ++ opener :: (between ++ second :: after) ∧
      marking.mark opener = some (.opens lower) ∧ marking.mark second = some (.opens upper) ∧
      (∀ node ∈ between ++ second :: after, marking.role lower node = .neutral) ∧
      ∀ node ∈ after, marking.mark node ≠ some (.closes upper)

theorem Opened.append (opened : Opened marking nodes span)
    (neutral : marking.role span node = .neutral) : Opened marking (nodes ++ [node]) span := by
  obtain ⟨front, opener, after, rfl, opens, still⟩ := opened
  refine ⟨front, opener, after ++ [node], by simp, opens, ?_⟩
  exact List.forall_mem_append.mpr ⟨still, by simpa using neutral⟩

theorem Above.append (above : Above marking nodes other span)
    (neutral : marking.role span node = .neutral)
    (unclosed : marking.mark node ≠ some (.closes other)) :
    Above marking (nodes ++ [node]) other span := by
  obtain ⟨front, opener, between, second, after, rfl, opens, opens', still, unclosed'⟩ := above
  refine ⟨front, opener, between, second, after ++ [node], by simp, opens, opens', ?_, ?_⟩
  · rw [← List.cons_append, ← List.append_assoc]
    exact List.forall_mem_append.mpr ⟨still, by simpa using neutral⟩
  · exact List.forall_mem_append.mpr ⟨unclosed', by simpa using unclosed⟩

/-- A span opened within another is above it. -/
theorem Opened.above (opened : Opened marking nodes span)
    (neutral : marking.role span node = .neutral)
    (opens : marking.mark node = some (.opens other)) :
    Above marking (nodes ++ [node]) other span := by
  obtain ⟨front, opener, after, rfl, opens', still⟩ := opened
  refine ⟨front, opener, after, node, [], by simp, opens', opens, ?_, nofun⟩
  exact List.forall_mem_append.mpr ⟨still, by simpa using neutral⟩

/-- The open spans after a walk, in the order in which they were opened. -/
structure Stacked (marking : Marking Node Span) (nodes : List Node) (stack : List Span) :
    Prop where
  took : marking.nest [] nodes = some stack
  distinct : stack.Nodup
  turns : ∀ span, Role.turns false (nodes.map (marking.role span)) = some (decide (span ∈ stack))
  opened : ∀ span ∈ stack, Opened marking nodes span
  above : stack.Pairwise fun upper lower => Above marking nodes upper lower

theorem stacked_nil : Stacked marking [] [] where
  took := rfl
  distinct := List.nodup_nil
  turns _ := rfl
  opened := nofun
  above := .nil

/-- In a disciplined graph the next node takes a turn of each span. -/
theorem Stacked.turn (stacked : Stacked marking nodes stack)
    (disciplined : g.Disciplined (marking.role span)) (walk : g.Walk g.entry nodes node)
    (finishes : g.Finishes node) :
    ∃ held, (marking.role span node).turn (decide (span ∈ stack)) = some held ∧
      Role.turns false ((nodes ++ [node]).map (marking.role span)) = some held := by
  obtain ⟨rest, run⟩ := finishes
  obtain ⟨tail, rfl⟩ := run.eq_cons
  have whole := disciplined_iff.mp disciplined _ (walk.run run)
  rw [List.map_append, Role.turns_append, stacked.turns span, Option.bind_some, List.map_cons,
    Role.turns_cons] at whole
  obtain ⟨held, turn, -⟩ := Option.bind_eq_some_iff.mp whole
  refine ⟨held, turn, ?_⟩
  rw [List.map_append, Role.turns_append, stacked.turns span, Option.bind_some, List.map_singleton,
    Role.turns_cons, turn]
  rfl

/-- The turns go on as the stack does. -/
theorem Stacked.turns_of (stacked : Stacked marking nodes stack)
    (disciplined : ∀ span, g.Disciplined (marking.role span)) (walk : g.Walk g.entry nodes node)
    (finishes : g.Finishes node) {next : List Span}
    (took : marking.nest stack [node] = some next) (distinct : next.Nodup) (span : Span) :
    Role.turns false ((nodes ++ [node]).map (marking.role span)) =
      some (decide (span ∈ next)) := by
  obtain ⟨held, turn, turns⟩ := stacked.turn (disciplined span) walk finishes
  rw [turns]
  rcases marking.role_cases span node with opens | closes | neutral
  · rw [Marking.nest_opens opens] at took
    cases took
    rw [Marking.role_opens.mpr opens] at turn
    simp [Role.next_of_opens turn]
  · rw [Marking.nest_closes closes] at took
    obtain ⟨top, rest⟩ := Option.ite_none_right_eq_some.mp took
    obtain ⟨below, rfl⟩ := List.head?_eq_some_iff.mp top
    obtain rfl : below = next := Option.some.inj rest
    rw [Marking.role_closes.mpr closes] at turn
    have absent : span ∉ below := (List.nodup_cons.mp stacked.distinct).1
    simp [Role.next_of_closes turn, absent]
  · have same := Marking.mem_nest_single next took neutral
    rw [neutral] at turn
    simp only [Role.turn, Option.some.injEq] at turn
    rw [← turn]
    simp [same]

/-- One node of a run through a disciplined graph without crossings. -/
theorem Stacked.step (stacked : Stacked marking nodes stack)
    (disciplined : ∀ span, g.Disciplined (marking.role span))
    (uncrossed : ∀ span other, ¬ g.Crosses marking span other)
    (walk : g.Walk g.entry nodes node) (finishes : g.Finishes node) :
    ∃ next, Stacked marking (nodes ++ [node]) next := by
  have build {next : List Span} (took : marking.nest stack [node] = some next)
      (distinct : next.Nodup) (opened : ∀ span ∈ next, Opened marking (nodes ++ [node]) span)
      (above : next.Pairwise fun upper lower => Above marking (nodes ++ [node]) upper lower) :
      ∃ next, Stacked marking (nodes ++ [node]) next :=
    ⟨next, by rw [Marking.nest_append, stacked.took, Option.bind_some, took], distinct,
      stacked.turns_of disciplined walk finishes took distinct, opened, above⟩
  cases mark : marking.mark node with
  | none =>
      have neutral (span : Span) : marking.role span node = .neutral :=
        Marking.role_neutral.mpr (by simp [mark])
      exact build (Marking.nest_unmarked mark) stacked.distinct
        (fun span member => (stacked.opened span member).append (neutral span))
        (stacked.above.imp fun above => above.append (neutral _) (by simp [mark]))
  | some mark' =>
      cases mark' with
      | opens span =>
          obtain ⟨held, turn, -⟩ := stacked.turn (disciplined span) walk finishes
          have absent : span ∉ stack := of_decide_eq_false
            (Role.free_of_needsFree turn (.inl (Marking.role_opens.mpr mark)))
          have neutral {other : Span} (member : other ∈ stack) :
              marking.role other node = .neutral :=
            Marking.role_neutral.mpr ⟨by
              rw [mark]
              rintro same
              cases same
              exact absent member, by simp [mark]⟩
          refine build (Marking.nest_opens mark) (List.nodup_cons.mpr ⟨absent, stacked.distinct⟩)
            (List.forall_mem_cons.mpr ⟨⟨nodes, node, [], rfl, mark, nofun⟩, fun other member =>
              (stacked.opened other member).append (neutral member)⟩)
            (List.pairwise_cons.mpr ⟨fun other member =>
              (stacked.opened other member).above (neutral member) mark, ?_⟩)
          exact stacked.above.imp_of_mem fun _ lower above =>
            above.append (neutral lower) (by simp [mark])
      | closes span =>
          obtain ⟨held, turn, -⟩ := stacked.turn (disciplined span) walk finishes
          have inside : span ∈ stack := of_decide_eq_true
            (Role.held_of_needsHeld turn (.inl (Marking.role_closes.mpr mark)))
          cases stack with
          | nil => cases inside
          | cons top rest =>
              obtain ⟨fresh, distinct⟩ := List.nodup_cons.mp stacked.distinct
              obtain ⟨beyond, above⟩ := List.pairwise_cons.mp stacked.above
              obtain rfl : span = top := by
                by_contra below
                obtain ⟨front, opener, between, second, after, rfl, opens, opens', still, unclosed⟩ :=
                  beyond span ((List.mem_cons.mp inside).resolve_left below)
                exact uncrossed span top ⟨front, opener, between, second, after, node, walk,
                  finishes, opens, opens', mark, still, unclosed⟩
              have neutral {other : Span} (member : other ∈ rest) :
                  marking.role other node = .neutral :=
                Marking.role_neutral.mpr ⟨by simp [mark], by
                  rw [mark]
                  rintro same
                  cases same
                  exact fresh member⟩
              have unclosed {other : Span} (member : other ∈ rest) :
                  marking.mark node ≠ some (.closes other) :=
                (Marking.role_neutral.mp (neutral member)).2
              refine build (by rw [Marking.nest_closes mark]; simp) distinct
                (fun other member => (stacked.opened other
                  (List.mem_cons_of_mem _ member)).append (neutral member)) ?_
              exact above.imp_of_mem fun upper lower above =>
                above.append (neutral lower) (unclosed upper)

/-- Runs nest exactly where each span is opened and closed in turns and no two spans cross. -/
theorem nested_iff : g.Nested marking ↔
    (∀ span, g.Disciplined (marking.role span)) ∧
      ∀ span other, ¬ g.Crosses marking span other := by
  refine ⟨fun nested => ⟨nested.disciplined, nested.not_crosses⟩, ?_⟩
  rintro ⟨disciplined, uncrossed⟩ nodes run
  have reach {front rest : List Node} {node : Node} {stack : List Span}
      (run : g.Run node rest) (walk : g.Walk g.entry front node)
      (stacked : Stacked marking front stack) : ∃ last, Stacked marking (front ++ rest) last := by
    induction run generalizing front stack with
    | exit isExit => exact stacked.step disciplined uncrossed walk ⟨_, .exit isExit⟩
    | step edge run ih =>
        obtain ⟨next, stacked⟩ := stacked.step disciplined uncrossed walk ⟨_, .step edge run⟩
        obtain ⟨last, stacked⟩ := ih (walk.append (.cons edge (.nil _))) stacked
        exact ⟨last, by simpa using stacked⟩
  obtain ⟨last, stacked⟩ := reach run (.nil _) stacked_nil
  rw [List.nil_append] at stacked
  -- No span is open at the end of a run.
  have empty : last = [] := List.eq_nil_iff_forall_not_mem.mpr fun span member => by
    have ends := disciplined_iff.mp (disciplined span) nodes run
    rw [stacked.turns span, decide_eq_true member] at ends
    cases ends
  rw [stacked.took, empty]

end
end FlowGraph
