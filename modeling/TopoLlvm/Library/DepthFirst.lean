import Mathlib.Data.List.Count
import Mathlib.Logic.Relation

/-!
# Depth-first collection

The nodes that are found by going from a root to its successors, and from these on, once each.
Nodes without successors of their own are not entered.
-/

namespace DepthFirst

variable {Node : Type*} [DecidableEq Node] (next : Node → Option (List Node))

/-- The nodes collected from a node on; the first argument bounds the depth. -/
def collect : Nat → Node → List Node → List Node
  | 0, _, collected => collected
  | depth + 1, node, collected =>
      match next node with
      | none => collected
      | some successors =>
          if collected.contains node then collected
          else successors.foldl (fun collected successor => collect depth successor collected)
            (node :: collected)

/-- The nodes collected from some roots. -/
def collectAll (depth : Nat) (roots : List Node) : List Node :=
  roots.foldl (fun collected root => collect next depth root collected) []

omit [DecidableEq Node] in
/-- One node leads to another. -/
def Leads (node successor : Node) : Prop := ∃ successors, next node = some successors ∧
  successor ∈ successors

/-- New nodes come with all of their successors that can be entered. -/
def Closes (before after : List Node) : Prop :=
  before ⊆ after ∧ ∀ node ∈ after, node ∈ before ∨
    ∀ successor, Leads next node successor → (next successor).isSome → successor ∈ after

/-- The nodes that are still to be found. -/
def remaining (nodes collected : List Node) : Nat := nodes.countP (· ∉ collected)

variable {next} {before between after nodes collected : List Node}

omit [DecidableEq Node] in
theorem Closes.refl (collected : List Node) : Closes next collected collected :=
  ⟨List.Subset.refl _, fun _ member => .inl member⟩

omit [DecidableEq Node] in
theorem Closes.trans (first : Closes next before between) (second : Closes next between after) :
    Closes next before after := by
  refine ⟨List.Subset.trans first.1 second.1, ?_⟩
  intro node member
  rcases second.2 node member with old | closed
  · rcases first.2 node old with older | closed
    · exact .inl older
    · exact .inr fun successor leads entered => second.1 (closed successor leads entered)
  · exact .inr closed

theorem remaining_mono (more : before ⊆ after) : remaining nodes after ≤ remaining nodes before :=
  List.countP_mono_left fun node _ => by simpa using fun fresh old => fresh (more old)

theorem remaining_cons {node : Node} (inside : node ∈ nodes) (fresh : node ∉ collected) :
    remaining nodes (node :: collected) < remaining nodes collected := by
  obtain ⟨before, after, rfl⟩ := List.append_of_mem inside
  have first : remaining before (node :: collected) ≤ remaining before collected :=
    remaining_mono (List.subset_cons_self ..)
  have last : remaining after (node :: collected) ≤ remaining after collected :=
    remaining_mono (List.subset_cons_self ..)
  simp only [remaining] at first last
  simp only [remaining, List.countP_append, List.countP_cons, fresh, List.mem_cons_self,
    not_true_eq_false, not_false_eq_true, decide_false, decide_true, Bool.false_eq_true, if_true,
    if_false]
  omega

/-- Depth enough for the nodes that remain finds everything. -/
theorem collect_closes (complete : ∀ node, (next node).isSome → node ∈ nodes) {depth : Nat}
    (node : Node) (enough : remaining nodes collected < depth) :
    Closes next collected (collect next depth node collected) ∧
      ((next node).isSome → node ∈ collect next depth node collected) := by
  induction depth generalizing node collected with
  | zero => omega
  | succ depth ih =>
      cases found : next node with
      | none =>
          simp only [collect, found]
          exact ⟨.refl _, by simp⟩
      | some successors =>
          by_cases already : node ∈ collected
          · simp only [collect, found, List.contains_iff_mem.mpr already, if_true]
            exact ⟨.refl _, fun _ => already⟩
          have less := remaining_cons (complete node (by rw [found]; rfl)) already
          -- The successors are collected one after the other.
          have fold (rest : List Node) (now : List Node) (enough : remaining nodes now < depth) :
              let later := rest.foldl (fun now successor => collect next depth successor now) now
              Closes next now later ∧ ∀ successor ∈ rest, (next successor).isSome →
                successor ∈ later := by
            induction rest generalizing now with
            | nil => exact ⟨.refl _, by simp⟩
            | cons successor rest ihRest =>
                obtain ⟨closes, entered⟩ := ih successor enough
                obtain ⟨closesRest, enteredRest⟩ :=
                  ihRest _ (Nat.lt_of_le_of_lt (remaining_mono closes.1) enough)
                refine ⟨closes.trans closesRest, ?_⟩
                rw [List.forall_mem_cons]
                exact ⟨fun some => closesRest.1 (entered some), enteredRest⟩
          obtain ⟨closes, entered⟩ := fold successors (node :: collected) (by omega)
          have fresh : collected.contains node = false := by simpa using already
          simp only [collect, found, fresh, Bool.false_eq_true, if_false]
          refine ⟨⟨fun old member => closes.1 (List.mem_cons_of_mem _ member), ?_⟩,
            fun _ => closes.1 List.mem_cons_self⟩
          intro other member
          rcases closes.2 other member with old | closed
          · rcases List.mem_cons.mp old with rfl | older
            · refine .inr ?_
              rintro successor ⟨these, same, member⟩ some
              obtain rfl := Option.some.inj (found.symm.trans same)
              exact entered successor member some
            · exact .inl older
          · exact .inr closed

/-- Only what a node leads to is collected from it. -/
theorem leads_of_mem_collect {depth : Nat} {node other : Node}
    (member : other ∈ collect next depth node collected) :
    other ∈ collected ∨ (next other).isSome ∧ Relation.ReflTransGen (Leads next) node other := by
  induction depth generalizing node collected with
  | zero => exact .inl member
  | succ depth ih =>
      cases found : next node with
      | none =>
          simp only [collect, found] at member
          exact .inl member
      | some successors =>
          simp only [collect, found] at member
          split at member
          · exact .inl member
          · have fold (rest : List Node) (now : List Node) (subset : rest ⊆ successors)
                (member : other ∈
                  rest.foldl (fun now successor => collect next depth successor now) now) :
                other ∈ now ∨
                  (next other).isSome ∧ Relation.ReflTransGen (Leads next) node other := by
              induction rest generalizing now with
              | nil => exact .inl member
              | cons successor rest ihRest =>
                  rcases ihRest _ (List.subset_of_cons_subset subset) member with old | new
                  · rcases ih old with older | ⟨some, leads⟩
                    · exact .inl older
                    · have step : Leads next node successor :=
                        ⟨successors, found, subset List.mem_cons_self⟩
                      exact .inr ⟨some, .head step leads⟩
                  · exact .inr new
            rcases fold successors _ (List.Subset.refl _) member with old | new
            · rcases List.mem_cons.mp old with rfl | older
              · exact .inr ⟨by rw [found]; rfl, .refl⟩
              · exact .inl older
            · exact .inr new

/-- The nodes collected from the roots are those that the roots lead to. -/
theorem mem_collectAll (complete : ∀ node, (next node).isSome → node ∈ nodes) {depth : Nat}
    (enough : nodes.length < depth) {roots : List Node} {node : Node} :
    node ∈ collectAll next depth roots ↔
      (next node).isSome ∧ ∃ root ∈ roots, Relation.ReflTransGen (Leads next) root node := by
  have every (collected : List Node) : remaining nodes collected < depth :=
    Nat.lt_of_le_of_lt List.countP_le_length enough
  constructor
  · suffices sound : ∀ rest ⊆ roots, ∀ collected,
        node ∈ rest.foldl (fun collected root => collect next depth root collected) collected →
          node ∈ collected ∨ (next node).isSome ∧
            ∃ root ∈ roots, Relation.ReflTransGen (Leads next) root node by
      intro member
      rcases sound roots (List.Subset.refl _) [] member with impossible | found
      · cases impossible
      · exact found
    intro rest subset
    induction rest with
    | nil => exact fun collected member => .inl member
    | cons root rest ih =>
        intro collected member
        rcases ih (List.subset_of_cons_subset subset) _ member with old | new
        · rcases leads_of_mem_collect old with older | ⟨some, leads⟩
          · exact .inl older
          · exact .inr ⟨some, root, subset List.mem_cons_self, leads⟩
        · exact .inr new
  · rintro ⟨entered, root, isRoot, leads⟩
    have fold (rest : List Node) (collected : List Node) :
        let later := rest.foldl (fun collected root => collect next depth root collected) collected
        Closes next collected later ∧ ∀ root ∈ rest, (next root).isSome → root ∈ later := by
      induction rest generalizing collected with
      | nil => exact ⟨.refl _, by simp⟩
      | cons root rest ih =>
          obtain ⟨closes, found⟩ := collect_closes complete root (every collected)
          obtain ⟨closesRest, foundRest⟩ := ih (collect next depth root collected)
          refine ⟨closes.trans closesRest, ?_⟩
          rw [List.forall_mem_cons]
          exact ⟨fun some => closesRest.1 (found some), foundRest⟩
    obtain ⟨closes, found⟩ := fold roots []
    -- Backwards from the node, every node on the path can be entered.
    have path : (next root).isSome → node ∈ collectAll next depth roots := by
      intro some
      induction leads with
      | refl => exact found root isRoot some
      | tail before step ih =>
          obtain ⟨successors, known, inside⟩ := step
          have collected := ih (by rw [known]; rfl)
          rcases closes.2 _ collected with impossible | closed
          · cases impossible
          · exact closed _ ⟨successors, known, inside⟩ entered
    refine path ?_
    rcases Relation.ReflTransGen.cases_head leads with rfl | ⟨_, ⟨successors, known, -⟩, -⟩
    · exact entered
    · rw [known]
      rfl

end DepthFirst
