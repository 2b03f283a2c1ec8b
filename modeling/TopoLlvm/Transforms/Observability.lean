import TopoLlvm.Library.Nesting
import TopoLlvm.Runtime.Adaptive
import Mathlib.Data.List.AList

/-!
# Spans around stage groups

`ObservabilityPass` collects the calls of a logic block's stages in the order of the instructions,
groups neighbours of one stage, and begins a span before the first call of a group and ends it after
the last.
-/

namespace TopoLlvm
namespace Observability

open TopoLlvm.Runtime (Name)
open FlowGraph (Mark Marking Role)

/-- A logic block of the symbol table; `calledFunctions` and `stages` are parallel. -/
structure LogicBlock where
  qualifiedName : Name
  calledFunctions : List Name
  stages : List Int

structure ObservabilityConfig where
  isEnabled : Bool
  internalStages : Bool

/-- `SymbolMapping::matched`, from qualified names to the names of functions. -/
abbrev Matched := AList fun _ : Name => Option Name

/-- A map from names to stages. -/
abbrev StageMap := AList fun _ : Name => Int

/-- A function, as the flow graph of its instructions.  Exits are returns, resumes and the calls
that an exception may leave it from. -/
structure ObservedFunction (Node : Type) where
  name : Name
  isDeclaration : Bool
  hasLocalLinkage : Bool
  graph : FlowGraph Node
  /-- The instructions of the blocks. -/
  blocks : List (List Node)
  /-- The callee of a call that is direct and no invoke. -/
  callee : Node → Option Name
  nodup : blocks.flatten.Nodup

structure StageGroup (Node : Type) where
  stageNumber : Int
  calls : List Node

section Groups

variable {Node : Type} (iterate : StageMap → List (Name × Int)) (matched : Matched)

/-- The function of a qualified name. -/
def Matched.function (name : Name) : Option Name := (matched.lookup name).join

/-- Some entry maps to the function. -/
def Matched.isMapped (callee : Name) : Bool := matched.entries.any fun entry => entry.2 = some callee

def ObservedFunction.allCalls (func : ObservedFunction Node) : List Node :=
  func.blocks.flatten.filter fun node => (func.callee node).any matched.isMapped

/-- The stage of each callee; a later entry replaces an earlier one. -/
def LogicBlock.funcToStage (lb : LogicBlock) : StageMap :=
  (lb.calledFunctions.zip lb.stages).foldl (fun map entry => map.insert entry.1 entry.2) ∅

/-- The stages by the names of functions, entered in the order in which the map is walked. -/
def LogicBlock.irNameToStage (lb : LogicBlock) : StageMap :=
  (iterate lb.funcToStage).foldl (fun map entry =>
    match matched.function entry.1 with
    | some func => map.insert func entry.2
    | none => map) ∅

def stageOf (lb : LogicBlock) (callee : Option Name) : Int :=
  (callee.bind fun callee => (lb.irNameToStage iterate matched).lookup callee).getD (-1)

/-- Put a call of a stage into the last group or a new one. -/
def addCall (state : List (StageGroup Node) × Int) (entry : Int × Node) :
    List (StageGroup Node) × Int :=
  match state.1.getLast? with
  | some group =>
      if entry.1 = state.2 then
        (state.1.dropLast ++ [{ group with calls := group.calls ++ [entry.2] }], state.2)
      else (state.1 ++ [{ stageNumber := entry.1, calls := [entry.2] }], entry.1)
  | none => ([{ stageNumber := entry.1, calls := [entry.2] }], entry.1)

def buildStageGroups (func : ObservedFunction Node) (lb : LogicBlock) : List (StageGroup Node) :=
  let staged := (func.allCalls matched).map fun call =>
    (stageOf iterate matched lb (func.callee call), call)
  ((staged.filter fun entry => 0 ≤ entry.1).foldl addCall ([], -1)).1

/-- The logic blocks for which `run` instruments the function, in their order. -/
def instrumentedBlocks (config : ObservabilityConfig) (logicBlocks : List LogicBlock)
    (func : ObservedFunction Node) : List LogicBlock :=
  if config.isEnabled then
    logicBlocks.filter fun lb => matched.function lb.qualifiedName = some func.name ∧
      func.isDeclaration = false ∧ (config.internalStages ∨ func.hasLocalLinkage = false) ∧
      lb.stages ≠ []
  else []

end Groups

/-- Where a call may be inserted at an instruction.  A later logic block inserts between what
earlier ones have inserted and the instruction. -/
inductive Place where
  | before (block : Nat)
  | call
  | after (block : Nat)
  deriving DecidableEq

/-- The next place at an instruction, for a number of logic blocks. -/
def Place.next (count : Nat) : Place → Option Place
  | before block => some (if block + 1 < count then before (block + 1) else call)
  | call => some (after (count - 1))
  | after 0 => none
  | after (block + 1) => some (after block)

section Instrumented

variable {Node : Type} [DecidableEq Node] (iterate : StageMap → List (Name × Int))
  (matched : Matched) (lbs : List LogicBlock) (func : ObservedFunction Node)

/-- The flow graph of the places of a function.  It is left from the instruction itself. -/
def points : FlowGraph (Node × Place) where
  edge point other :=
    match point.2.next lbs.length with
    | some place => other = (point.1, place)
    | none => func.graph.edge point.1 other.1 ∧ other.2 = .before 0
  entry := (func.graph.entry, .before 0)
  exit point := point.2 = .call ∧ func.graph.exit point.1

/-- The groups of the logic block at an index. -/
def groupsOf (index : Nat) : List (StageGroup Node) :=
  (lbs[index]?.map (buildStageGroups iterate matched func)).getD []

/-- A span of a group, by the indices of the logic block and the group. -/
structure SpanId where
  block : Nat
  group : Nat
  deriving DecidableEq

/-- The call inserted at a point: a span begins before the first call of a group and ends after the
last. -/
def markAt (point : Node × Place) : Option (Mark SpanId) :=
  match point.2 with
  | .before block =>
      ((groupsOf iterate matched lbs func block).findIdx? fun group =>
        group.calls.head? = some point.1).map fun group => .opens { block, group }
  | .call => none
  | .after block =>
      ((groupsOf iterate matched lbs func block).findIdx? fun group =>
        group.calls.getLast? = some point.1).map fun group => .closes { block, group }

end Instrumented

/-! ## Every group has its span -/

section Calls

variable {Node : Type} {iterate : StageMap → List (Name × Int)} {matched : Matched}

/-- The calls are those put in, in their order. -/
theorem addCall_calls (state : List (StageGroup Node) × Int) (entry : Int × Node) :
    (addCall state entry).1.flatMap (·.calls) = state.1.flatMap (·.calls) ++ [entry.2] := by
  unfold addCall
  cases last : state.1.getLast? with
  | none => simp [List.getLast?_eq_none_iff.mp last]
  | some group =>
      simp only
      split
      · obtain ⟨front, shape⟩ := List.getLast?_eq_some_iff.mp last
        simp [shape]
      · simp

theorem foldl_addCall_calls (entries : List (Int × Node)) (state : List (StageGroup Node) × Int) :
    (entries.foldl addCall state).1.flatMap (·.calls) =
      state.1.flatMap (·.calls) ++ entries.map Prod.snd := by
  induction entries generalizing state with
  | nil => simp
  | cons entry entries ih => simp [ih, addCall_calls]

theorem addCall_ne_nil {state : List (StageGroup Node) × Int}
    (filled : ∀ group ∈ state.1, group.calls ≠ []) (entry : Int × Node) :
    ∀ group ∈ (addCall state entry).1, group.calls ≠ [] := by
  unfold addCall
  split
  · split
    · refine List.forall_mem_append.mpr ⟨fun group member => ?_, by simp⟩
      exact filled group (List.mem_of_mem_dropLast member)
    · exact List.forall_mem_append.mpr ⟨filled, by simp⟩
  · simp

/-- Groups are not empty. -/
theorem buildStageGroups_ne_nil (func : ObservedFunction Node) (lb : LogicBlock) :
    ∀ group ∈ buildStageGroups iterate matched func lb, group.calls ≠ [] := by
  refine List.foldlRecOn (motive := fun state : List (StageGroup Node) × Int =>
    ∀ group ∈ state.1, group.calls ≠ []) _ addCall nofun fun state filled entry _ => ?_
  exact addCall_ne_nil filled entry

/-- No call is in two places of the groups. -/
theorem nodup_buildStageGroups (func : ObservedFunction Node) (lb : LogicBlock) :
    ((buildStageGroups iterate matched func lb).flatMap (·.calls)).Nodup := by
  rw [buildStageGroups, foldl_addCall_calls, List.flatMap_nil, List.nil_append]
  have staged : ((func.allCalls matched).map fun call =>
      (stageOf iterate matched lb (func.callee call), call)).map Prod.snd =
        func.allCalls matched := by
    simp [Function.comp_def]
  refine (List.filter_sublist.map Prod.snd).nodup ?_
  rw [staged]
  exact func.nodup.filter _

/-- Only one group has a call. -/
theorem findIdx?_group {groups : List (StageGroup Node)} [DecidableEq Node]
    (nodup : (groups.flatMap (·.calls)).Nodup) {index : Nat} {group : StageGroup Node}
    (found : groups[index]? = some group) (pick : List Node → Option Node)
    (picks : ∀ calls call, pick calls = some call → call ∈ calls) {call : Node}
    (picked : pick group.calls = some call) :
    groups.findIdx? (fun group => pick group.calls = some call) = some index := by
  obtain ⟨bound, rfl⟩ := List.getElem?_eq_some_iff.mp found
  refine List.findIdx?_eq_some_iff_getElem.mpr ⟨bound, by simpa using picked, ?_⟩
  intro earlier before
  simp only [decide_eq_true_eq]
  intro same
  have apart := List.pairwise_iff_getElem.mp (List.nodup_flatMap.mp nodup).2 earlier index
    (Nat.lt_trans before bound) bound before
  exact apart (picks _ _ same) (picks _ _ picked)

end Calls

section Spans

variable {Node : Type} [DecidableEq Node] {iterate : StageMap → List (Name × Int)}
  {matched : Matched} {lbs : List LogicBlock} {func : ObservedFunction Node} {span : SpanId}
  {point : Node × Place}

omit [DecidableEq Node] in
theorem nodup_groupsOf (block : Nat) :
    ((groupsOf iterate matched lbs func block).flatMap (·.calls)).Nodup := by
  unfold groupsOf
  cases lbs[block]? with
  | none => exact List.nodup_nil
  | some lb => exact nodup_buildStageGroups func lb

theorem markAt_opens : markAt iterate matched lbs func point = some (.opens span) ↔
    point.2 = .before span.block ∧ ∃ group,
      (groupsOf iterate matched lbs func span.block)[span.group]? = some group ∧
        group.calls.head? = some point.1 := by
  constructor
  · intro opens
    unfold markAt at opens
    split at opens
    · rename_i block place
      obtain ⟨index, found, same⟩ := Option.map_eq_some_iff.mp opens
      obtain rfl : ({ block, group := index } : SpanId) = span := by simpa using same
      obtain ⟨bound, first, -⟩ := List.findIdx?_eq_some_iff_getElem.mp found
      exact ⟨place, _, List.getElem?_eq_getElem bound, by simpa using first⟩
    · cases opens
    · obtain ⟨_, -, same⟩ := Option.map_eq_some_iff.mp opens
      cases same
  · rintro ⟨place, group, found, first⟩
    have index := findIdx?_group (nodup_groupsOf span.block) found List.head?
      (fun _ _ => List.mem_of_mem_head?) first
    rw [markAt, place]
    exact congrArg (Option.map _) index

theorem markAt_closes : markAt iterate matched lbs func point = some (.closes span) ↔
    point.2 = .after span.block ∧ ∃ group,
      (groupsOf iterate matched lbs func span.block)[span.group]? = some group ∧
        group.calls.getLast? = some point.1 := by
  constructor
  · intro closes
    unfold markAt at closes
    split at closes
    · obtain ⟨_, -, same⟩ := Option.map_eq_some_iff.mp closes
      cases same
    · cases closes
    · rename_i block place
      obtain ⟨index, found, same⟩ := Option.map_eq_some_iff.mp closes
      obtain rfl : ({ block, group := index } : SpanId) = span := by simpa using same
      obtain ⟨bound, last, -⟩ := List.findIdx?_eq_some_iff_getElem.mp found
      exact ⟨place, _, List.getElem?_eq_getElem bound, by simpa using last⟩
  · rintro ⟨place, group, found, last⟩
    have index := findIdx?_group (nodup_groupsOf span.block) found List.getLast?
      (fun _ _ => List.mem_of_getLast?) last
    rw [markAt, place]
    exact congrArg (Option.map _) index

variable (iterate matched lbs func) in
/-- The inserted calls as the ends of spans. -/
def spans : Marking (Node × Place) SpanId where
  mark := markAt iterate matched lbs func
  opens_inj := by
    intro point other span opens opens'
    obtain ⟨place, group, found, first⟩ := markAt_opens.mp opens
    obtain ⟨place', group', found', first'⟩ := markAt_opens.mp opens'
    obtain rfl := Option.some.inj (found.symm.trans found')
    exact Prod.ext (Option.some.inj (first.symm.trans first')) (place.trans place'.symm)

/-- The span of a group alternates between its first and its last call. -/
theorem role_group {group : StageGroup Node} {first last : Node}
    (found : (groupsOf iterate matched lbs func span.block)[span.group]? = some group)
    (head : group.calls.head? = some first) (tail : group.calls.getLast? = some last) :
    (spans iterate matched lbs func).role span =
      FlowGraph.alternation (first, .before span.block) (last, .after span.block) := by
  funext point
  have opens : (spans iterate matched lbs func).mark point = some (.opens span) ↔
      point = (first, .before span.block) := by
    refine markAt_opens.trans ⟨?_, ?_⟩
    · rintro ⟨place, group', found', head'⟩
      obtain rfl := Option.some.inj (found.symm.trans found')
      exact Prod.ext (Option.some.inj (head'.symm.trans head)) place
    · rintro rfl
      exact ⟨rfl, group, found, head⟩
  have closes : (spans iterate matched lbs func).mark point = some (.closes span) ↔
      point = (last, .after span.block) := by
    refine markAt_closes.trans ⟨?_, ?_⟩
    · rintro ⟨place, group', found', tail'⟩
      obtain rfl := Option.some.inj (found.symm.trans found')
      exact Prod.ext (Option.some.inj (tail'.symm.trans tail)) place
    · rintro rfl
      exact ⟨rfl, group, found, tail⟩
  simp only [Marking.role, FlowGraph.alternation, opens, closes]

/-- A span that no group has is in order. -/
theorem disciplined_absent {graph : FlowGraph (Node × Place)}
    (absent : (groupsOf iterate matched lbs func span.block)[span.group]? = none) :
    graph.Disciplined ((spans iterate matched lbs func).role span) := by
  have neutral (point : Node × Place) :
      (spans iterate matched lbs func).role span point = .neutral := by
    refine Marking.role_neutral.mpr ⟨fun opens => ?_, fun closes => ?_⟩
    · obtain ⟨-, group, found, -⟩ := markAt_opens.mp opens
      rw [absent] at found
      cases found
    · obtain ⟨-, group, found, -⟩ := markAt_closes.mp closes
      rw [absent] at found
      cases found
  constructor <;> simp [neutral, Role.NeedsHeld]

omit [DecidableEq Node] in
theorem calls_ne_nil {block index : Nat} {group : StageGroup Node}
    (found : (groupsOf iterate matched lbs func block)[index]? = some group) :
    group.calls ≠ [] := by
  have member := List.mem_of_getElem? found
  unfold groupsOf at member
  cases here : lbs[block]? with
  | none =>
      rw [here] at member
      cases member
  | some lb =>
      rw [here] at member
      exact buildStageGroups_ne_nil func lb group member

/-- The spans of a function nest in all of its executions exactly where each group's first and last
call are passed in turns, and no walk crosses two groups. -/
theorem spans_nested_iff (iterate : StageMap → List (Name × Int)) (matched : Matched)
    (config : ObservabilityConfig) (logicBlocks : List LogicBlock)
    (func : ObservedFunction Node) :
    let lbs := instrumentedBlocks matched config logicBlocks func
    (∀ nodes, (points lbs func).Run (points lbs func).entry nodes →
      (spans iterate matched lbs func).nest [] nodes = some []) ↔
      (∀ (span : SpanId) group first last,
        (groupsOf iterate matched lbs func span.block)[span.group]? = some group →
          group.calls.head? = some first → group.calls.getLast? = some last →
            (points lbs func).Disciplined
              (FlowGraph.alternation (first, .before span.block) (last, .after span.block))) ∧
        ∀ span other, ¬ (points lbs func).Crosses (spans iterate matched lbs func) span other := by
  intro lbs
  have turns : (∀ span, (points lbs func).Disciplined ((spans iterate matched lbs func).role span)) ↔
      ∀ (span : SpanId) group first last,
        (groupsOf iterate matched lbs func span.block)[span.group]? = some group →
          group.calls.head? = some first → group.calls.getLast? = some last →
            (points lbs func).Disciplined
              (FlowGraph.alternation (first, .before span.block) (last, .after span.block)) := by
    constructor
    · intro disciplined span group first last found head tail
      rw [← role_group found head tail]
      exact disciplined span
    · intro disciplined span
      cases found : (groupsOf iterate matched lbs func span.block)[span.group]? with
      | none => exact disciplined_absent found
      | some group =>
          have calls := calls_ne_nil found
          have head := List.head?_eq_some_head calls
          have tail := List.getLast?_eq_some_getLast calls
          rw [role_group found head tail]
          exact disciplined span group _ _ found head tail
  rw [← turns]
  exact FlowGraph.nested_iff

end Spans

/-! ## A way out between two calls of a stage -/

def entries (map : StageMap) : List (Name × Int) := map.entries.map fun entry => (entry.1, entry.2)

def twoCalls : LogicBlock where
  qualifiedName := ['p']
  calledFunctions := [['a'], ['b']]
  stages := [0, 0]

def ownNames : Matched :=
  ((∅ : Matched).insert ['p'] (some ['p'])).insert ['a'] (some ['a']) |>.insert ['b'] (some ['b'])

/-- The function calls `a`, and then either calls `b` or returns. -/
def earlyExit : ObservedFunction Nat where
  name := ['p']
  isDeclaration := false
  hasLocalLinkage := false
  graph :=
    { edge node next := (node, next) ∈ [(0, 1), (1, 2), (1, 4), (2, 3)]
      entry := 0
      exit node := node = 3 ∨ node = 4 }
  blocks := [[0, 1], [2, 3], [4]]
  callee node := if node = 0 then some ['a'] else if node = 2 then some ['b'] else none
  nodup := by decide

/-- The early return leaves the span of the stage open. -/
theorem spans_left_open :
    let lbs := instrumentedBlocks ownNames { isEnabled := true, internalStages := false } [twoCalls]
      earlyExit
    ∃ nodes, (points lbs earlyExit).Run (points lbs earlyExit).entry nodes ∧
      (spans entries ownNames lbs earlyExit).nest [] nodes = some [{ block := 0, group := 0 }] := by
  refine ⟨[(0, .before 0), (0, .call), (0, .after 0), (1, .before 0), (1, .call), (1, .after 0),
    (4, .before 0), (4, .call)], ?_, by decide⟩
  have inside (node next : Nat) (edge : (node, next) ∈ [(0, 1), (1, 2), (1, 4), (2, 3)])
      {nodes : List (Nat × Place)}
      (rest : (points [twoCalls] earlyExit).Run (next, .before 0) nodes) :
      (points [twoCalls] earlyExit).Run (node, .before 0)
        ((node, .before 0) :: (node, .call) :: (node, .after 0) :: nodes) := by
    have enter : (points [twoCalls] earlyExit).edge (node, .before 0) (node, .call) := rfl
    have leave : (points [twoCalls] earlyExit).edge (node, .call) (node, .after 0) := rfl
    have go : (points [twoCalls] earlyExit).edge (node, .after 0) (next, .before 0) := ⟨edge, rfl⟩
    exact .step enter (.step leave (.step go rest))
  have enter : (points [twoCalls] earlyExit).edge (4, .before 0) (4, .call) := rfl
  exact inside 0 1 (by decide) (inside 1 4 (by decide) (.step enter (.exit ⟨rfl, .inr rfl⟩)))

end Observability
end TopoLlvm
