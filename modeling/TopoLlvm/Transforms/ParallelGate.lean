import TopoLlvm.Library.FlowGraph
import TopoLlvm.Transforms.TopoParallel

/-!
# Where calls become tasks

All calls of a stage move to the first of them in the order of the blocks, provided that their
arguments are available there.  The move keeps the calls that runs make exactly where each call
takes turns with the first one.
-/

namespace TopoLlvm
namespace TopoParallel

open TopoLlvm.Runtime (Name)
open FlowGraph (Role alternation visitedEqually_iff)

/-- A function as its flow graph.  Nodes are the instructions and the normal edges of invokes,
where their results become available; a run takes the edges that its inputs choose. -/
structure PipelineFunction (Node Fn Location : Type) where
  graph : FlowGraph Node
  /-- The instructions in the order of the blocks. -/
  instructions : List Node
  /-- The callee of a call that is direct and not an invoke. -/
  calledFunction : Node → Option Fn
  /-- Where the arguments of a call become available that instructions compute. -/
  operands : Node → List Node
  /-- Where the result of a call is used; in a phi node at the end of the incoming block. -/
  uses : Node → List Node
  reads : Node → Set Location
  writes : Node → Set Location
  distinct : instructions.Nodup
  /-- Exits are returns, resumes, calls that may not come back and cuts of endless loops. -/
  finishes : ∀ node, graph.Reached node → graph.Finishes node
  dominated : ∀ call, ∀ use ∈ uses call, (calledFunction call).isSome → graph.Dominates call use
  /-- A call uses results as arguments. -/
  argument : ∀ call, ∀ use ∈ uses call, (calledFunction use).isSome → call ∈ operands use

namespace PipelineFunction

variable {Node Fn Location : Type} [DecidableEq Node] [DecidableEq Fn]
  (function : PipelineFunction Node Fn Location) (stage : Stage Fn)

def targetCalls : List Node :=
  function.instructions.filter fun node => stage.calls (function.calledFunction node)

/-- The stage is rewritten at its first call: all arguments are available there. -/
def Parallelizes (firstCall : Node) : Prop :=
  (function.targetCalls stage).head? = some firstCall ∧
    ∀ call ∈ function.targetCalls stage, ∀ operand ∈ function.operands call,
      function.graph.Dominates operand firstCall

/-- What the rewritten function executes where the original visits a node. -/
def rewritten (firstCall node : Node) : List Node :=
  if node = firstCall then function.targetCalls stage
  else if node ∈ function.targetCalls stage then []
  else [node]

/-- The store writes a location that the call reads. -/
def Clobbers (store call : Node) : Prop :=
  ∃ location ∈ function.writes store, location ∈ function.reads call

/-- The rewritten function makes the same calls, each after the stores that it came after, and
awaits each result before its uses.  An argument of a task is stored before the await. -/
structure Faithful (firstCall : Node) : Prop where
  sameCalls : ∀ call ∈ function.targetCalls stage, ∀ nodes,
    function.graph.Run function.graph.entry nodes →
      (nodes.flatMap (function.rewritten stage firstCall)).count call = nodes.count call
  storesBefore : ∀ call ∈ function.targetCalls stage, ∀ before store between after,
    function.graph.Run function.graph.entry (before ++ store :: (between ++ call :: after)) →
      store ∉ function.targetCalls stage → function.Clobbers store call →
        -- The tasks that were spawned before the store are fewer than the calls up to this one.
        before.count firstCall < (before ++ store :: (between ++ [call])).count call
  awaited : ∀ call ∈ function.targetCalls stage, ∀ use ∈ function.uses call,
    if use ∈ function.targetCalls stage then ¬ function.graph.Reached firstCall
    else function.graph.Dominates firstCall use

/-- The call takes turns with the first one.  After that one it reads nothing stored in between;
before it, its result is used only later and by no task. -/
def TakesTurns (firstCall call : Node) : Prop :=
  (function.graph.Disciplined (alternation firstCall call) ∧
    ∀ store between, function.graph.Reached store → store ∉ function.targetCalls stage →
      function.Clobbers store call → function.graph.Walk store (store :: between) call →
        firstCall ∈ between) ∨
  (function.graph.Disciplined (alternation call firstCall) ∧
    (function.graph.Reached call → ∀ use ∈ function.uses call,
      use ∉ function.targetCalls stage ∧
        ∀ between, function.graph.Walk call (call :: between) use → firstCall ∈ between))

variable {function stage} {firstCall call : Node}

section

omit [DecidableEq Node]

theorem targetCalls_nodup : (function.targetCalls stage).Nodup := function.distinct.filter _

theorem isSome_of_target (target : call ∈ function.targetCalls stage) :
    (function.calledFunction call).isSome := by
  have calls := (List.mem_filter.mp target).2
  cases called : function.calledFunction call with
  | none => rw [called] at calls; cases calls
  | some _ => rfl

/-- An argument of a task that another task computes is never available at the first call if
that comes before the other. -/
theorem not_reached_of_argument (gate : function.Parallelizes stage firstCall)
    (ahead : function.graph.Dominates firstCall call) {use : Node} (uses : use ∈ function.uses call)
    (target : use ∈ function.targetCalls stage) : ¬ function.graph.Reached firstCall :=
  FlowGraph.not_reached_of_dominates
    (gate.2 use target call (function.argument call use uses (isSome_of_target target))) ahead

omit [DecidableEq Fn] in
/-- The first call dominates what a later call dominates. -/
theorem dominates_trans {other : Node} (ahead : function.graph.Dominates firstCall call)
    (behind : function.graph.Dominates call other) :
    function.graph.Dominates firstCall other := by
  intro nodes walk
  obtain ⟨before, after, rfl⟩ := List.append_of_mem (behind nodes walk)
  exact List.mem_append_left _ (ahead before walk.split.1)

end

/-- A task runs as often as the first call is visited. -/
theorem count_rewritten (target : call ∈ function.targetCalls stage) (nodes : List Node) :
    (nodes.flatMap (function.rewritten stage firstCall)).count call = nodes.count firstCall := by
  induction nodes with
  | nil => rfl
  | cons node nodes ih =>
      rw [List.flatMap_cons, List.count_append, ih]
      by_cases here : node = firstCall
      · rw [rewritten, if_pos here, here, List.count_cons_self,
          targetCalls_nodup.count, if_pos target, Nat.add_comm]
      · rw [List.count_cons_of_ne here, rewritten, if_neg here]
        split
        · exact Nat.zero_add _
        · rename_i other
          have ne : node ≠ call := fun same => other (same ▸ target)
          rw [List.count_cons_of_ne ne, List.count_nil, Nat.zero_add]

/-- The calls of a run stay the same where two nodes are visited equally often. -/
theorem sameCalls_iff (target : call ∈ function.targetCalls stage) :
    (∀ nodes, function.graph.Run function.graph.entry nodes →
      (nodes.flatMap (function.rewritten stage firstCall)).count call = nodes.count call) ↔
    function.graph.VisitedEqually firstCall call := by
  refine forall_congr' fun nodes => forall_congr' fun _ => ?_
  rw [count_rewritten target]
  exact eq_comm

section

omit [DecidableEq Fn]

/-- The first of two nodes that take turns dominates the second. -/
theorem dominates_of_alternation {first second : Node} (apart : first ≠ second)
    (disciplined : function.graph.Disciplined (alternation first second)) :
    function.graph.Dominates first second := by
  intro nodes walk
  obtain ⟨before, member, opens⟩ := disciplined.opened nodes second walk
    (function.finishes second ⟨nodes, walk⟩) ((FlowGraph.alternation_needsHeld apart).mpr rfl)
  exact FlowGraph.alternation_eq_opens.mp opens ▸ member

/-- Where the first call comes first, a store lies before the task of a later call exactly if the
first call is visited in between. -/
theorem storesBefore_iff (apart : firstCall ≠ call)
    (disciplined : function.graph.Disciplined (alternation firstCall call))
    {before between after : List Node} {store : Node}
    (run : function.graph.Run function.graph.entry (before ++ store :: (between ++ call :: after)))
    (other : store ≠ firstCall) :
    before.count firstCall < (before ++ store :: (between ++ [call])).count call ↔
      firstCall ∈ between := by
  -- Up to the call the first call is visited once more than the call.
  have whole := FlowGraph.disciplined_iff.mp disciplined _ run
  rw [show before ++ store :: (between ++ call :: after) =
    (before ++ store :: between) ++ call :: after by simp, List.map_append,
    Role.turns_append] at whole
  obtain ⟨held, took, rest⟩ := Option.bind_eq_some_iff.mp whole
  obtain ⟨next, turn, -⟩ := Option.bind_eq_some_iff.mp rest
  obtain rfl := Role.held_of_needsHeld turn ((FlowGraph.alternation_needsHeld apart).mpr rfl)
  have counts := Role.count_of_turns took
  rw [FlowGraph.count_opens_alternation, FlowGraph.count_closes_alternation apart] at counts
  rw [← List.count_pos_iff (a := firstCall)]
  simp only [List.count_append, List.count_cons, List.count_nil, beq_self_eq_true, if_true,
    beq_false_of_ne other, Bool.toNat_true, Bool.toNat_false] at counts ⊢
  simp only [Bool.false_eq_true, if_false] at counts
  omega

/-- Where the first call comes last, a task runs after all stores before its call. -/
theorem storesBefore_of_later (apart : call ≠ firstCall)
    (disciplined : function.graph.Disciplined (alternation call firstCall))
    {before rest : List Node}
    (run : function.graph.Run function.graph.entry (before ++ rest)) :
    before.count firstCall ≤ before.count call := by
  have whole := FlowGraph.disciplined_iff.mp disciplined _ run
  rw [List.map_append, Role.turns_append] at whole
  obtain ⟨held, took, -⟩ := Option.bind_eq_some_iff.mp whole
  have counts := Role.count_of_turns took
  rw [FlowGraph.count_opens_alternation, FlowGraph.count_closes_alternation apart] at counts
  exact Nat.le.intro counts

/-- Where the first call comes last, a use that it dominates is reached through it. -/
theorem passes_of_dominates (apart : call ≠ firstCall)
    (disciplined : function.graph.Disciplined (alternation call firstCall))
    (reached : function.graph.Reached call) {use : Node}
    (dominates : function.graph.Dominates firstCall use) {between : List Node}
    (walk : function.graph.Walk call (call :: between) use) : firstCall ∈ between := by
  obtain ⟨front, reached⟩ := reached
  obtain ⟨front, reached, fresh, -⟩ := reached.first_visit
  rcases List.mem_append.mp (dominates _ (reached.append walk)) with early | late
  · -- It is not visited before the first visit of the call.
    obtain ⟨start, rest, rfl⟩ := List.append_of_mem early
    have member := dominates_of_alternation apart disciplined start reached.split.1
    exact absurd (List.mem_append_left _ member) fresh
  · exact (List.mem_cons.mp late).resolve_left apart.symm

/-- The second of two nodes that take turns is reached after the first. -/
theorem reached_of_alternation {first second : Node} (apart : first ≠ second)
    (disciplined : function.graph.Disciplined (alternation first second))
    (reached : function.graph.Reached first) : function.graph.Reached second := by
  obtain ⟨rest, run⟩ := function.finishes first reached
  obtain ⟨rest, rfl⟩ := run.eq_cons
  obtain ⟨other, member, closes⟩ := disciplined.ended rest first reached
    (FlowGraph.alternation_eq_opens.mpr rfl) run
  obtain rfl := (FlowGraph.alternation_eq_closes apart).mp closes
  obtain ⟨before, after, rfl⟩ := List.append_of_mem member
  obtain ⟨front, reached⟩ := reached
  rw [← List.cons_append] at run
  exact ⟨_, reached.append run.split.1⟩

end

/-- A faithful rewriting only moves calls that take turns with the first one. -/
theorem Faithful.takesTurns (faithful : function.Faithful stage firstCall)
    (first : firstCall ∈ function.targetCalls stage) (target : call ∈ function.targetCalls stage)
    (apart : firstCall ≠ call) : function.TakesTurns stage firstCall call := by
  have equal := (sameCalls_iff target).mp (faithful.sameCalls call target)
  rcases (visitedEqually_iff apart).mp equal with disciplined | disciplined
  · refine .inl ⟨disciplined, ?_⟩
    rintro store between ⟨before, reached⟩ other clobbers walk
    obtain ⟨after, run⟩ := function.finishes call ⟨_, reached.append walk⟩
    obtain ⟨after, rfl⟩ := run.eq_cons
    have whole := reached.run (walk.run run)
    have ne : store ≠ firstCall := fun same => other (same ▸ first)
    exact (storesBefore_iff apart disciplined whole ne).mp
      (faithful.storesBefore call target before store between after whole other clobbers)
  · refine .inr ⟨disciplined, fun reached use uses => ?_⟩
    have awaited := faithful.awaited call target use uses
    split at awaited
    · exact absurd (reached_of_alternation apart.symm disciplined reached) awaited
    · rename_i other
      exact ⟨other, fun between walk =>
        passes_of_dominates apart.symm disciplined reached awaited walk⟩

/-- Moving a call that takes turns with the first one keeps it after the stores before it. -/
theorem TakesTurns.storesBefore (turns : function.TakesTurns stage firstCall call)
    (first : firstCall ∈ function.targetCalls stage) (apart : firstCall ≠ call)
    {before between after : List Node} {store : Node}
    (run : function.graph.Run function.graph.entry (before ++ store :: (between ++ call :: after)))
    (other : store ∉ function.targetCalls stage) (clobbers : function.Clobbers store call) :
    before.count firstCall < (before ++ store :: (between ++ [call])).count call := by
  rcases turns with ⟨disciplined, stored⟩ | ⟨disciplined, -⟩
  · have ne : store ≠ firstCall := fun same => other (same ▸ first)
    refine (storesBefore_iff apart disciplined run ne).mpr ?_
    obtain ⟨reached, rest⟩ := run.split
    rw [← List.cons_append] at rest
    exact stored store between ⟨before, reached⟩ other clobbers rest.split.1
  · have earlier := storesBefore_of_later apart.symm disciplined run
    rw [List.count_append, List.count_cons, List.count_append, List.count_singleton_self]
    omega

/-- Moving a call that takes turns with the first one leaves its uses after the await. -/
theorem TakesTurns.awaited (turns : function.TakesTurns stage firstCall call)
    (gate : function.Parallelizes stage firstCall) (target : call ∈ function.targetCalls stage)
    (apart : firstCall ≠ call) {use : Node} (uses : use ∈ function.uses call) :
    if use ∈ function.targetCalls stage then ¬ function.graph.Reached firstCall
    else function.graph.Dominates firstCall use := by
  have dominated := function.dominated call use uses (isSome_of_target target)
  rcases turns with ⟨disciplined, -⟩ | ⟨disciplined, later⟩
  · have ahead := dominates_of_alternation apart disciplined
    split
    · rename_i task
      exact not_reached_of_argument gate ahead uses task
    · exact dominates_trans ahead dominated
  · split
    · rename_i task
      rintro ⟨nodes, walk⟩
      obtain ⟨before, after, rfl⟩ :=
        List.append_of_mem (dominates_of_alternation apart.symm disciplined nodes walk)
      exact (later ⟨before, walk.split.1⟩ use uses).1 task
    · intro nodes walk
      obtain ⟨before, after, rfl⟩ := List.append_of_mem (dominated nodes walk)
      obtain ⟨front, back⟩ := walk.split
      exact List.mem_append_right _
        (List.mem_cons_of_mem _ ((later ⟨before, front⟩ use uses).2 after back))

/-- Where the gate lets a stage pass, the rewritten function is faithful exactly if each call
takes turns with the first one. -/
theorem parallelized_faithful_iff (gate : function.Parallelizes stage firstCall) :
    function.Faithful stage firstCall ↔
      ∀ call ∈ function.targetCalls stage, call ≠ firstCall →
        function.TakesTurns stage firstCall call := by
  have first : firstCall ∈ function.targetCalls stage := List.mem_of_mem_head? gate.1
  constructor
  · intro faithful call target other
    exact faithful.takesTurns first target other.symm
  · intro turns
    constructor
    case sameCalls =>
      intro call target
      rw [sameCalls_iff target]
      by_cases same : call = firstCall
      · exact fun nodes _ => same ▸ rfl
      · rw [visitedEqually_iff (Ne.symm same)]
        exact (turns call target same).imp And.left And.left
    case storesBefore =>
      intro call target before store between after run other clobbers
      by_cases same : call = firstCall
      · subst same
        rw [List.count_append, List.count_cons, List.count_append, List.count_singleton_self]
        omega
      · exact (turns call target same).storesBefore first (Ne.symm same) run other clobbers
    case awaited =>
      intro call target use uses
      by_cases same : call = firstCall
      · subst same
        have dominated := function.dominated call use uses (isSome_of_target target)
        split
        · rename_i task
          have itself := gate.2 use task call
            (function.argument call use uses (isSome_of_target task))
          exact FlowGraph.not_reached_of_dominates itself itself
        · exact dominated
      · exact (turns call target same).awaited gate target (Ne.symm same) uses

end PipelineFunction

/-- A call, a branch, a call on one side of it and the return. -/
def branchingEdges : List (Fin 4 × Fin 4) := [(0, 1), (1, 2), (1, 3), (2, 3)]

def branchingGraph : FlowGraph (Fin 4) where
  edge node next := (node, next) ∈ branchingEdges
  entry := 0
  exit := (· = 3)

theorem branchingGraph_edge {node next : Fin 4} (edge : branchingEdges.elem (node, next) = true) :
    branchingGraph.edge node next := List.elem_iff.mp edge

theorem branchingGraph_run : branchingGraph.Run 1 [1, 3] :=
  .step (branchingGraph_edge rfl) (.exit rfl)

/-- A pipeline that calls `load`, and `scale` only on one side of a branch. -/
def branching : PipelineFunction (Fin 4) Name Unit where
  graph := branchingGraph
  instructions := [0, 1, 2, 3]
  calledFunction
    | 0 => some "load".toList
    | 2 => some "scale".toList
    | _ => none
  operands _ := []
  uses _ := []
  reads _ := ∅
  writes _ := ∅
  distinct := by decide
  finishes
    | 0, _ => ⟨_, .step (branchingGraph_edge rfl) branchingGraph_run⟩
    | 1, _ => ⟨_, branchingGraph_run⟩
    | 2, _ => ⟨_, .step (branchingGraph_edge rfl) (.exit rfl)⟩
    | 3, _ => ⟨_, .exit rfl⟩
  dominated _ _ use := absurd use List.not_mem_nil
  argument _ _ use := absurd use List.not_mem_nil

/-- The stage of both calls. -/
def loadAndScale : Stage Name where
  isDeclaration _ := false
  isVarArg _ := false
  matched := some
  exclude := []
  calledFunctions := ["load".toList, "scale".toList]
  nodes := ["load".toList, "scale".toList]

theorem branching_parallelizes : branching.Parallelizes loadAndScale 0 :=
  ⟨by decide, fun _ _ _ operand => absurd operand List.not_mem_nil⟩

/-- The call on the side that is not taken runs as a task. -/
theorem parallelized_runs_skipped_call :
    branching.Parallelizes loadAndScale 0 ∧ ¬ branching.Faithful loadAndScale 0 := by
  refine ⟨branching_parallelizes, fun faithful => ?_⟩
  have runs := faithful.sameCalls 2 (by decide) _
    (.step (branchingGraph_edge rfl) branchingGraph_run)
  revert runs
  decide

theorem parallelized_faithful_iff_branching : branching.Faithful loadAndScale 0 ↔
    ∀ call ∈ branching.targetCalls loadAndScale, call ≠ 0 →
      branching.TakesTurns loadAndScale 0 call :=
  PipelineFunction.parallelized_faithful_iff
    ⟨by decide, fun _ _ _ operand => absurd operand List.not_mem_nil⟩

end TopoParallel
end TopoLlvm
