import TopoLlvm.Library.FlowGraph
import TopoLlvm.Runtime.CostSamples

/-!
# Balance of the dispatch measurement

`AdaptiveDispatchPass` puts a dispatch block before the entry of a pipeline function, measures the
ahead-of-time path from its entry to its returns and leaves the path of the installed variant alone.
-/

namespace TopoLlvm
namespace AdaptiveDispatch

open TopoLlvm.Runtime (Name ThreadCosts)

/-- A pipeline function as the flow graph of its instructions.  Exits are returns, and resumes and
calls that an exception may leave it from. -/
structure PipelineFunction (Node : Type) where
  graph : FlowGraph Node
  returns : Node → Bool
  calls : Node → Bool
  /-- Nothing branches to the entry block. -/
  entered : ∀ node, ¬ graph.edge node graph.entry
  ended : ∀ node next, returns node = true → ¬ graph.edge node next

/-- The instrumented function: the blocks `entry`, `jit_path`, `pe_emit` and `pe_done`, and the
original instructions with the inserted calls. -/
inductive Point (Node : Type) where
  | dispatch
  | jitPath
  | emit
  | jitCall
  | jitReturn
  | costBegin
  | costEnd (node : Node)
  | original (node : Node)
  deriving DecidableEq

inductive CostMark where
  | begins
  | ends
  deriving DecidableEq

namespace Point

variable {Node : Type}

def mark : Point Node → Option CostMark
  | costBegin => some .begins
  | costEnd _ => some .ends
  | _ => none

def marks (points : List (Point Node)) : List CostMark := points.filterMap mark

@[simp] theorem marks_nil : marks ([] : List (Point Node)) = [] := rfl

theorem marks_cons (point : Point Node) (points : List (Point Node)) :
    marks (point :: points) = point.mark.toList ++ marks points := by
  unfold marks
  cases marked : point.mark with
  | none => rw [List.filterMap_cons_none marked, Option.toList_none, List.nil_append]
  | some mark => rw [List.filterMap_cons_some marked, Option.toList_some, List.singleton_append]

end Point

namespace PipelineFunction

variable {Node : Type} (func : PipelineFunction Node)

/-- Returns are reached through `topo_cost_end`. -/
def arrive (node : Node) : Point Node :=
  if func.returns node then .costEnd node else .original node

inductive Edge : Point Node → Point Node → Prop
  | jit : Edge .dispatch .jitPath
  | aot : Edge .dispatch .costBegin
  | first : Edge .jitPath .emit
  | later : Edge .jitPath .jitCall
  | emitted : Edge .emit .jitCall
  | jitReturn : Edge .jitCall .jitReturn
  | enter : Edge .costBegin (func.arrive func.graph.entry)
  | costEnd (node : Node) : Edge (.costEnd node) (.original node)
  | original {node next : Node} : func.graph.edge node next →
      Edge (.original node) (func.arrive next)

def instrumented : PipelineFunction (Point Node) where
  graph :=
    { edge := func.Edge
      entry := .dispatch
      exit := fun
        | .jitCall | .jitReturn => True
        | .original node => func.graph.exit node
        | _ => False }
  returns
    | .jitReturn => true
    | .original node => func.returns node
    | _ => false
  calls
    | .jitCall => true
    | .original node => func.calls node
    | _ => false
  entered point edge := by
    have away (node : Node) : func.arrive node ≠ .dispatch := by
      unfold arrive
      split <;> nofun
    generalize target : Point.dispatch = last at edge
    cases edge with
    | enter | original => exact away _ target.symm
    | _ => cases target
  ended point next returns edge := by
    cases edge with
    | original edge => exact func.ended _ _ returns edge
    | _ => cases returns

/-- The measured path begins and then ends its measurement once, and the path of the installed
variant does neither. -/
def Balanced : Prop :=
  ∀ points, func.instrumented.graph.Run .dispatch points →
    (.jitPath ∈ points → Point.marks points = []) ∧
      (.jitPath ∉ points → Point.marks points = [.begins, .ends])

/-- The function is left by returning only. -/
def ReturnsOnly : Prop :=
  ∀ node, func.graph.Reached node → func.graph.exit node → func.returns node = true

/-! ## Runs -/

variable {func}

/-- What is passed at an instruction. -/
def visit (func : PipelineFunction Node) (node : Node) : List (Point Node) :=
  if func.returns node then [.costEnd node, .original node] else [.original node]

theorem visit_run {node : Node} {points : List (Point Node)}
    (run : func.instrumented.graph.Run (.original node) (.original node :: points)) :
    func.instrumented.graph.Run (func.arrive node) (func.visit node ++ points) := by
  unfold arrive visit
  split
  · exact .step (.costEnd node) run
  · exact run

/-- Runs of the function are runs of the instrumented function. -/
theorem run_instrumented {node : Node} {nodes : List Node} (run : func.graph.Run node nodes) :
    func.instrumented.graph.Run (func.arrive node) (nodes.flatMap func.visit) := by
  induction run with
  | @exit node isExit =>
      rw [List.flatMap_singleton, ← List.append_nil (func.visit node)]
      exact visit_run (.exit isExit)
  | step edge run ih =>
      rw [List.flatMap_cons]
      exact visit_run (.step (.original edge) ih)

/-- An instruction that returns is the last one. -/
theorem not_returns_of_walk {node last : Node} {nodes : List Node}
    (walk : func.graph.Walk node nodes last) : ∀ other ∈ nodes, func.returns other = false := by
  induction walk with
  | nil => simp
  | cons edge _ ih =>
      exact List.forall_mem_cons.mpr
        ⟨Bool.eq_false_iff.mpr fun returns => func.ended _ _ returns edge, ih⟩

/-- What is left of the measurement. -/
def leftMarks (func : PipelineFunction Node) : Point Node → List CostMark
  | .costBegin => [.begins, .ends]
  | .costEnd _ => [.ends]
  | .original node => if func.returns node then [] else [.ends]
  | _ => []

/-- The measured path up to the point is one of the function. -/
def OnPath (func : PipelineFunction Node) : Point Node → Prop
  | .costEnd node => func.graph.Reached node ∧ func.returns node = true
  | .original node => func.graph.Reached node
  | .dispatch => False
  | _ => True

theorem onPath_arrive {node : Node} (reached : func.graph.Reached node) :
    func.OnPath (func.arrive node) ∧ func.leftMarks (func.arrive node) = [.ends] := by
  unfold arrive
  split
  · rename_i returns
    exact ⟨⟨reached, returns⟩, rfl⟩
  · rename_i stays
    exact ⟨reached, if_neg stays⟩

/-- A step from a point other than the dispatch marks what is not left after it. -/
theorem leftMarks_of_edge {point next : Point Node} (path : func.OnPath point)
    (edge : func.Edge point next) : func.OnPath next ∧
      func.leftMarks point = point.mark.toList ++ func.leftMarks next := by
  cases edge with
  | jit | aot => exact path.elim
  | first | later | emitted | jitReturn => exact ⟨trivial, rfl⟩
  | enter =>
      have entry : func.graph.Reached func.graph.entry := ⟨[], .nil _⟩
      obtain ⟨onPath, left⟩ := onPath_arrive entry
      exact ⟨onPath, by rw [left]; rfl⟩
  | costEnd node =>
      refine ⟨path.1, ?_⟩
      simp [leftMarks, path.2, Point.mark]
  | @original node next edge =>
      obtain ⟨nodes, walk⟩ := path
      obtain ⟨onPath, left⟩ := onPath_arrive ⟨_, walk.append (.cons edge (.nil _))⟩
      refine ⟨onPath, ?_⟩
      have stays : func.returns node = false :=
        Bool.eq_false_iff.mpr fun returns => func.ended node next returns edge
      rw [left]
      simp [leftMarks, stays, Point.mark]

theorem leftMarks_of_exit (only : func.ReturnsOnly) {point : Point Node}
    (path : func.OnPath point) (exit : func.instrumented.graph.exit point) :
    func.leftMarks point = point.mark.toList := by
  cases point with
  | jitCall | jitReturn => rfl
  | original node =>
      have returns := only node path exit
      simp [leftMarks, returns, Point.mark]
  | _ => exact exit.elim

/-- Every path that leaves by returning has the marks that are left. -/
theorem marks_of_run (only : func.ReturnsOnly) {point : Point Node} {points : List (Point Node)}
    (run : func.instrumented.graph.Run point points) (path : func.OnPath point) :
    Point.marks points = func.leftMarks point := by
  induction run with
  | exit exit => rw [leftMarks_of_exit only path exit, Point.marks_cons, Point.marks_nil,
      List.append_nil]
  | step edge _ ih =>
      obtain ⟨onPath, left⟩ := leftMarks_of_edge path edge
      rw [left, ← ih onPath, Point.marks_cons]

/-- Past the dispatch the path of the variant is known by its first block. -/
theorem not_jit_of_onPath {point : Point Node} {points : List (Point Node)}
    (run : func.instrumented.graph.Run point points) (apart : point ≠ .dispatch)
    (other : point ≠ .jitPath) : .jitPath ∉ points := by
  induction run with
  | exit _ => simpa using other.symm
  | @step point next points edge _ ih =>
      have away (node : Node) : func.arrive node ≠ .dispatch ∧ func.arrive node ≠ .jitPath := by
        unfold arrive
        split <;> exact ⟨nofun, nofun⟩
      have onwards : next ≠ .dispatch ∧ next ≠ .jitPath := by
        cases edge with
        | jit | aot => exact absurd rfl apart
        | enter | original => exact away _
        | _ => exact ⟨nofun, nofun⟩
      rw [List.mem_cons, not_or]
      exact ⟨other.symm, ih onwards.1 onwards.2⟩

theorem not_jit_visit (node : Node) : .jitPath ∉ func.visit node := by
  unfold visit
  split <;> simp

theorem marks_visit {nodes : List Node} (stays : ∀ node ∈ nodes, func.returns node = false) :
    Point.marks (nodes.flatMap func.visit) = [] := by
  induction nodes with
  | nil => rfl
  | cons node nodes ih =>
      rw [List.forall_mem_cons] at stays
      rw [List.flatMap_cons, visit, stays.1]
      exact ih stays.2

/-- The measurement is balanced exactly where no exception leaves the function. -/
theorem balanced_iff_returnsOnly : func.Balanced ↔ func.ReturnsOnly := by
  constructor
  · rintro balanced node ⟨nodes, walk⟩ exit
    by_contra stays
    rw [Bool.not_eq_true] at stays
    have run := run_instrumented (walk.run (.exit exit))
    have whole := (balanced _ (.step .aot (.step .enter run))).2 (by simp [not_jit_visit])
    rw [Point.marks_cons, Point.marks_cons, marks_visit] at whole
    · cases whole
    · intro other member
      rcases List.mem_append.mp member with member | member
      · exact not_returns_of_walk walk other member
      · rwa [List.mem_singleton.mp member]
  · intro only points run
    generalize start : Point.dispatch = point at run
    cases run with
    | exit exit =>
        subst start
        exact exit.elim
    | step edge run =>
        subst start
        cases edge with
        | jit =>
            refine ⟨fun _ => marks_of_run only run trivial, fun absent => ?_⟩
            obtain ⟨rest, rfl⟩ := run.eq_cons
            exact absurd (List.mem_cons_of_mem _ List.mem_cons_self) absent
        | aot =>
            have measured := marks_of_run only run trivial
            refine ⟨fun present => ?_, fun _ => measured⟩
            rcases List.mem_cons.mp present with same | present
            · cases same
            · exact absurd present (not_jit_of_onPath run nofun nofun)

end PipelineFunction

/-! ## Pending measurements -/

/-- A call of `topo_cost_begin` or `topo_cost_end`. -/
structure CostCall where
  mark : CostMark
  funcName : Name
  instrument : Bool
  now : Nat

def CostCall.perform (costs : ThreadCosts Unit) (call : CostCall) : ThreadCosts Unit :=
  match call.mark with
  | .begins => costs.costBegin call.instrument call.funcName call.now
  | .ends => costs.costEnd call.instrument call.funcName call.now ()

def perform (costs : ThreadCosts Unit) (calls : List CostCall) : ThreadCosts Unit :=
  calls.foldl CostCall.perform costs

/-- Instrumented functions that may call each other. -/
structure Program (Fn Node : Type) where
  func : Fn → PipelineFunction Node
  pipelineName : Fn → Name

namespace Program

variable {Fn Node : Type} (program : Program Fn Node)

/-- The inserted call at a point. -/
def own (fn : Fn) (instrument : Bool) (point : Point Node) (now : Nat) : List CostCall :=
  point.mark.toList.map fun mark =>
    { mark, funcName := program.pipelineName fn, instrument, now }

/-- The calls that a thread makes from a point of a function until it is left, those of the
functions that it calls included.  `g_instrument` has one value while the function runs. -/
inductive Executes : Fn → Bool → Point Node → List CostCall → Prop
  | leave {fn : Fn} {instrument : Bool} {point : Point Node} (now : Nat) :
      (program.func fn).instrumented.graph.exit point →
      Executes fn instrument point (program.own fn instrument point now)
  | step {fn : Fn} {instrument : Bool} {point next : Point Node} {calls : List CostCall}
      (now : Nat) : (program.func fn).Edge point next → Executes fn instrument next calls →
      Executes fn instrument point (program.own fn instrument point now ++ calls)
  | call {fn callee : Fn} {instrument other : Bool} {point : Point Node}
      {nested calls : List CostCall} : (program.func fn).instrumented.calls point = true →
      Executes callee other .dispatch nested → Executes fn instrument point calls →
      Executes fn instrument point (nested ++ calls)

/-- The thread's pending list is left as it was found. -/
def KeepsPending (fn : Fn) : Prop :=
  ∀ instrument calls, program.Executes fn instrument .dispatch calls →
    ∀ costs, (perform costs calls).pending = costs.pending

variable {program}

theorem pending_costEnd {costs : ThreadCosts Unit} {funcName : Name} {tp now : Nat}
    {rest : List TopoLlvm.Runtime.PendingBegin}
    (started : costs.pending = { name := funcName, tp } :: rest) :
    (costs.costEnd true funcName now ()).pending = rest := by
  simp [ThreadCosts.costEnd, started]

/-- What is pending with a part of the measurement left. -/
def HoldsAt (funcName : Name) (instrument : Bool) (left : List CostMark)
    (costs : ThreadCosts Unit) (base : List TopoLlvm.Runtime.PendingBegin) : Prop :=
  if instrument = true ∧ left = [.ends] then
    ∃ tp, costs.pending = { name := funcName, tp } :: base
  else costs.pending = base

theorem holdsAt_iff {funcName : Name} {instrument : Bool} {left : List CostMark}
    {costs : ThreadCosts Unit} {base : List TopoLlvm.Runtime.PendingBegin}
    (settled : left ≠ [.ends]) :
    HoldsAt funcName instrument left costs base ↔ costs.pending = base := by
  rw [HoldsAt, if_neg fun both => settled both.2]

/-- The inserted call of a point takes its part. -/
theorem holdsAt_of_own {fn : Fn} {instrument : Bool} {point : Point Node} {now : Nat}
    {left : List CostMark} {costs : ThreadCosts Unit}
    {base : List TopoLlvm.Runtime.PendingBegin}
    (split : (program.func fn).leftMarks point = point.mark.toList ++ left)
    (holds : HoldsAt (program.pipelineName fn) instrument
      ((program.func fn).leftMarks point) costs base) :
    HoldsAt (program.pipelineName fn) instrument left
      (perform costs (program.own fn instrument point now)) base := by
  cases point with
  | costBegin =>
      obtain rfl : left = [.ends] := (List.cons.inj split).2.symm
      cases instrument with
      | false => simpa [HoldsAt, own, perform, Point.mark, CostCall.perform,
          ThreadCosts.costBegin] using holds
      | true =>
          have found : costs.pending = base := holds
          exact ⟨now, congrArg (_ :: ·) found⟩
  | costEnd node =>
      obtain rfl : left = [] := (List.cons.inj split).2.symm
      cases instrument with
      | false => simpa [HoldsAt, own, perform, Point.mark, CostCall.perform,
          ThreadCosts.costEnd] using holds
      | true =>
          obtain ⟨tp, started⟩ := holds
          exact pending_costEnd started
  | _ =>
      have same : (program.func fn).leftMarks _ = left := split
      rw [same] at holds
      exact holds

theorem pending_of_executes (only : ∀ fn, (program.func fn).ReturnsOnly) {fn : Fn}
    {instrument : Bool} {point : Point Node} {calls : List CostCall}
    (executes : program.Executes fn instrument point calls) (costs : ThreadCosts Unit)
    (base : List TopoLlvm.Runtime.PendingBegin)
    (path : point = .dispatch ∧ costs.pending = base ∨ (program.func fn).OnPath point ∧
      HoldsAt (program.pipelineName fn) instrument ((program.func fn).leftMarks point) costs
        base) : (perform costs calls).pending = base := by
  induction executes generalizing costs base with
  | @leave fn instrument point now exit =>
      rcases path with ⟨rfl, -⟩ | ⟨onPath, holds⟩
      · exact exit.elim
      · have split := PipelineFunction.leftMarks_of_exit (only fn) onPath exit
        rw [← List.append_nil point.mark.toList] at split
        have settled : ([] : List CostMark) ≠ [.ends] := nofun
        exact (holdsAt_iff settled).mp (holdsAt_of_own split holds)
  | @step fn instrument point next calls now edge _ ih =>
      rw [perform, List.foldl_append]
      refine ih _ base (.inr ?_)
      rcases path with ⟨rfl, same⟩ | ⟨onPath, holds⟩
      · have settled : (program.func fn).leftMarks next ≠ [.ends] := by
          cases edge <;> nofun
        refine ⟨?_, (holdsAt_iff settled).mpr same⟩
        cases edge <;> trivial
      · obtain ⟨onwards, split⟩ := PipelineFunction.leftMarks_of_edge onPath edge
        exact ⟨onwards, holdsAt_of_own split holds⟩
  | @call fn callee instrument other point nested calls mayCall _ _ ihNested ih =>
      rw [perform, List.foldl_append]
      have restored : (perform costs nested).pending = costs.pending :=
        ihNested costs costs.pending (.inl ⟨rfl, rfl⟩)
      refine ih _ base ?_
      rcases path with ⟨rfl, -⟩ | ⟨onPath, holds⟩
      · cases mayCall
      · refine .inr ⟨onPath, ?_⟩
        unfold HoldsAt at holds ⊢
        change if _ then ∃ tp, (perform costs nested).pending = _ else
          (perform costs nested).pending = base
        rwa [restored]

/-- A run without calls of instrumented functions. -/
theorem executes_of_run {fn : Fn} {point : Point Node} {points : List (Point Node)}
    (run : (program.func fn).instrumented.graph.Run point points) :
    program.Executes fn true point (points.flatMap fun point => program.own fn true point 0) := by
  induction run with
  | exit exit =>
      rw [List.flatMap_singleton]
      exact .leave 0 exit
  | step edge _ ih => exact .step 0 edge ih

theorem own_eq_nil {fn : Fn} {points : List (Point Node)} (unmarked : Point.marks points = []) :
    (points.flatMap fun point => program.own fn true point 0) = [] := by
  induction points with
  | nil => rfl
  | cons point points ih =>
      rw [Point.marks_cons, List.append_eq_nil_iff] at unmarked
      rw [List.flatMap_cons, own, unmarked.1, ih unmarked.2]
      rfl

/-- A function that an exception may leave leaves its measurement pending. -/
theorem returnsOnly_of_keepsPending {fn : Fn} (keeps : program.KeepsPending fn) :
    (program.func fn).ReturnsOnly := by
  rintro node ⟨nodes, walk⟩ exit
  by_contra stays
  rw [Bool.not_eq_true] at stays
  have run := PipelineFunction.run_instrumented (walk.run (.exit exit))
  have restored := keeps true _ (executes_of_run (.step .aot (.step .enter run))) .fresh
  rw [List.flatMap_cons, List.flatMap_cons, own_eq_nil] at restored
  · cases restored
  · refine PipelineFunction.marks_visit fun other member => ?_
    rcases List.mem_append.mp member with member | member
    · exact PipelineFunction.not_returns_of_walk walk other member
    · rwa [List.mem_singleton.mp member]

/-- The measurement of a function is balanced exactly where it is left by returning only, and the
functions keep the pending list exactly where all of them are. -/
theorem balanced_iff (program : Program Fn Node) :
    (∀ fn, (program.func fn).Balanced ↔ (program.func fn).ReturnsOnly) ∧
      ((∀ fn, program.KeepsPending fn) ↔ ∀ fn, (program.func fn).ReturnsOnly) :=
  ⟨fun _ => PipelineFunction.balanced_iff_returnsOnly,
    fun keeps fn => returnsOnly_of_keepsPending (keeps fn),
    fun only _ _ _ executes costs =>
      pending_of_executes only executes costs costs.pending (.inl ⟨rfl, rfl⟩)⟩

end Program

/-- A call that an exception may leave, and a return. -/
def throwingCall : PipelineFunction Bool where
  graph :=
    { edge := fun node next => node = false ∧ next = true
      entry := false
      exit := fun _ => True }
  returns node := node
  calls node := !node
  entered := by simp
  ended := by simp

/-- The exception leaves the measurement open. -/
theorem throwingCall_unbalanced : ¬ throwingCall.Balanced := by
  intro balanced
  have run : throwingCall.instrumented.graph.Run .dispatch
      [.dispatch, .costBegin, .original false] :=
    .step .aot (.step .enter (.exit trivial))
  have marks := (balanced _ run).2 (by simp)
  cases marks

end AdaptiveDispatch
end TopoLlvm
