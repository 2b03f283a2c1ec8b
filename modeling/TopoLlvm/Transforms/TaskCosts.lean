import TopoLlvm.Runtime.CostSamples
import TopoLlvm.Transforms.PipelineCodeGen
import TopoLlvm.Transforms.TopoParallel

/-!
# The cost keys of tasks

With instrumentation on, the wrapper of a task records the cost of its callee under a key.  The
adaptive runtime reads the keys of a pipeline's stages, and clears them, by the pipeline's name and
`::` in front of them.
-/

namespace TopoLlvm
namespace TopoParallel

open TopoLlvm.Runtime

/-- What the pass asks of a called function's type. -/
structure Signature where
  /-- The parameters, by whether they have an `sret` attribute. -/
  params : List Bool
  isVoid : Bool

/-- Where a wrapper takes an argument from. -/
inductive WrapperArg where
  | resultBuffer
  | field (index : Nat)
  deriving DecidableEq

inductive WrapperStep (Fn : Type) where
  | costBegin (funcName : Name)
  | loadField (index : Nat)
  | call (callee : Fn) (args : List WrapperArg)
  | storeResult
  | costEnd (funcName : Name)
  | retVoid
  deriving DecidableEq

/-- The arguments of the original call, with the fields of the structure from an index on. -/
def wrapperArgs : Nat → List Bool → List WrapperArg
  | _, [] => []
  | fieldIdx, structRet :: params =>
      if structRet then .resultBuffer :: wrapperArgs fieldIdx params
      else .field fieldIdx :: wrapperArgs (fieldIdx + 1) params

def loadFields {Fn : Type} (args : List WrapperArg) : List (WrapperStep Fn) :=
  args.filterMap fun
    | .resultBuffer => none
    | .field index => some (.loadField index)

/-- The body of the wrapper of a callee. -/
def createTaskWrapper {Fn : Type} (callee : Fn) (signature : Signature) (funcName : Name)
    (instrument : Bool) : List (WrapperStep Fn) :=
  let args := wrapperArgs 0 signature.params
  let hasStructRet := signature.params.head?.any id
  (if instrument then [.costBegin funcName] else []) ++ loadFields args ++ [.call callee args] ++
    (if !signature.isVoid && !hasStructRet then [.storeResult] else []) ++
    (if instrument then [.costEnd funcName] else []) ++ [.retVoid]

/-- The key of a cost step. -/
def WrapperStep.costKey {Fn : Type} : WrapperStep Fn → Option Name
  | .costBegin funcName | .costEnd funcName => some funcName
  | _ => none

/-- A call that runs as a task. -/
structure Task (Fn : Type) where
  /-- The node of the pipeline. -/
  node : Name
  wrapper : List (WrapperStep Fn)

namespace Task

variable {Fn : Type} (task : Task Fn)

/-- The keys under which the wrapper records its cost. -/
def costKeys : List Name := task.wrapper.filterMap WrapperStep.costKey

end Task

/-- What the pass reads of a module, its mapping and its settings. -/
structure Program (Fn : Type) where
  isDeclaration : Fn → Bool
  isVarArg : Fn → Bool
  signature : Fn → Signature
  matched : Name → Option Fn
  exclude : List Name
  instrument : Bool

namespace Program

variable {Fn : Type} (program : Program Fn)

/-- The stages of a pipeline, in their order. -/
def stages (pipeline : PipelineCodeGen.Pipeline) : List (Stage Fn) :=
  (PipelineCodeGen.groupNodesByStage pipeline.stages).map fun (_, nodes) =>
    { isDeclaration := program.isDeclaration
      isVarArg := program.isVarArg
      matched := program.matched
      exclude := program.exclude
      calledFunctions := pipeline.calledFunctions
      nodes := nodes }

/-- The task for a call of a parallelised stage: the first candidate of the called function gives
the name. -/
def task [DecidableEq Fn] (stage : Stage Fn) (calledFunction : Option Fn) : Option (Task Fn) :=
  calledFunction.bind fun callee =>
    (stage.candidates.find? fun candidate => callee = candidate.irFunc).map fun candidate =>
      { node := candidate.simpleName
        wrapper := createTaskWrapper callee (program.signature callee) candidate.simpleName
          program.instrument }

/-- The tasks of a parallelised stage.  The calls are those of the pipeline function, in the order
of its blocks, by what they call directly. -/
def tasks [DecidableEq Fn] (stage : Stage Fn) (calls : List (Option Fn)) : List (Task Fn) :=
  calls.filterMap (program.task stage)

/-- The tasks of a pipeline, with the calls that its function has when a stage's turn comes.  A
stage is left alone where the operands of its calls are not defined before the first of them. -/
def pipelineTasks [DecidableEq Fn] (pipeline : PipelineCodeGen.Pipeline)
    (operandsDominateSpawn : Stage Fn → Bool) (calls : Stage Fn → List (Option Fn)) :
    List (Task Fn) :=
  ((program.stages pipeline).filter operandsDominateSpawn).flatMap fun stage =>
    program.tasks stage (calls stage)

end Program

/-! ## What a wrapper records -/

section Recording

variable {Fn Origin : Type}

/-- A step of a wrapper on the cost data of its thread, with the time it is made at. -/
def WrapperStep.run (enabled : Bool) (body : ThreadCosts Origin → ThreadCosts Origin)
    (origin : Origin) (costs : ThreadCosts Origin) : WrapperStep Fn × Nat → ThreadCosts Origin
  | (.costBegin funcName, now) => costs.costBegin enabled funcName now
  | (.call _ _, _) => body costs
  | (.costEnd funcName, now) => costs.costEnd enabled funcName now origin
  | (.loadField _, _) | (.storeResult, _) | (.retVoid, _) => costs

/-- A wrapper's run; the callee may measure regions of its own. -/
def runWrapper (enabled : Bool) (body : ThreadCosts Origin → ThreadCosts Origin)
    (origin : Origin) (steps : List (WrapperStep Fn × Nat)) (costs : ThreadCosts Origin) :
    ThreadCosts Origin :=
  steps.foldl (WrapperStep.run enabled body origin) costs

/-- The names of the steps of a wrapper are its callee's. -/
theorem costKey_createTaskWrapper {callee : Fn} {signature : Signature} {funcName key : Name}
    {instrument : Bool} {step : WrapperStep Fn}
    (member : step ∈ createTaskWrapper callee signature funcName instrument)
    (named : step.costKey = some key) : key = funcName := by
  simp only [createTaskWrapper, List.mem_append, List.mem_singleton, loadFields,
    List.mem_filterMap] at member
  rcases member with ((((begins | ⟨arg, -, load⟩) | rfl) | stores) | ends) | rfl
  · cases instrument <;> simp at begins
    subst begins
    exact (Option.some.inj named).symm
  · cases arg <;> simp at load
    subst load
    cases named
  · cases named
  · split at stores <;> simp at stores
    subst stores
    cases named
  · cases instrument <;> simp at ends
    subst ends
    exact (Option.some.inj named).symm
  · cases named

variable {enabled : Bool} {body : ThreadCosts Origin → ThreadCosts Origin} {origin : Origin}

/-- A run leaves the samples of other names to the callee. -/
theorem lookup_runWrapper {callee : Fn} {signature : Signature} {funcName key : Name}
    {instrument : Bool} {steps : List (WrapperStep Fn × Nat)}
    (wrapper : ∀ step ∈ steps, step.1 ∈ createTaskWrapper callee signature funcName instrument)
    (other : key ≠ funcName)
    (frame : ∀ costs, (body costs).samples.lookup key = costs.samples.lookup key)
    (costs : ThreadCosts Origin) :
    (runWrapper enabled body origin steps costs).samples.lookup key =
      costs.samples.lookup key := by
  induction steps generalizing costs with
  | nil => rfl
  | cons step steps ih =>
      have first := wrapper step List.mem_cons_self
      rw [runWrapper, List.foldl_cons, ← runWrapper,
        ih fun later member => wrapper later (List.mem_cons_of_mem _ member)]
      obtain ⟨step, now⟩ := step
      cases step with
      | costBegin name =>
          simp only [WrapperStep.run, ThreadCosts.costBegin]
          split <;> rfl
      | call => exact frame costs
      | costEnd name =>
          obtain rfl := costKey_createTaskWrapper first rfl
          simp only [WrapperStep.run, ThreadCosts.costEnd]
          split
          · split
            · rfl
            · exact AList.lookup_insert_ne other
          · rfl
      | loadField | storeResult | retVoid => rfl

end Recording

/-! ## Who finds the key -/

theorem stageOf_eq_some {pipeline key stage : Name} :
    stageOf pipeline key = some stage ↔ key = pipeline ++ [':', ':'] ++ stage := by
  simp only [stageOf]
  split
  · rename_i starts
    obtain ⟨rest, rfl⟩ := List.isPrefixOf_iff_prefix.mp starts
    simp [eq_comm]
  · rename_i other
    simp only [reduceCtorEq, false_iff]
    rintro rfl
    exact other (List.isPrefixOf_iff_prefix.mpr (List.prefix_append _ _))

/-- What the runtime's convention asks of the key of a stage. -/
structure KeyAgrees (registered : List PipelineEntry) (pipeline stage key : Name) : Prop where
  /-- The constraints from a cost under the key are about the stage, named as in the edges. -/
  attributed : stageOf pipeline key = some stage
  cleared : ∀ samples : SampleMap Unit, (resetCostSamples samples pipeline).lookup key = none
  exclusive : ∀ entry ∈ registered, entry.pipelineName ≠ pipeline →
    stageOf entry.pipelineName key = none

section Program

variable {Fn : Type} [DecidableEq Fn] {program : Program Fn}

/-- A task records under the name of its node. -/
theorem costKeys_task (instrumented : program.instrument = true) {stage : Stage Fn}
    {calls : List (Option Fn)} {task : Task Fn} (member : task ∈ program.tasks stage calls) :
    task.node ∈ stage.nodes ∧ task.costKeys ≠ [] ∧ ∀ key ∈ task.costKeys, key = task.node := by
  obtain ⟨called, -, made⟩ := List.mem_filterMap.mp member
  obtain ⟨callee, -, made⟩ := Option.bind_eq_some_iff.mp made
  obtain ⟨candidate, found, rfl⟩ := Option.map_eq_some_iff.mp made
  obtain ⟨node, inStage, chosen⟩ := List.mem_filterMap.mp (List.mem_of_find?_eq_some found)
  refine ⟨?_, ?_, ?_⟩
  · obtain ⟨irFunc, -, kept⟩ := Option.bind_eq_some_iff.mp chosen
    split at kept
    · cases kept
    · obtain rfl := Option.some.inj kept
      exact inStage
  · simp [Task.costKeys, createTaskWrapper, instrumented, WrapperStep.costKey]
  · intro key named
    obtain ⟨step, inWrapper, named⟩ := List.mem_filterMap.mp named
    exact costKey_createTaskWrapper inWrapper named

/-- No task of any pipeline's stages has a key that the runtime takes for its stage. -/
theorem taskCosts_never_agree (program : Program Fn) (instrumented : program.instrument = true)
    (registered : List PipelineEntry) (pipeline : PipelineCodeGen.Pipeline)
    (operandsDominateSpawn : Stage Fn → Bool) (calls : Stage Fn → List (Option Fn)) :
    ∀ task ∈ program.pipelineTasks pipeline operandsDominateSpawn calls,
      task.costKeys ≠ [] ∧
        ∀ key ∈ task.costKeys, ¬ KeyAgrees registered pipeline.qualifiedName task.node key := by
  intro task member
  obtain ⟨stage, -, member⟩ := List.mem_flatMap.mp member
  obtain ⟨-, recorded, named⟩ := costKeys_task instrumented member
  refine ⟨recorded, ?_⟩
  intro key inKeys agrees
  -- The key would be longer than itself.
  have longer := congrArg List.length (stageOf_eq_some.mp agrees.attributed)
  simp only [named key inKeys, List.length_append, List.length_cons, List.length_nil] at longer
  omega

end Program

/-! ## A pipeline whose costs nobody reads -/

/-- Without a key of a stage there are no constraints. -/
theorem buildConstraintsFromCosts_of_none {D : Type} (doubles : Doubles D) (entry : PipelineEntry)
    {costs : Costs} (unattributed : ∀ cost ∈ costs, stageOf entry.pipelineName cost.1 = none) :
    buildConstraintsFromCosts doubles entry costs = { prunedEdges := [], params := [] } := by
  unfold buildConstraintsFromCosts
  rw [List.filterMap_eq_nil_iff.mpr]
  · rfl
  · rintro ⟨name, ns⟩ member
    simp [unattributed _ member]

/-- The costs of the tasks of simply named nodes build no constraints for any pipeline. -/
theorem buildConstraintsFromCosts_tasks {Fn D : Type} [DecidableEq Fn] {program : Program Fn}
    (instrumented : program.instrument = true) {stage : Stage Fn} {calls : List (Option Fn)}
    (simple : ∀ node ∈ stage.nodes, ¬ [':', ':'] <:+: node) (doubles : Doubles D)
    (entry : PipelineEntry) {costs : Costs}
    (recorded : ∀ cost ∈ costs, ∃ task ∈ program.tasks stage calls, cost.1 ∈ task.costKeys) :
    buildConstraintsFromCosts doubles entry costs = { prunedEdges := [], params := [] } := by
  refine buildConstraintsFromCosts_of_none doubles entry ?_
  intro cost member
  obtain ⟨task, inTasks, inKeys⟩ := recorded cost member
  obtain ⟨inStage, -, named⟩ := costKeys_task instrumented inTasks
  rw [named cost.1 inKeys]
  cases attributed : stageOf entry.pipelineName task.node with
  | none => rfl
  | some stageName =>
      have qualified := stageOf_eq_some.mp attributed
      exact (simple task.node inStage ⟨entry.pipelineName, stageName, qualified.symm⟩).elim

def detector : Program Name where
  isDeclaration _ := false
  isVarArg _ := false
  signature _ := { params := [false], isVoid := false }
  matched := some
  exclude := []
  instrument := true

def detection : PipelineCodeGen.Pipeline where
  qualifiedName := "app::run".toList
  calledFunctions := ["app::load".toList, "app::scale".toList]
  edges := [("load".toList, "scale".toList)]
  stages := [("load".toList, 0), ("scale".toList, 1)]
  sourceNodes := ["load".toList]
  terminalNode := "scale".toList
  distinct := by decide

def detectionCalls (_ : Stage Name) : List (Option Name) :=
  [some "app::load".toList, none, some "app::scale".toList]

theorem taskCosts_never_agree_detection :
    (detector.pipelineTasks detection (fun _ => true) detectionCalls).map (·.node) =
        ["load".toList, "scale".toList] ∧
      ∀ task ∈ detector.pipelineTasks detection (fun _ => true) detectionCalls,
        task.costKeys ≠ [] ∧ ∀ key ∈ task.costKeys, ¬ KeyAgrees [] "app::run".toList task.node key :=
  ⟨by decide, taskCosts_never_agree detector rfl [] detection (fun _ => true) detectionCalls⟩

/-- The wrapper of the first stage of `app::run` records under `load`, which the constraints of
`app::run` do not see and its reset keeps. -/
theorem taskCosts_miss_pipeline :
    ∃ task ∈ detector.pipelineTasks detection (fun _ => true) detectionCalls,
      task.node = "load".toList ∧ ∃ key ∈ task.costKeys,
        stageOf detection.qualifiedName key = none ∧
          belongsTo detection.qualifiedName key = false ∧
            ¬ KeyAgrees [] detection.qualifiedName task.node key := by
  refine ⟨⟨"load".toList, createTaskWrapper "app::load".toList (detector.signature []) "load".toList
    true⟩, ?_, rfl, "load".toList, by decide, by decide, by decide, ?_⟩
  · exact List.mem_cons_self
  · intro agrees
    have missed : stageOf detection.qualifiedName "load".toList = none := by decide
    cases missed.symm.trans agrees.attributed

end TopoParallel
end TopoLlvm
