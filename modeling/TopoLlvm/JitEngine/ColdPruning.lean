import TopoLlvm.Library.Sweep
import TopoLlvm.Transforms.PartialPipeline

/-!
# Pruned pipelines

Constraints remove edges from the pipelines of a module; nodes that the sources no longer reach
are then left out of the body that the engine generates.  A cold stage loses all edges into it.
-/

namespace TopoLlvm
namespace JitEngine

open TopoLlvm.Runtime (Name Costs Doubles PipelineEntry buildConstraintsFromCosts)
open PipelineCodeGen
open Sweep (Reached sweep mem_sweep source_or_target)

/-- A constraint matches an edge. -/
def matchesEdge (pruned edge : Name × Name) : Bool :=
  (pruned.1 = ['*'] || edge.1 = pruned.1) && (pruned.2 = ['*'] || edge.2 = pruned.2)

/-- `applyConstraints` on the edges of one pipeline. -/
def applyConstraints (prunedEdges edges : List (Name × Name)) : List (Name × Name) :=
  prunedEdges.foldl (fun edges pruned => edges.filter fun edge => !matchesEdge pruned edge) edges

/-- The node is left in the pruned graph. -/
def isReachable (prunedEdges : List (Name × Name)) (pipeline : Pipeline) (node : Name) : Bool :=
  node ∈ sweep (applyConstraints prunedEdges pipeline.edges) pipeline.sourceNodes

/-- The pipeline of the engine's symbol table: pruned edges, and only nodes that are reached. -/
def prunePipeline (prunedEdges : List (Name × Name)) (pipeline : Pipeline) : Pipeline where
  qualifiedName := pipeline.qualifiedName
  calledFunctions := pipeline.calledFunctions
  edges := applyConstraints prunedEdges pipeline.edges
  stages := pipeline.stages.filter (isReachable prunedEdges pipeline ·.1)
  sourceNodes := pipeline.sourceNodes
  terminalNode := pipeline.terminalNode
  distinct := pipeline.distinct.sublist (List.filter_sublist.map _)

/-- The pipelines of a module, in the order of the symbol table. -/
structure PipelineTable where
  pipelines : List Pipeline
  distinct : (pipelines.map (·.qualifiedName)).Nodup

variable {Ty : Type} [DecidableEq Ty] (types : TypeSystem Ty) (utilities : Utilities)
  (mapping : Mapping Ty)

namespace PipelineTable

variable (table : PipelineTable)

/-- The body of a pipeline that the build generates. -/
def aotBody (name : Name) : Option Generated :=
  (run types utilities mapping table.pipelines).lookup name

/-- The body of a pipeline that the engine generates. -/
def jitBody (prunedEdges : List (Name × Name)) (name : Name) : Option Generated :=
  (run types utilities mapping (table.pipelines.map (prunePipeline prunedEdges))).lookup name

end PipelineTable

/-- The engine has a body that returns the same value for all pure stages and inputs. -/
def SameResult (jit : Option Generated) (aot : Generated) : Prop :=
  ∃ generated, jit = some generated ∧
    ∀ (V : Type) (pure : PureStages V) (args : Nat → V),
      pure.result args generated = pure.result args aot

section Conditions

variable (prunedEdges : List (Name × Name)) (pipeline : Pipeline) (func : ModuleFunction Ty)

/-- Sources still lead to the node. -/
def Remains (node : Name) : Prop :=
  Reached (applyConstraints prunedEdges pipeline.edges) pipeline.sourceNodes node

/-- The nodes that remain find arguments among the outputs that remain, and the terminal node
remains where a value is returned. -/
def StillGenerated : Prop :=
  (∀ before node after callee, pipeline.order = before ++ node :: after →
    Remains prunedEdges pipeline node → node ∉ pipeline.sourceNodes →
      pipeline.resolveFunction utilities mapping node = some callee →
        Supplied func.params callee.params (pipeline.supply types utilities mapping
          (before.filter (isReachable prunedEdges pipeline)) node)) ∧
    (types.isVoid func.returnTy = false → Remains prunedEdges pipeline pipeline.terminalNode)

end Conditions

variable {types utilities mapping}

section Graph

variable {prunedEdges : List (Name × Name)} {pipeline : Pipeline}

theorem isReachable_iff {node : Name} :
    isReachable prunedEdges pipeline node = true ↔ Remains prunedEdges pipeline node := by
  rw [isReachable, decide_eq_true_iff]
  exact mem_sweep

theorem applyConstraints_eq_filter (prunedEdges edges : List (Name × Name)) :
    applyConstraints prunedEdges edges =
      edges.filter fun edge => prunedEdges.all fun pruned => !matchesEdge pruned edge := by
  induction prunedEdges generalizing edges with
  | nil => simp [applyConstraints]
  | cons pruned prunedEdges ih =>
      rw [applyConstraints, List.foldl_cons, ← applyConstraints, ih, List.filter_filter]
      simp [Bool.and_comm]

theorem mem_applyConstraints {edges : List (Name × Name)} {edge : Name × Name} :
    edge ∈ applyConstraints prunedEdges edges ↔
      edge ∈ edges ∧ ∀ pruned ∈ prunedEdges, matchesEdge pruned edge = false := by
  rw [applyConstraints_eq_filter, List.mem_filter, List.all_eq_true]
  simp only [Bool.not_eq_true']

/-- Where constraints name no source, a node that remains and is not a source keeps its edges. -/
theorem filter_applyConstraints (wild : ∀ pruned ∈ prunedEdges, pruned.1 = ['*']) {node : Name}
    (remains : Remains prunedEdges pipeline node) (inner : node ∉ pipeline.sourceNodes) :
    (applyConstraints prunedEdges pipeline.edges).filter (·.2 = node) =
      pipeline.edges.filter (·.2 = node) := by
  obtain ⟨before, edge⟩ := (source_or_target (mem_sweep.mpr remains)).resolve_left inner
  have kept := (mem_applyConstraints.mp edge).2
  rw [applyConstraints_eq_filter, List.filter_filter]
  refine List.filter_congr fun other _ => ?_
  by_cases into : other.2 = node
  · have all : (prunedEdges.all fun pruned => !matchesEdge pruned other) = true := by
      refine List.all_eq_true.mpr fun pruned member => ?_
      have free := kept pruned member
      simp only [matchesEdge, wild pruned member, decide_true, Bool.true_or, Bool.true_and] at free ⊢
      rw [into, free]
      rfl
    simp [into, all]
  · simp [into]

theorem prunePipeline_order :
    (prunePipeline prunedEdges pipeline).order =
      pipeline.order.filter (isReachable prunedEdges pipeline) := by
  rw [Pipeline.order, prunePipeline, groupNodesByStage_filter, flatMap_pruneGroups]
  rfl

end Graph

section Bodies

variable {prunedEdges : List (Name × Name)} {pipeline : Pipeline} {func : ModuleFunction Ty}

/-- Nodes that remain have the arguments that they have in the full graph after as many nodes. -/
theorem arguments_prunePipeline (wild : ∀ pruned ∈ prunedEdges, pruned.1 = ['*'])
    {params : List (Param Ty)} {generated : List Name} {node : Name}
    (remains : Remains prunedEdges pipeline node) (callee : ModuleFunction Ty) :
    (prunePipeline prunedEdges pipeline).arguments types utilities mapping params generated node
        callee =
      pipeline.arguments types utilities mapping params generated node callee := by
  unfold Pipeline.arguments
  by_cases source : pipeline.isSource utilities node = true
  · rw [if_pos source, if_pos (show (prunePipeline prunedEdges pipeline).isSource utilities node =
      true from source)]
  · rw [if_neg source, if_neg (show ¬ (prunePipeline prunedEdges pipeline).isSource utilities node =
      true from source)]
    have inner : node ∉ pipeline.sourceNodes := fun member =>
      source ((utilities.isSourceNode_iff node pipeline.sourceNodes).mpr member)
    have upstream : utilities.findUpstreamNodes node (prunePipeline prunedEdges pipeline).edges =
        utilities.findUpstreamNodes node pipeline.edges := by
      rw [← utilities.findUpstreamNodes_filter, ← utilities.findUpstreamNodes_filter node
        pipeline.edges]
      exact congrArg _ (filter_applyConstraints wild remains inner)
    rw [Pipeline.supply, upstream]
    rfl

theorem callsFrom_prunePipeline (wild : ∀ pruned ∈ prunedEdges, pruned.1 = ['*'])
    {params : List (Param Ty)} {generated nodes : List Name}
    (remain : ∀ node ∈ nodes, Remains prunedEdges pipeline node) :
    (prunePipeline prunedEdges pipeline).callsFrom types utilities mapping params generated nodes =
      pipeline.callsFrom types utilities mapping params generated nodes := by
  induction nodes generalizing generated with
  | nil => rfl
  | cons node nodes ih =>
      have rest := fun other member => remain other (List.mem_cons_of_mem node member)
      rw [Pipeline.callsFrom, Pipeline.callsFrom]
      simp only [arguments_prunePipeline wild (remain node List.mem_cons_self), ih rest]
      rfl

/-- The engine's body has the calls of the nodes that remain. -/
theorem generatePipelineBody_prunePipeline (wild : ∀ pruned ∈ prunedEdges, pruned.1 = ['*']) :
    (prunePipeline prunedEdges pipeline).generatePipelineBody types utilities mapping func =
      (pipeline.callsFrom types utilities mapping func.params []
          (pipeline.order.filter (isReachable prunedEdges pipeline))).bind fun calls =>
        (pipeline.generateReturn types func.returnTy
            (if pipeline.terminalNode ∈
                pipeline.order.filter (isReachable prunedEdges pipeline) then
              pipeline.outputTyOf utilities mapping pipeline.terminalNode else none)).map
          fun returned => { calls, returned } := by
  rw [Pipeline.generatePipelineBody_eq, prunePipeline_order, callsFrom_prunePipeline wild
    fun node member => isReachable_iff.mp (List.mem_filter.mp member).2]
  rfl

omit [DecidableEq Ty] in
/-- The places in a filtered list are places in the list. -/
theorem filter_eq_append_cons {keep : Name → Bool} {nodes before after : List Name} {node : Name}
    (place : nodes.filter keep = before ++ node :: after) :
    ∃ front back, nodes = front ++ node :: back ∧ front.filter keep = before ∧
      keep node = true := by
  obtain ⟨front, back, rfl, rfl, rest⟩ := List.filter_eq_append_iff.mp place
  obtain ⟨dropped, last, rfl, none, kept, -⟩ := List.filter_eq_cons_iff.mp rest
  refine ⟨front ++ dropped, last, by simp, ?_, kept⟩
  rw [List.filter_append, List.filter_eq_nil_iff.mpr none, List.append_nil]

/-- The calls that remain are found exactly where the outputs that remain supply them. -/
theorem isSome_callsFrom_filter (keep : Name → Bool) {params : List (Param Ty)}
    (full : (pipeline.callsFrom types utilities mapping params [] pipeline.order).isSome) :
    (pipeline.callsFrom types utilities mapping params [] (pipeline.order.filter keep)).isSome ↔
      ∀ before node after callee, pipeline.order = before ++ node :: after →
        keep node = true → node ∉ pipeline.sourceNodes →
          pipeline.resolveFunction utilities mapping node = some callee →
            Supplied params callee.params
              (pipeline.supply types utilities mapping (before.filter keep) node) := by
  rw [Pipeline.callsFrom_isSome_iff] at full ⊢
  constructor
  · intro found before node after callee place kept inner resolved
    have arguments := found (before.filter keep) node (after.filter keep) callee
      (by rw [place, List.filter_append, List.filter_cons_of_pos kept]) resolved
    have notSource : ¬ pipeline.isSource utilities node = true := fun source =>
      inner ((utilities.isSourceNode_iff node _).mp source)
    rw [Pipeline.arguments, if_neg notSource] at arguments
    exact matchArgs_isSome_iff.mp arguments
  · intro supplied before node after callee place resolved
    obtain ⟨front, back, there, rfl, kept⟩ := filter_eq_append_cons place
    have fullArguments := full front node back callee there resolved
    unfold Pipeline.arguments at fullArguments ⊢
    split
    · rename_i source
      rwa [if_pos source] at fullArguments
    · rename_i notSource
      have inner : node ∉ pipeline.sourceNodes := fun member =>
        notSource ((utilities.isSourceNode_iff node _).mpr member)
      exact matchArgs_isSome_iff.mpr (supplied front node back callee there kept inner resolved)

theorem generateReturn_of_isVoid {returnTy : Ty} (void : types.isVoid returnTy = true)
    (terminalTy : Option Ty) :
    pipeline.generateReturn types returnTy terminalTy = some .void := by
  simp [Pipeline.generateReturn, void]

theorem generateReturn_none {returnTy : Ty} (value : types.isVoid returnTy = false) :
    pipeline.generateReturn types returnTy none = none := by
  simp [Pipeline.generateReturn, value]

/-- Where the build generates a body, the engine does so exactly where the graph that remains
supplies it. -/
theorem isSome_generate_prunePipeline (wild : ∀ pruned ∈ prunedEdges, pruned.1 = ['*'])
    (full : (pipeline.generatePipelineBody types utilities mapping func).isSome) :
    ((prunePipeline prunedEdges pipeline).generatePipelineBody types utilities mapping
        func).isSome ↔
      StillGenerated types utilities mapping prunedEdges pipeline func := by
  obtain ⟨generated, full⟩ := Option.isSome_iff_exists.mp full
  rw [Pipeline.generatePipelineBody_eq] at full
  obtain ⟨calls, fullCalls, full⟩ := Option.bind_eq_some_iff.mp full
  obtain ⟨returned, fullReturn, rfl⟩ := Option.map_eq_some_iff.mp full
  have supplied := isSome_callsFrom_filter (isReachable prunedEdges pipeline)
    (Option.isSome_iff_exists.mpr ⟨calls, fullCalls⟩)
  simp only [isReachable_iff] at supplied
  rw [generatePipelineBody_prunePipeline wild, StillGenerated, ← supplied]
  cases rest : pipeline.callsFrom types utilities mapping func.params []
      (pipeline.order.filter (isReachable prunedEdges pipeline)) with
  | none => simp
  | some restCalls =>
      rw [Option.bind_some, Option.isSome_map]
      cases void : types.isVoid func.returnTy with
      | true =>
          rw [generateReturn_of_isVoid void]
          simp
      | false =>
          have inside : pipeline.terminalNode ∈ pipeline.order := by
            by_contra outside
            rw [if_neg outside, generateReturn_none void] at fullReturn
            cases fullReturn
          rw [if_pos inside] at fullReturn
          simp only [Option.isSome_some, true_and, forall_const]
          rw [← isReachable_iff]
          cases kept : isReachable prunedEdges pipeline pipeline.terminalNode with
          | true =>
              rw [if_pos (List.mem_filter.mpr ⟨inside, kept⟩), fullReturn]
              simp
          | false =>
              rw [if_neg fun member => by simp [kept] at member, generateReturn_none void]
              simp

/-- Where both bodies are generated they return the same exactly where no value is returned or the
terminal output depends on nodes that remain. -/
theorem result_prunePipeline_iff (wild : ∀ pruned ∈ prunedEdges, pruned.1 = ['*'])
    {aot jit : Generated}
    (full : pipeline.generatePipelineBody types utilities mapping func = some aot)
    (rest : (prunePipeline prunedEdges pipeline).generatePipelineBody types utilities mapping func =
      some jit) :
    (∀ (V : Type) (pure : PureStages V) (args : Nat → V),
        pure.result args jit = pure.result args aot) ↔
      (types.isVoid func.returnTy = false → ∀ node,
        pipeline.DependsOn types utilities mapping func.params pipeline.terminalNode node →
          Remains prunedEdges pipeline node) := by
  rw [Pipeline.generatePipelineBody_eq] at full
  rw [generatePipelineBody_prunePipeline wild] at rest
  obtain ⟨calls, fullCalls, full⟩ := Option.bind_eq_some_iff.mp full
  obtain ⟨returned, fullReturn, rfl⟩ := Option.map_eq_some_iff.mp full
  obtain ⟨restCalls, restFound, rest⟩ := Option.bind_eq_some_iff.mp rest
  obtain ⟨restReturned, restReturn, rfl⟩ := Option.map_eq_some_iff.mp rest
  cases void : types.isVoid func.returnTy with
  | true =>
      rw [generateReturn_of_isVoid void] at fullReturn restReturn
      cases fullReturn
      cases restReturn
      simp [PureStages.result]
  | false =>
      have kept : pipeline.terminalNode ∈
          pipeline.order.filter (isReachable prunedEdges pipeline) := by
        by_contra outside
        rw [if_neg outside, generateReturn_none void] at restReturn
        cases restReturn
      have inside := List.mem_of_mem_filter kept
      rw [if_pos inside] at fullReturn
      rw [if_pos kept, fullReturn] at restReturn
      obtain rfl := Option.some.inj restReturn
      obtain ⟨operand, rfl, output, known⟩ := Pipeline.operand_of_generateReturn void fullReturn
      simp only [← isReachable_iff, forall_const]
      exact Pipeline.result_eq_iff output inside known fullCalls restFound

end Bodies

theorem mem_of_run {pipelines : List Pipeline} {name : Name} {generated : Generated}
    (found : (run types utilities mapping pipelines).lookup name = some generated) :
    name ∈ pipelines.map (·.qualifiedName) := by
  induction pipelines with
  | nil => cases found
  | cons first pipelines ih =>
      rw [run] at found
      split at found
      · exact List.mem_cons_of_mem _ (ih found)
      · split at found
        · cases found
        · rw [List.lookup_cons] at found
          split at found
          · rename_i here
            exact beq_iff_eq.mp here ▸ List.mem_cons_self
          · exact List.mem_cons_of_mem _ (ih found)

/-- A pipeline's body is generated where no earlier generation fails. -/
theorem lookup_run {before after : List Pipeline} {pipeline : Pipeline}
    (distinct : ((before ++ pipeline :: after).map (·.qualifiedName)).Nodup)
    {generated : Generated} :
    (run types utilities mapping (before ++ pipeline :: after)).lookup pipeline.qualifiedName =
        some generated ↔
      (∀ earlier ∈ before, ∀ func, earlier.stub mapping = some func →
        (earlier.generatePipelineBody types utilities mapping func).isSome) ∧
      ∃ func, pipeline.stub mapping = some func ∧
        pipeline.generatePipelineBody types utilities mapping func = some generated := by
  induction before with
  | nil =>
      have alone := (List.nodup_cons.mp distinct).1
      rw [List.nil_append, run]
      cases stub : pipeline.stub mapping with
      | none => simpa using fun found => alone (mem_of_run found)
      | some func =>
          cases body : pipeline.generatePipelineBody types utilities mapping func with
          | none => simp [body]
          | some generated => simp [body]
  | cons first before ih =>
      obtain ⟨apart, distinct⟩ := List.nodup_cons.mp distinct
      have other : (pipeline.qualifiedName == first.qualifiedName) = false := by
        simp only [beq_eq_false_iff_ne]
        rintro same
        exact apart (by simp [same])
      rw [List.cons_append, run]
      simp only [List.forall_mem_cons, and_assoc]
      cases stub : first.stub mapping with
      | none => simpa using ih distinct
      | some func =>
          cases body : first.generatePipelineBody types utilities mapping func with
          | none => simp [body]
          | some generated =>
              simpa [body, List.lookup_cons, other] using ih distinct

theorem prunedEdges_wild {D : Type} (doubles : Doubles D) (entry : PipelineEntry) (costs : Costs) :
    ∀ pruned ∈ (buildConstraintsFromCosts doubles entry costs).prunedEdges, pruned.1 = ['*'] := by
  intro pruned member
  dsimp only [buildConstraintsFromCosts] at member
  split at member
  · cases member
  · obtain ⟨cost, -, rfl⟩ := List.mem_map.mp member
    rfl

/-- The engine's body returns what the build's body returns exactly where each pipeline up to it
is still generated, and its terminal output, if it is returned, depends on nodes that remain. -/
theorem coldPruning_preserves_iff {D : Type} (doubles : Doubles D) (entry : PipelineEntry)
    (costs : Costs) (types : TypeSystem Ty) (utilities : Utilities) (mapping : Mapping Ty)
    (table : PipelineTable) {before after : List Pipeline} {pipeline : Pipeline}
    (place : table.pipelines = before ++ pipeline :: after) {aot : Generated}
    (built : table.aotBody types utilities mapping pipeline.qualifiedName = some aot) :
    let prunedEdges := (buildConstraintsFromCosts doubles entry costs).prunedEdges
    SameResult (table.jitBody types utilities mapping prunedEdges pipeline.qualifiedName) aot ↔
      (∀ earlier ∈ before ++ [pipeline], ∀ func, earlier.stub mapping = some func →
        StillGenerated types utilities mapping prunedEdges earlier func) ∧
      ∀ func, pipeline.stub mapping = some func → types.isVoid func.returnTy = false →
        ∀ node,
          pipeline.DependsOn types utilities mapping func.params pipeline.terminalNode node →
            Remains prunedEdges pipeline node := by
  intro prunedEdges
  have wild : ∀ pruned ∈ prunedEdges, pruned.1 = ['*'] := prunedEdges_wild doubles entry costs
  clear_value prunedEdges
  have distinct := table.distinct
  rw [PipelineTable.aotBody, place] at built
  rw [place] at distinct
  obtain ⟨earlierBuilt, func, stub, full⟩ := (lookup_run distinct).mp built
  have fullSome : (pipeline.generatePipelineBody types utilities mapping func).isSome := by
    rw [full]
    rfl
  -- The engine's table has the pruned pipelines under the same names.
  have jit (generated : Generated) :
      table.jitBody types utilities mapping prunedEdges pipeline.qualifiedName = some generated ↔
        (∀ earlier ∈ before, ∀ func, earlier.stub mapping = some func →
          ((prunePipeline prunedEdges earlier).generatePipelineBody types utilities mapping
            func).isSome) ∧
        (prunePipeline prunedEdges pipeline).generatePipelineBody types utilities mapping func =
          some generated := by
    have same : ((before.map (prunePipeline prunedEdges) ++ prunePipeline prunedEdges pipeline ::
        after.map (prunePipeline prunedEdges)).map (·.qualifiedName)).Nodup := by
      rw [← List.map_cons, ← List.map_append, List.map_map]
      exact distinct
    rw [PipelineTable.jitBody, place, List.map_append, List.map_cons]
    refine (lookup_run same).trans (and_congr ?_ ?_)
    · exact List.forall_mem_map
    · constructor
      · rintro ⟨other, otherStub, body⟩
        obtain rfl := Option.some.inj (stub.symm.trans otherStub)
        exact body
      · exact fun body => ⟨func, stub, body⟩
  have earlierIff : (∀ earlier ∈ before, ∀ func, earlier.stub mapping = some func →
        ((prunePipeline prunedEdges earlier).generatePipelineBody types utilities mapping
          func).isSome) ↔
      ∀ earlier ∈ before, ∀ func, earlier.stub mapping = some func →
        StillGenerated types utilities mapping prunedEdges earlier func :=
    forall₂_congr fun earlier member => forall₂_congr fun func stub =>
      isSome_generate_prunePipeline wild (earlierBuilt earlier member func stub)
  have last := isSome_generate_prunePipeline wild fullSome
  simp only [SameResult, jit, earlierIff, List.forall_mem_append, List.forall_mem_singleton,
    ← last, stub, Option.some.injEq, forall_eq']
  constructor
  · rintro ⟨generated, ⟨earlier, body⟩, same⟩
    exact ⟨⟨earlier, by rw [body]; rfl⟩, (result_prunePipeline_iff wild full body).mp same⟩
  · rintro ⟨⟨earlier, some⟩, kept⟩
    obtain ⟨generated, body⟩ := Option.isSome_iff_exists.mp some
    exact ⟨generated, ⟨earlier, body⟩, (result_prunePipeline_iff wild full body).mpr kept⟩

/-- Graph utilities on lists, with node names completed to called functions. -/
def sampleUtilities : Utilities where
  isSourceNode node sources := sources.contains node
  isSourceNode_iff _ _ := List.contains_iff_mem
  findUpstreamNodes node edges := (edges.filter (·.2 = node)).map (·.1)
  findUpstreamNodes_filter node edges := by rw [List.filter_filter]; simp
  resolveNodeCallee node called :=
    (called.find? fun name => ("::".toList ++ node).isSuffixOf name).getD []

/-- The type `0` is void, other types are scalars. -/
def sampleTypes : TypeSystem Nat where
  isVoid ty := ty = 0
  elements _ := none

/-- A pipeline from a number to a number, with a stage of two parameters. -/
def sampleMapping : Mapping Nat := fun name =>
  if name = "ns::run".toList then some ⟨[⟨1, none⟩], 1, false, true⟩
  else if name = "ns::load".toList then some ⟨[⟨1, none⟩], 1, false, false⟩
  else if name = "ns::scale".toList then some ⟨[⟨1, none⟩], 1, false, false⟩
  else if name = "ns::join".toList then some ⟨[⟨1, none⟩, ⟨1, none⟩], 1, false, false⟩
  else none

/-- `load` feeds `scale`, and both feed `join`. -/
def samplePipeline : Pipeline where
  qualifiedName := "ns::run".toList
  calledFunctions := ["ns::load".toList, "ns::scale".toList, "ns::join".toList]
  edges := [("load".toList, "scale".toList), ("load".toList, "join".toList),
    ("scale".toList, "join".toList)]
  stages := [("join".toList, 2), ("load".toList, 0), ("scale".toList, 1)]
  sourceNodes := ["load".toList]
  terminalNode := "join".toList
  distinct := by decide

def sampleTable : PipelineTable where
  pipelines := [samplePipeline]
  distinct := by decide

/-- The entry of the sample pipeline in the runtime. -/
def sampleEntry : PipelineEntry where
  mangledName := "_ZN2ns3runEi".toList
  pipelineName := "ns::run".toList
  jitPtr := 0
  aotTTICost := 0
  state := .monitoring
  jitVersions := 0
  aotBaselineNS := 0
  jitBaselineNS := 0
  verifyCount := 0
  jitFuture := none

/-- Costs with one cold stage. -/
def sampleCosts (cold : Name) : Costs :=
  ["load", "scale", "join"].map fun stage =>
    ("ns::run::".toList ++ stage.toList, if stage.toList = cold then 1 else 1000)

def sampleBody : Generated where
  calls := [("load".toList, [.arg 0]), ("scale".toList, [.output "load".toList]),
    ("join".toList, [.output "load".toList, .output "scale".toList])]
  returned := .value (.output "join".toList)

/-- A source that is cold loses no edge. -/
theorem coldPruning_preserves_iff_source :
    SameResult (sampleTable.jitBody sampleTypes sampleUtilities sampleMapping
        (buildConstraintsFromCosts Doubles.exact sampleEntry
          (sampleCosts "load".toList)).prunedEdges samplePipeline.qualifiedName) sampleBody ∧
      ∀ node, samplePipeline.DependsOn sampleTypes sampleUtilities sampleMapping [⟨1, none⟩]
          "join".toList node →
        Remains (buildConstraintsFromCosts Doubles.exact sampleEntry
          (sampleCosts "load".toList)).prunedEdges samplePipeline node := by
  have built : sampleTable.aotBody sampleTypes sampleUtilities sampleMapping "ns::run".toList =
      some sampleBody := by decide
  have same : SameResult (sampleTable.jitBody sampleTypes sampleUtilities sampleMapping
      (buildConstraintsFromCosts Doubles.exact sampleEntry
        (sampleCosts "load".toList)).prunedEdges samplePipeline.qualifiedName) sampleBody :=
    ⟨sampleBody, by decide +kernel, fun _ _ _ => rfl⟩
  refine ⟨same, ((coldPruning_preserves_iff Doubles.exact sampleEntry (sampleCosts "load".toList)
    sampleTypes sampleUtilities sampleMapping sampleTable
    (show sampleTable.pipelines = [] ++ samplePipeline :: [] from rfl) built).mp same).2 _ rfl rfl⟩

/-- A cold stage that feeds another is dropped: its consumer takes a pipeline parameter instead. -/
theorem coldPruning_drops_stage :
    sampleTable.aotBody sampleTypes sampleUtilities sampleMapping "ns::run".toList =
        some sampleBody ∧
      ¬ SameResult (sampleTable.jitBody sampleTypes sampleUtilities sampleMapping
        (buildConstraintsFromCosts Doubles.exact sampleEntry
          (sampleCosts "scale".toList)).prunedEdges "ns::run".toList) sampleBody := by
  have jit : sampleTable.jitBody sampleTypes sampleUtilities sampleMapping
      (buildConstraintsFromCosts Doubles.exact sampleEntry
        (sampleCosts "scale".toList)).prunedEdges "ns::run".toList =
        some
          { calls := [("load".toList, [.arg 0]),
              ("join".toList, [.output "load".toList, .arg 0])]
            returned := .value (.output "join".toList) } := by decide +kernel
  refine ⟨by decide, ?_⟩
  rintro ⟨generated, found, same⟩
  obtain rfl := Option.some.inj (jit.symm.trans found)
  exact absurd (same Bool (PureStages.tracing "scale".toList) fun _ => false) (by decide)

end JitEngine
end TopoLlvm
