import TopoLlvm.Backend.LinkagePolicy
import TopoLlvm.Library.VersionedMemo
import Mathlib.Algebra.Ring.Nat
import Mathlib.Data.List.MinMax

/-!
# The pass pipeline

`PassPipeline::run` executes a schedule of passes that its configuration determines.  All of them
read one mapping from declared names to function objects, and the passes that are applied where a
benchmark favours them share one cache of baseline measurements.
-/

namespace TopoLlvm
namespace Backend

/-- `GlobalValue::VisibilityTypes`. -/
inductive GlobalVisibility where
  | default
  | hidden
  | isProtected
  deriving DecidableEq

/-- What other modules see of a function. -/
structure Signature where
  name : Name
  linkage : Linkage
  visibility : GlobalVisibility
  deriving DecidableEq

/-- `setLinkage(InternalLinkage)`, which resets the visibility. -/
def Signature.demoted (signature : Signature) : Signature :=
  { signature with linkage := .internal, visibility := .default }

/-- A function object; a declaration has no body. -/
structure PassFunction (Body : Type) extends Signature where
  id : FunctionId
  body : Option Body

/-- A module as the passes change it, with the counts of `!topo.fired`. -/
structure PassModule (Body : Type) where
  functions : List (PassFunction Body)
  distinct : (functions.map (·.id)).Nodup
  fired : AList fun _ : Name => Nat

namespace PassModule

variable {Body : Type} (module : PassModule Body)

def find? (id : FunctionId) : Option (PassFunction Body) :=
  module.functions.find? (·.id = id)

/-- The signature of a function object, if it is still in the module. -/
def signature? (id : FunctionId) : Option Signature := (module.find? id).map (·.toSignature)

/-- Change functions but not their identities. -/
def mapFunctions (change : PassFunction Body → PassFunction Body)
    (keeps : ∀ func, (change func).id = func.id) : PassModule Body where
  functions := module.functions.map change
  distinct := by
    rw [List.map_map, Function.comp_def]
    simpa only [keeps] using module.distinct
  fired := module.fired

/-- Write the signature of one function. -/
def resign (id : FunctionId) (change : Signature → Signature) : PassModule Body :=
  module.mapFunctions
    (fun func => if func.id = id then { func with toSignature := change func.toSignature } else func)
    fun func => by split <;> rfl

def eraseFromParent (id : FunctionId) : PassModule Body where
  functions := module.functions.filter (·.id ≠ id)
  distinct := module.distinct.sublist (List.filter_sublist.map _)
  fired := module.fired

def insert (func : PassFunction Body) (fresh : func.id ∉ module.functions.map (·.id)) :
    PassModule Body where
  functions := module.functions ++ [func]
  distinct := by
    rw [List.map_append, List.map_singleton]
    exact List.Nodup.append module.distinct (List.nodup_singleton _) (by simpa using fresh)
  fired := module.fired

theorem find?_mapFunctions (change : PassFunction Body → PassFunction Body)
    (keeps : ∀ func, (change func).id = func.id) (id : FunctionId) :
    (module.mapFunctions change keeps).find? id = (module.find? id).map change := by
  simp only [find?, mapFunctions, List.find?_map, Function.comp_def, keeps]

/-- A change of bodies. -/
theorem signature?_mapFunctions (change : PassFunction Body → PassFunction Body)
    (keeps : ∀ func, (change func).id = func.id)
    (same : ∀ func, (change func).toSignature = func.toSignature) (id : FunctionId) :
    (module.mapFunctions change keeps).signature? id = module.signature? id := by
  rw [signature?, find?_mapFunctions, Option.map_map, Function.comp_def]
  simp only [same]
  rfl

/-- Count what a pass has done, in 32 bits. -/
def markPassFired (passName : Name) (count : Nat) : PassModule Body :=
  if count = 0 then module
  else { module with
    fired := module.fired.insert passName
      (((module.fired.lookup passName).getD 0 + count) % 2 ^ 32) }

end PassModule

namespace PassPipeline

inductive FeatureMode where
  | off
  | auto
  | force
  deriving DecidableEq

/-- `PassPipelineConfig`, with the optimization level: what is absent, and which passes run. -/
structure Config where
  optimizes : Bool
  entries : Option (List VisibilityEntry)
  mapping : Option SymbolMapping
  symbols : Option (List LogicBlock)
  mode : BuildMode
  containment : Bool
  pipelineCodeGen : Bool
  prefetch : Bool
  dataLayout : FeatureMode
  indirection : FeatureMode
  indirectionExplicit : Bool
  topoParallel : FeatureMode
  loopParallelize : Bool
  adaptiveDispatch : Bool
  observability : Bool
  lifetime : FeatureMode

inductive Step where
  | containment
  | pipelineCodeGen
  | returnSpecialization
  | topoInline
  | prefetch
  | alwaysInliner
  | dataLayoutAuto
  | dataLayoutForce
  | indirectionAuto
  | indirection
  | indirectionDiagnose
  | topoParallelAuto
  | topoParallel
  | loopParallelize
  | adaptiveDispatch
  | observability
  | lifetimeArenaAuto
  | lifetimeArena
  | topoFlatten
  | stripNoInline
  | topoReorder
  | standard
  | topoLayout
  deriving DecidableEq

def when (enabled : Bool) (step : Step) : List Step := if enabled then [step] else []

/-- The step of a feature in the mode that it is in. -/
def FeatureMode.steps (mode : FeatureMode) (auto force : Step) : List Step :=
  match mode with
  | .off => []
  | .auto => [auto]
  | .force => [force]

namespace Config

variable (config : Config)

/-- The function objects of the mapping. -/
def hosts : List FunctionId :=
  match config.mapping with
  | none => []
  | some mapping => mapping.matched.entries.map (·.2)

def early : List Step :=
  when config.containment .containment ++ when config.pipelineCodeGen .pipelineCodeGen ++
    [.returnSpecialization, .topoInline] ++ when config.prefetch .prefetch

def indirectionSteps : List Step :=
  match config.indirection with
  | .off => when (!config.indirectionExplicit) .indirectionDiagnose
  | .auto => [.indirectionAuto]
  | .force => [.indirection]

/-- The passes between the layout of data and the demotion of private functions. -/
def middle : List Step :=
  config.indirectionSteps ++ config.topoParallel.steps .topoParallelAuto .topoParallel ++
    when config.loopParallelize .loopParallelize ++
    when config.adaptiveDispatch .adaptiveDispatch ++ when config.observability .observability ++
    config.lifetime.steps .lifetimeArenaAuto .lifetimeArena

/-- The custom passes before the standard pipeline. -/
def custom : List Step :=
  match config.entries, config.mapping, config.symbols with
  | some _, some _, some _ =>
      config.early ++ .alwaysInliner ::
        (config.dataLayout.steps .dataLayoutAuto .dataLayoutForce ++ config.middle ++
          [.topoFlatten])
  | some _, some _, none => [.returnSpecialization, .topoInline, .topoFlatten]
  | _, _, _ => []

def schedule : List Step :=
  if config.optimizes then
    config.custom ++ [.stripNoInline] ++
      when (config.symbols.isSome && config.mapping.isSome) .topoReorder ++ [.standard] ++
      when (config.symbols.isSome && config.mapping.isSome) .topoLayout
  else []

end Config

variable {Body Time : Type}

/-- A pass over function bodies, with the number of its transformations: the functions of the
mapping stay as others see them. -/
structure BodyPass (Body : Type) (hosts : List FunctionId) where
  run : PassModule Body → PassModule Body × Nat
  keeps : ∀ module, ∀ id ∈ hosts, (run module).1.signature? id = module.signature? id

/-- A pass that may write linkages, but keeps the functions of the mapping. -/
structure EarlyPass (Body : Type) (hosts : List FunctionId) where
  run : PassModule Body → PassModule Body × Nat
  keeps : ∀ module, ∀ id ∈ hosts, (module.signature? id).isSome →
    ((run module).1.signature? id).isSome

/-- LLVM's `AlwaysInliner`, followed by `SROA`: it erases the functions that become dead, which only
others than external ones do, and leaves the rest as others see them. -/
structure AlwaysInliner (Body : Type) where
  run : PassModule Body → PassModule Body
  dead : PassModule Body → FunctionId → Bool
  discardable : ∀ module id signature, dead module id = true →
    module.signature? id = some signature → signature.linkage ≠ .external
  erases : ∀ module id, (run module).signature? id =
    if dead module id then none else module.signature? id

/-- What comes of one call of `VariantBenchmark::run`: whether the target is native, the baseline if
it is measured now, whether the module is cloned, and the measurement of the variant. -/
structure Outcome (Time : Type) where
  native : Bool
  baseline : Option Time
  cloned : Bool
  variant : Option Time

/-- A configuration with what the passes and the benchmarks do. -/
structure Inputs (Body Time : Type) extends Config where
  containmentPass : EarlyPass Body toConfig.hosts
  pipelineCodeGenPass : EarlyPass Body toConfig.hosts
  returnSpecializationPass : EarlyPass Body toConfig.hosts
  topoInlinePass : EarlyPass Body toConfig.hosts
  prefetchPass : EarlyPass Body toConfig.hosts
  alwaysInliner : AlwaysInliner Body
  dataLayoutForcePass : BodyPass Body toConfig.hosts
  indirectionPass : BodyPass Body toConfig.hosts
  topoParallelPass : BodyPass Body toConfig.hosts
  loopParallelizePass : BodyPass Body toConfig.hosts
  adaptiveDispatchPass : BodyPass Body toConfig.hosts
  observabilityPass : BodyPass Body toConfig.hosts
  lifetimeArenaPass : BodyPass Body toConfig.hosts
  stripNoInlinePass : BodyPass Body toConfig.hosts
  topoReorderPass : BodyPass Body toConfig.hosts
  standardPipeline : PassModule Body → PassModule Body
  topoLayoutPass : BodyPass Body toConfig.hosts
  /-- The blocks that have a pipeline analysis. -/
  analysed : LogicBlock → Bool
  /-- The rewriting of a cloned pipeline, and the number of its transformations. -/
  inlineRewrite : PassModule Body → LogicBlock → Body → Body × Nat
  /-- `replaceAllUsesWith`, in one body. -/
  replaceUses : FunctionId → FunctionId → Body → Body
  /-- The layout benchmark of a block is won by its variant. -/
  soaWins : LogicBlock → Bool
  /-- `LifetimeArenaPass::collectOwnerFunctions`. -/
  ownerFunctions : PassModule Body → List Name
  /-- The name that is read through a pointer to a function that has been erased. -/
  erasedName : FunctionId → Name
  /-- The calls of `VariantBenchmark::run`, in order. -/
  outcomes : Nat → Outcome Time
  positive : Time → Bool
  /-- The baseline takes more than 1.1 times as long as the variant. -/
  beats : Time → Time → Bool

namespace Inputs

variable (inputs : Inputs Body Time)

/-! ## The layout of data -/

/-- `LayoutVariantPair`. -/
structure LayoutVariantPair where
  aosFn : FunctionId
  soaFn : FunctionId
  block : LogicBlock

/-- The object of a function that is made now. -/
def freshId (module : PassModule Body) : FunctionId :=
  (module.functions.map (·.id) ++ inputs.hosts).foldr max 0 + 1

theorem lt_freshId (module : PassModule Body) {id : FunctionId}
    (member : id ∈ module.functions.map (·.id) ++ inputs.hosts) : id < inputs.freshId module :=
  Nat.lt_succ_of_le (List.le_max_of_le' 0 member le_rfl)

theorem freshId_not_mem (module : PassModule Body) :
    inputs.freshId module ∉ module.functions.map (·.id) := fun member =>
  (inputs.lt_freshId module (List.mem_append_left _ member)).false

/-- The function object that the mapping has for a block. -/
def target? (block : LogicBlock) : Option FunctionId :=
  inputs.mapping.bind fun mapping => mapping.matched.lookup block.qualifiedName

/-- A defined pipeline that the mapping has, with its body. -/
def pipeline? (module : PassModule Body) (block : LogicBlock) :
    Option (PassFunction Body × Body) :=
  if block.isPipeline && inputs.analysed block then do
    let func ← module.find? (← inputs.target? block)
    let body ← func.body
    pure (func, body)
  else none

/-- The clone of a pipeline, if it can be rewritten. -/
def addVariant (result : PassModule Body × List LayoutVariantPair) (block : LogicBlock) :
    PassModule Body × List LayoutVariantPair :=
  match inputs.pipeline? result.1 block with
  | none => result
  | some (func, body) =>
      let (rewritten, transformed) := inputs.inlineRewrite result.1 block body
      if 0 < transformed then
        let soaFn : PassFunction Body :=
          { name := func.name ++ "__soa_variant".toList, linkage := .internal,
            visibility := .default, id := inputs.freshId result.1, body := some rewritten }
        (result.1.insert soaFn (inputs.freshId_not_mem result.1),
          result.2 ++ [{ aosFn := func.id, soaFn := soaFn.id, block }])
      else result

/-- `DataLayoutPass::generateVariants`. -/
def generateVariants (module : PassModule Body) : PassModule Body × List LayoutVariantPair :=
  (inputs.symbols.getD []).foldl inputs.addVariant (module, [])

def redirect (old new : FunctionId) (func : PassFunction Body) : PassFunction Body :=
  { func with body := func.body.map (inputs.replaceUses old new) }

def replaceAllUsesWith (module : PassModule Body) (old new : FunctionId) : PassModule Body :=
  module.mapFunctions (inputs.redirect old new) fun _ => rfl

theorem signature?_replaceAllUsesWith (module : PassModule Body) (old new id : FunctionId) :
    (inputs.replaceAllUsesWith module old new).signature? id = module.signature? id :=
  module.signature?_mapFunctions (inputs.redirect old new) (fun _ => rfl) (fun _ => rfl) id

/-- The variant takes the place and the name of the function that it is a clone of. -/
def replaceBySoA (module : PassModule Body) (variant : LayoutVariantPair) : PassModule Body :=
  match module.signature? variant.aosFn with
  | none => module
  | some signature =>
      let module := inputs.replaceAllUsesWith module variant.aosFn variant.soaFn
      let module := module.resign variant.soaFn fun soa => { soa with name := signature.name }
      module.eraseFromParent variant.aosFn

def chooseLayout (module : PassModule Body) (variant : LayoutVariantPair) : PassModule Body :=
  if inputs.soaWins variant.block then inputs.replaceBySoA module variant
  else module.eraseFromParent variant.soaFn

/-- The layout step in auto mode. -/
def dataLayoutAuto (module : PassModule Body) : PassModule Body :=
  let (module, variants) := inputs.generateVariants module
  (variants.foldl inputs.chooseLayout module).markPassFired "DataLayoutPass".toList
    (variants.countP fun variant => inputs.soaWins variant.block)

/-! ## The demotion of private functions -/

/-- The visibilities whose functions may be removed if nothing calls them. -/
def eligible (visibility : Visibility) : Bool :=
  visibility = .isPrivate || (inputs.mode = .aggressive && visibility = .isProtected)

/-- The functions to demote. -/
def candidates : List FunctionId :=
  ((inputs.entries.getD []).filter fun entry => inputs.eligible entry.visibility).filterMap
    fun entry => inputs.mapping.bind fun mapping => mapping.matched.lookup entry.qualifiedName

def demote (result : PassModule Body × Nat) (id : FunctionId) : PassModule Body × Nat :=
  match result.1.signature? id with
  | none => result
  | some signature =>
      if signature.linkage = .internal then result
      else (result.1.resign id Signature.demoted, result.2 + 1)

/-- `TopoFlattenPass::run`. -/
def topoFlatten (module : PassModule Body) : PassModule Body × Nat :=
  inputs.candidates.foldl demote (module, 0)

/-! ## Benchmarks -/

/-- A measurement of a function by name, or the use of one in a comparison. -/
abbrev BenchEvent (Body Time : Type) := VersionedMemo.Event Name (PassModule Body) Time

/-- The state of the benchmarks: the shared cache, the number of calls, and what has been done. -/
structure Bench (Body Time : Type) where
  cache : AList fun _ : Name => Time
  calls : Nat
  log : List (BenchEvent Body Time)

/-- Compare the measurement of a variant of the module, if there is one. -/
def compareVariant (module : PassModule Body) (target : Name) (baseline : Time)
    (outcome : Outcome Time) (bench : Bench Body Time) : Bench Body Time × Option Bool :=
  if outcome.cloned then
    match outcome.variant with
    | none => (bench, none)
    | some variant =>
        if inputs.positive baseline && inputs.positive variant then
          ({ bench with log := bench.log ++ [.used target module baseline] },
            some (inputs.beats baseline variant))
        else (bench, none)
  else (bench, none)

/-- `VariantBenchmark::run` with a cache; the variant wins or loses, or there is no result. -/
def runBenchmark (module : PassModule Body) (bench : Bench Body Time) (target : Name) :
    Bench Body Time × Option Bool :=
  let outcome := inputs.outcomes bench.calls
  let bench := { bench with calls := bench.calls + 1 }
  if outcome.native then
    match bench.cache.lookup target with
    | some baseline => inputs.compareVariant module target baseline outcome bench
    | none =>
        match outcome.baseline with
        | none => (bench, none)
        | some baseline =>
            inputs.compareVariant module target baseline outcome
              { bench with
                cache := bench.cache.insert target baseline
                log := bench.log ++ [.measured target module baseline] }
  else (bench, none)

/-- Benchmark functions until a variant wins. -/
def findBeneficial (module : PassModule Body) :
    List Name → Bench Body Time → Bench Body Time × Bool
  | [], bench => (bench, false)
  | target :: targets, bench =>
      match inputs.runBenchmark module bench target with
      | (bench, some true) => (bench, true)
      | (bench, _) => findBeneficial module targets bench

/-- The names of the functions that the mapping has for pipelines. -/
def pipelineTargets (module : PassModule Body) : List Name :=
  ((inputs.symbols.getD []).filter (·.isPipeline)).filterMap fun block =>
    (inputs.target? block).map fun id =>
      ((module.signature? id).map (·.name)).getD (inputs.erasedName id)

/-- The functions that a step benchmarks. -/
def benchTargets (step : Step) (module : PassModule Body) : List Name :=
  match step with
  | .indirectionAuto | .topoParallelAuto => inputs.pipelineTargets module
  | .lifetimeArenaAuto => inputs.ownerFunctions module
  | _ => []

/-! ## Runs -/

structure State (Body Time : Type) where
  module : PassModule Body
  baselineCache : AList fun _ : Name => Time
  calls : Nat

/-- The benchmarks of a step, and whether a variant wins. -/
def benchmarks (step : Step) (state : State Body Time) : Bench Body Time × Bool :=
  inputs.findBeneficial state.module (inputs.benchTargets step state.module)
    { cache := state.baselineCache, calls := state.calls, log := [] }

/-- Apply a pass and count what it has done. -/
def apply (pass : PassModule Body → PassModule Body × Nat) (passName : String)
    (module : PassModule Body) : PassModule Body :=
  let (module, count) := pass module
  module.markPassFired passName.toList count

/-- What a step makes of the module, where a benchmark may have favoured its pass. -/
def transform (step : Step) (beneficial : Bool) (module : PassModule Body) : PassModule Body :=
  match step with
  | .containment => apply inputs.containmentPass.run "ContainmentInterceptionPass" module
  | .pipelineCodeGen => apply inputs.pipelineCodeGenPass.run "PipelineCodeGenPass" module
  | .returnSpecialization =>
      apply inputs.returnSpecializationPass.run "ReturnSpecializationPass" module
  | .topoInline => apply inputs.topoInlinePass.run "TopoInlinePass" module
  | .prefetch => apply inputs.prefetchPass.run "PrefetchPass" module
  | .alwaysInliner => inputs.alwaysInliner.run module
  | .dataLayoutAuto => inputs.dataLayoutAuto module
  | .dataLayoutForce => apply inputs.dataLayoutForcePass.run "DataLayoutPass" module
  | .indirectionAuto =>
      if beneficial then apply inputs.indirectionPass.run "IndirectionPass" module else module
  | .indirection => apply inputs.indirectionPass.run "IndirectionPass" module
  | .indirectionDiagnose => module
  | .topoParallelAuto =>
      if beneficial then apply inputs.topoParallelPass.run "TopoParallelPass" module else module
  | .topoParallel => apply inputs.topoParallelPass.run "TopoParallelPass" module
  | .loopParallelize => apply inputs.loopParallelizePass.run "LoopParallelizePass" module
  | .adaptiveDispatch => apply inputs.adaptiveDispatchPass.run "AdaptiveDispatchPass" module
  | .observability => apply inputs.observabilityPass.run "ObservabilityPass" module
  | .lifetimeArenaAuto =>
      if beneficial then apply inputs.lifetimeArenaPass.run "LifetimeArenaPass" module else module
  | .lifetimeArena => apply inputs.lifetimeArenaPass.run "LifetimeArenaPass" module
  | .topoFlatten => apply inputs.topoFlatten "TopoFlattenPass" module
  | .stripNoInline => (inputs.stripNoInlinePass.run module).1
  | .topoReorder => apply inputs.topoReorderPass.run "TopoReorderPass" module
  | .standard => inputs.standardPipeline module
  | .topoLayout => apply inputs.topoLayoutPass.run "TopoLayoutPass" module

def exec (step : Step) (state : State Body Time) : State Body Time :=
  let (bench, beneficial) := inputs.benchmarks step state
  { module := inputs.transform step beneficial state.module
    baselineCache := bench.cache
    calls := bench.calls }

/-- The steps of a run, each with the state in which it starts. -/
def trace : List Step → State Body Time → List (Step × State Body Time)
  | [], _ => []
  | step :: steps, state => (step, state) :: trace steps (inputs.exec step state)

/-- The state after some steps. -/
def execs (steps : List Step) (state : State Body Time) : State Body Time :=
  steps.foldl (fun state step => inputs.exec step state) state

def start (module : PassModule Body) : State Body Time where
  module
  baselineCache := ∅
  calls := 0

/-- `PassPipeline::run`. -/
def run (module : PassModule Body) : List (Step × State Body Time) :=
  inputs.trace inputs.schedule (start module)

theorem trace_append (first second : List Step) (state : State Body Time) :
    inputs.trace (first ++ second) state =
      inputs.trace first state ++ inputs.trace second (inputs.execs first state) := by
  induction first generalizing state with
  | nil => rfl
  | cons step steps ih =>
      rw [List.cons_append, trace, trace, ih]
      rfl

end Inputs

/-! ## Passes that do nothing -/

def idlePass (hosts : List FunctionId) : BodyPass Nat hosts where
  run module := (module, 0)
  keeps _ _ _ := rfl

def idleEarlyPass (hosts : List FunctionId) : EarlyPass Nat hosts where
  run module := (module, 0)
  keeps _ _ _ there := there

def idleInliner : AlwaysInliner Nat := ⟨id, fun _ _ => false, nofun, fun _ _ => rfl⟩

/-- A module with one defined function. -/
def pipelineModule : PassModule Nat where
  functions :=
    [{ name := ['p'], linkage := .external, visibility := .default, id := 0, body := some 0 }]
  distinct := by decide
  fired := ∅

end PassPipeline
end Backend
end TopoLlvm
