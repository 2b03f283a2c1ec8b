import TopoLlvm.Backend.JitExports

/-!
# Linkage through a build

`optimize` writes linkages in several places: the visibility applier, the promotion of stages for
the engine, the generation of pipeline bodies, the swap of a pipeline for its layout variant, the
flatten pass and the exports to the engine.  The passes between these are parameters.
-/

namespace TopoLlvm
namespace Backend

inductive BuildMode where
  | dev
  | aggressive
  deriving DecidableEq

/-- A pass that makes none of these functions, and leaves the name and the linkage of those that
it keeps. -/
structure HostPass (hosts : List FunctionId) where
  run : IRModule → IRModule
  keeps : ∀ module, ∀ id ∈ hosts, ∀ func, (run module).find? id = some func →
    ∃ before, module.find? id = some before ∧ func.name = before.name ∧
      func.linkage = before.linkage ∧ (before.isDeclaration = true → func.isDeclaration = true)

/-- A build without obfuscation. -/
structure LinkageBuild where
  module : IRModule
  mapping : SymbolMapping
  entries : List VisibilityEntry
  actions : List VisibilityAction
  blocks : List LogicBlock
  embedIR : Bool
  /-- The optimization level is not `O0`. -/
  optimizes : Bool
  mode : BuildMode
  /-- The bodies of pipelines are generated. -/
  pipelineCodeGen : Bool
  /-- The blocks that have a pipeline analysis. -/
  analysed : LogicBlock → Bool
  /-- The functions that the body of a pipeline calls, and whether its generation goes through. -/
  pipelineBody : LogicBlock → List FunctionId × Bool
  /-- The clone of a pipeline is rewritten, and its layout wins the benchmark. -/
  soaWins : LogicBlock → Bool
  interception : HostPass (module.functions.map (·.id))
  inlining : HostPass (module.functions.map (·.id))
  instrumentation : HostPass (module.functions.map (·.id))
  standard : HostPass (module.functions.map (·.id))

/-- The names of the functions that mark the body of a pipeline as a stub. -/
def placeholders : List Name :=
  ["topo::detail::pipeline_placeholder", "topo::pipeline::placeholder"].map String.toList

variable (tools : Toolchain)

def isPipelineStub (module : IRModule) (func : IRFunction) : Bool :=
  func.callees.any fun callee =>
    match module.find? callee with
    | none => false
    | some called =>
        placeholders.any fun placeholder =>
          (Text.split placeholder (tools.demangle called.name)).isSome

/-- A new body for a function, which gets external linkage as its old body is deleted. -/
def IRModule.replaceBody (module : IRModule) (id : FunctionId) (callees : List FunctionId) :
    IRModule :=
  module.modify id (fun func => { func with linkage := .external, callees }) fun _ => rfl

namespace LinkageBuild

variable (build : LinkageBuild)

/-- The function of a pipeline, if it is defined. -/
def pipelineFunction (module : IRModule) (block : LogicBlock) : Option IRFunction :=
  if block.isPipeline && build.analysed block then
    match build.mapping.matched.lookup block.qualifiedName with
    | none => none
    | some id => (module.find? id).filter fun func => !func.isDeclaration
  else none

/-- The stub whose body is generated for a block. -/
def stubOf (module : IRModule) (block : LogicBlock) : Option IRFunction :=
  (build.pipelineFunction module block).filter (isPipelineStub tools module)

/-- `PipelineCodeGenPass::run`, which stops at a body that it cannot generate. -/
def generatePipelines (module : IRModule) : List LogicBlock → IRModule
  | [] => module
  | block :: blocks =>
      match build.stubOf tools module block with
      | none => generatePipelines module blocks
      | some stub =>
          let (callees, generated) := build.pipelineBody block
          let module := module.replaceBody stub.id callees
          if generated then generatePipelines module blocks else module

/-- The layout variants that win take the places of their pipelines; they are internal. -/
def swapLayouts (module : IRModule) : IRModule :=
  build.blocks.foldl (fun module block =>
    match (build.pipelineFunction module block).filter fun _ => build.soaWins block with
    | none => module
    | some func => module.setLinkage func.id .internal) module

/-- The visibilities whose functions may be removed if nothing calls them. -/
def eligible (visibility : Visibility) : Bool :=
  visibility = .isPrivate || (build.mode = .aggressive && visibility = .isProtected)

/-- The functions to demote, each with the last name that it has. -/
def candidates : AList fun _ : FunctionId => Name :=
  build.entries.foldl (fun candidates entry =>
    if build.eligible entry.visibility then
      match build.mapping.matched.lookup entry.qualifiedName with
      | some id => candidates.insert id entry.qualifiedName
      | none => candidates
    else candidates) ∅

/-- Demote a function that is still there. -/
def demote (result : IRModule × List Name) (candidate : Σ _ : FunctionId, Name) :
    IRModule × List Name :=
  match result.1.find? candidate.1 with
  | none => result
  | some func =>
      if func.linkage = .internal then result
      else (result.1.setLinkage candidate.1 .internal, result.2 ++ [candidate.2])

/-- `TopoFlattenPass::run`, with the names of the functions that it demotes. -/
def topoFlatten (module : IRModule) : IRModule × List Name :=
  build.candidates.entries.foldl demote (module, [])

/-- `PassPipeline::run`. -/
def passes (module : IRModule) : IRModule :=
  if build.optimizes then
    let module := build.interception.run module
    let module :=
      if build.pipelineCodeGen then build.generatePipelines tools module build.blocks else module
    let module := build.swapLayouts (build.inlining.run module)
    build.standard.run (build.topoFlatten (build.instrumentation.run module)).1
  else module

/-- The build that stages are promoted and exports collected for; it renames nothing. -/
def jitBuild : Build where
  module := build.module
  mapping := build.mapping
  entries := build.entries
  actions := build.actions
  blocks := build.blocks
  passes := build.passes tools
  obfMode := .normal
  obfSalt := []
  sipHash qualifiedName _ := qualifiedName

/-- The module after the visibility applier. -/
def visible : IRModule :=
  applyVisibility tools build.module build.mapping build.entries build.actions

/-- The module that the passes get. -/
def promoted : IRModule :=
  if build.embedIR then (build.jitBuild tools).promoteStages (build.visible tools)
  else build.visible tools

/-- `LLVMTransformBackend::optimize`. -/
def optimize : IRModule :=
  let optimized := build.passes tools (build.promoted tools)
  if build.embedIR then
    (((build.jitBuild tools).jitFuncPtrs tools optimized).foldl Build.exportFunction
      (optimized, [])).1
  else optimized

/-! ## Who writes the linkage of a function -/

/-- An action of an entry makes the function internal. -/
def Internalized (id : FunctionId) : Prop :=
  ∃ pair ∈ build.entries.zip build.actions,
    build.mapping.matched.lookup pair.1.qualifiedName = some id ∧ pair.2.internalLinkage = true

/-- The function is a stage that the engine has to find. -/
def Promoted (id : FunctionId) : Prop :=
  build.embedIR = true ∧ id ∈ funcsToKeepDecl build.blocks build.mapping

/-- Some block has the function as its stub, and the generation gets as far as that block. -/
def Reaches (module : IRModule) (id : FunctionId) : List LogicBlock → Prop
  | [] => False
  | block :: blocks =>
      match build.stubOf tools module block with
      | none => Reaches module id blocks
      | some stub =>
          stub.id = id ∨ (build.pipelineBody block).2 = true ∧
            Reaches (module.replaceBody stub.id (build.pipelineBody block).1) id blocks

/-- The body of the function is generated. -/
def Generated (id : FunctionId) : Prop :=
  build.optimizes = true ∧ build.pipelineCodeGen = true ∧
    build.Reaches tools (build.interception.run (build.promoted tools)) id build.blocks

/-- The layout variant of the pipeline takes its place. -/
def Swapped (id : FunctionId) : Prop :=
  build.optimizes = true ∧ ∃ block ∈ build.blocks, (block.isPipeline = true ∧
    build.analysed block = true) ∧ build.soaWins block = true ∧
      build.mapping.matched.lookup block.qualifiedName = some id

/-- Some entry lets the function be removed. -/
def Flattened (id : FunctionId) : Prop :=
  build.optimizes = true ∧ ∃ entry ∈ build.entries, build.eligible entry.visibility = true ∧
    build.mapping.matched.lookup entry.qualifiedName = some id

/-- The symbol of the function reads a name of a pipeline or of a stage. -/
def Exported (id : FunctionId) : Prop :=
  build.embedIR = true ∧ ∃ func, (build.visible tools).find? id = some func ∧
    ∃ qualified ∈ jitQualifiedNames build.blocks, Reads tools.toDemangler func.name qualified

/-- The function ends with external linkage. -/
def EndsExternal (host : IRFunction) : Prop :=
  build.Exported tools host.id ∨ ¬ build.Flattened host.id ∧ ¬ build.Swapped host.id ∧
    (build.Generated tools host.id ∨ build.Promoted host.id ∨
      ¬ build.Internalized host.id ∧ host.linkage = .external)

/-- The function ends with internal or private linkage. -/
def EndsLocal (host : IRFunction) : Prop :=
  ¬ build.Exported tools host.id ∧ (build.Flattened host.id ∨ build.Swapped host.id ∨
    ¬ build.Generated tools host.id ∧ ¬ build.Promoted host.id ∧
      (build.Internalized host.id ∨ host.linkage = .internal ∨ host.linkage = .isPrivate))

end LinkageBuild

/-! ## One step and a sequence of steps -/

/-- A function before and after a step that writes its linkage, if it is defined, where the
condition holds. -/
structure Relinked (condition : Prop) (linkage : Linkage) (before after : IRFunction) : Prop where
  isDeclaration : after.isDeclaration = before.isDeclaration
  written : before.isDeclaration = false → condition → after.linkage = linkage
  kept : ¬ condition → after.linkage = before.linkage

/-- Such a step that keeps the name. -/
structure Written (condition : Prop) (linkage : Linkage) (before after : IRFunction) : Prop
    extends Relinked condition linkage before after where
  name : after.name = before.name

variable {tools}

section

variable {first second : Prop} {linkage : Linkage} {func mid last : IRFunction}

theorem Relinked.refl (func : IRFunction) : Relinked False linkage func func :=
  ⟨rfl, fun _ => False.elim, fun _ => rfl⟩

theorem Relinked.trans (one : Relinked first linkage func mid)
    (two : Relinked second linkage mid last) : Relinked (first ∨ second) linkage func last where
  isDeclaration := two.isDeclaration.trans one.isDeclaration
  written defined either := by
    by_cases now : second
    · exact two.written (one.isDeclaration.trans defined) now
    · exact (two.kept now).trans (one.written defined (either.resolve_right now))
  kept neither :=
    (two.kept fun now => neither (.inr now)).trans (one.kept fun early => neither (.inl early))

theorem Written.refl (func : IRFunction) : Written False linkage func func :=
  ⟨Relinked.refl func, rfl⟩

theorem Written.trans (one : Written first linkage func mid)
    (two : Written second linkage mid last) : Written (first ∨ second) linkage func last :=
  ⟨one.toRelinked.trans two.toRelinked, two.name.trans one.name⟩

end

/-- Both modules have the function, changed as the relation says, or neither has it. -/
def Through (relation : IRFunction → IRFunction → Prop) (id : FunctionId)
    (before after : IRModule) : Prop :=
  Option.Rel relation (before.find? id) (after.find? id)

section

variable {relation : IRFunction → IRFunction → Prop} {id : FunctionId}
  {before mid after : IRModule}

theorem Through.back (through : Through relation id before after) {func : IRFunction}
    (found : after.find? id = some func) :
    ∃ old, before.find? id = some old ∧ relation old func := by
  unfold Through at through
  rw [found] at through
  cases there : before.find? id with
  | none =>
      rw [there] at through
      cases through
  | some old =>
      rw [there] at through
      cases through with
      | some related => exact ⟨old, rfl, related⟩

theorem through_of_map {change : IRFunction → IRFunction}
    (found : after.find? id = (before.find? id).map change)
    (related : ∀ func, before.find? id = some func → relation func (change func)) :
    Through relation id before after := by
  unfold Through
  rw [found]
  cases there : before.find? id with
  | none => exact .none
  | some func => exact .some (related func there)

theorem Through.refl (reflects : ∀ func, relation func func) (module : IRModule) :
    Through relation id module module :=
  through_of_map Option.map_id'.symm fun func _ => reflects func

theorem Through.trans {one two both : IRFunction → IRFunction → Prop}
    (compose : ∀ func mid last, one func mid → two mid last → both func last)
    (left : Through one id before mid) (right : Through two id mid after) :
    Through both id before after := by
  unfold Through at *
  generalize before.find? id = start at left ⊢
  generalize mid.find? id = between at left right
  generalize after.find? id = final at right ⊢
  cases left with
  | none =>
      cases right
      exact .none
  | some first =>
      cases right with
      | some second => exact .some (compose _ _ _ first second)

theorem Through.imp {one two : IRFunction → IRFunction → Prop}
    (weaker : ∀ func last, one func last → two func last) (through : Through one id before after) :
    Through two id before after := by
  unfold Through at *
  generalize before.find? id = start at through ⊢
  generalize after.find? id = final at through ⊢
  cases through with
  | none => exact .none
  | some related => exact .some (weaker _ _ related)

/-- A sequence of steps writes a linkage where one of the steps does. -/
theorem through_foldl {σ α : Type*} (view : σ → IRModule)
    (relation : Prop → IRFunction → IRFunction → Prop) (refl : ∀ func, relation False func func)
    (trans : ∀ first second func mid last, relation first func mid →
      relation second mid last → relation (first ∨ second) func last)
    {step : σ → α → σ} (writes : α → Prop) {id : FunctionId}
    (one : ∀ state item, Through (relation (writes item)) id (view state) (view (step state item)))
    (state : σ) (items : List α) :
    Through (relation (∃ item ∈ items, writes item)) id (view state)
      (view (items.foldl step state)) := by
  induction items using List.reverseRecOn with
  | nil => simpa using Through.refl refl (view state)
  | append_singleton items item ih =>
      rw [List.foldl_append, List.foldl_cons, List.foldl_nil]
      have both := Through.trans (trans _ _) ih (one _ item)
      convert both using 2
      simp only [List.mem_append, List.mem_singleton, or_and_right, exists_or, exists_eq_left]

end

/-! ## The steps of a build -/

section

variable {id : FunctionId} {module : IRModule}

/-- A step that writes no linkage, as the function is not there to be written. -/
theorem through_idle {condition : Prop} {linkage : Linkage}
    (idle : ∀ func, module.find? id = some func → func.isDeclaration = false → ¬ condition) :
    Through (Written condition linkage) id module module :=
  through_of_map Option.map_id'.symm fun func found =>
    ⟨⟨rfl, fun defined holds => absurd holds (idle func found defined), fun _ => rfl⟩, rfl⟩

theorem written_foldl {α : Type*} {linkage : Linkage} {step : IRModule → α → IRModule}
    (writes : α → Prop)
    (one : ∀ module item, Through (Written (writes item) linkage) id module (step module item))
    (module : IRModule) (items : List α) :
    Through (Written (∃ item ∈ items, writes item) linkage) id module (items.foldl step module) :=
  through_foldl (fun module => module) (fun condition => Written condition linkage)
    Written.refl (fun _ _ _ _ _ => Written.trans) writes one module items

/-- A change of one function. -/
theorem through_modify {relation : IRFunction → IRFunction → Prop}
    {change : IRFunction → IRFunction} (keeps : ∀ func, (change func).id = func.id)
    (module : IRModule) (id other : FunctionId)
    (here : ∀ func, other = id → relation func (change func))
    (elsewhere : ∀ func, other ≠ id → relation func func) :
    Through relation id module (module.modify other change keeps) := by
  refine through_of_map (module.find?_modify other id keeps) fun func there => ?_
  have same : func.id = id := (IRModule.find?_eq_some_iff.mp there).2
  split
  · exact here func (by simp_all)
  · exact elsewhere func (by rintro rfl; simp_all)

/-- A change of one function that writes its linkage and keeps its name. -/
theorem through_write {linkage : Linkage} {change : IRFunction → IRFunction}
    (keeps : ∀ func, (change func).id = func.id)
    (written : ∀ func, Written True linkage func (change func))
    (module : IRModule) (id other : FunctionId) :
    Through (Written (other = id) linkage) id module (module.modify other change keeps) := by
  refine through_modify keeps module id other (fun func here => ?_) fun func elsewhere => ?_
  · simpa [here] using written func
  · simpa [elsewhere] using Written.refl func

theorem through_setLinkage (module : IRModule) (id other : FunctionId) (linkage : Linkage) :
    Through (Written (other = id) linkage) id module (module.setLinkage other linkage) := by
  unfold IRModule.setLinkage
  refine through_write _ (fun func => ?_) module id other
  exact ⟨⟨rfl, fun _ _ => rfl, fun no => absurd trivial no⟩, rfl⟩

theorem through_replaceBody (module : IRModule) (id other : FunctionId)
    (callees : List FunctionId) :
    Through (Written (other = id) .external) id module (module.replaceBody other callees) := by
  unfold IRModule.replaceBody
  refine through_write _ (fun func => ?_) module id other
  exact ⟨⟨rfl, fun _ _ => rfl, fun no => absurd trivial no⟩, rfl⟩

/-- A new name leaves the linkage. -/
theorem through_setName (module : IRModule) (id other : FunctionId) (name : Name)
    (linkage : Linkage) :
    Through (Relinked False linkage) id module (module.setName tools other name) := by
  unfold IRModule.setName
  exact through_modify _ _ _ _ (fun _ _ => ⟨rfl, fun _ => False.elim, fun _ => rfl⟩)
    fun func _ => Relinked.refl func

theorem through_applyAction (module : IRModule) (id other : FunctionId)
    (action : VisibilityAction) :
    Through (Relinked (other = id ∧ action.internalLinkage = true) .internal) id module
      (applyAction tools module other action) := by
  have linked : Through (Relinked (other = id ∧ action.internalLinkage = true) .internal) id module
      (if action.internalLinkage then module.setLinkage other .internal else module) := by
    cases internal : action.internalLinkage with
    | false => simpa using Through.refl Relinked.refl module
    | true =>
        have set := through_setLinkage module id other .internal
        simpa using set.imp fun _ _ written => written.toRelinked
  unfold applyAction
  simp only
  split
  · split
    · refine Through.trans (fun func mid last one two => ?_) linked
        (through_setName _ _ _ _ .internal)
      simpa using Relinked.trans one two
    · exact linked
  · exact linked

end

namespace LinkageBuild

variable (build : LinkageBuild) {id : FunctionId}

theorem through_visible :
    Through (Relinked (build.Internalized id) .internal) id build.module (build.visible tools) := by
  refine through_foldl (fun module => module) (fun condition => Relinked condition .internal)
    Relinked.refl (fun _ _ _ _ _ => Relinked.trans) _ (fun module pair => ?_) build.module
    (build.entries.zip build.actions)
  obtain ⟨entry, action⟩ := pair
  cases matched : build.mapping.matched.lookup entry.qualifiedName with
  | none => simpa [matched] using Through.refl Relinked.refl module
  | some other => simpa [matched] using through_applyAction module id other action

theorem through_promoted :
    Through (Written (build.Promoted id) .external) id (build.visible tools)
      (build.promoted tools) := by
  unfold promoted Promoted
  split
  · rename_i embeds
    have all := written_foldl (· = id)
      (fun module other => through_setLinkage module id other .external) (build.visible tools)
      (funcsToKeepDecl build.blocks build.mapping)
    simpa [embeds, Build.promoteStages, jitBuild] using all
  · rename_i skips
    simpa [skips] using Through.refl Written.refl (build.visible tools)

theorem through_generatePipelines (module : IRModule) (blocks : List LogicBlock) :
    Through (Written (build.Reaches tools module id blocks) .external) id module
      (build.generatePipelines tools module blocks) := by
  induction blocks generalizing module with
  | nil => exact Through.refl Written.refl module
  | cons block blocks ih =>
      unfold generatePipelines Reaches
      cases found : build.stubOf tools module block with
      | none => exact ih module
      | some stub =>
          have replaced := through_replaceBody module id stub.id (build.pipelineBody block).1
          simp only
          split
          · rename_i generated
            refine Through.trans (fun func mid last one two => ?_) replaced (ih _)
            simpa [generated] using Written.trans one two
          · rename_i stops
            simpa [stops] using replaced

theorem pipelineFunction_eq_some {module : IRModule} {block : LogicBlock} {func : IRFunction} :
    build.pipelineFunction module block = some func ↔
      (block.isPipeline = true ∧ build.analysed block = true) ∧
        build.mapping.matched.lookup block.qualifiedName = some func.id ∧
          module.find? func.id = some func ∧ func.isDeclaration = false := by
  unfold pipelineFunction
  cases matched : build.mapping.matched.lookup block.qualifiedName with
  | none => simp
  | some id =>
      simp only [Bool.and_eq_true, Option.ite_none_right_eq_some, Option.filter_eq_some_iff,
        Option.some.injEq, Bool.not_eq_true']
      constructor
      · rintro ⟨pipeline, found, defined⟩
        obtain rfl : func.id = id := (IRModule.find?_eq_some_iff.mp found).2
        exact ⟨pipeline, rfl, found, defined⟩
      · rintro ⟨pipeline, rfl, found, defined⟩
        exact ⟨pipeline, found, defined⟩

theorem through_swapLayouts (module : IRModule) :
    Through (Written (∃ block ∈ build.blocks, (block.isPipeline = true ∧
      build.analysed block = true) ∧ build.soaWins block = true ∧
        build.mapping.matched.lookup block.qualifiedName = some id) .internal) id module
      (build.swapLayouts module) := by
  refine written_foldl _ (fun module block => ?_) module build.blocks
  cases swapped : (build.pipelineFunction module block).filter fun _ => build.soaWins block with
  | none =>
      refine through_idle fun func found defined => ?_
      rintro ⟨pipeline, wins, matched⟩
      obtain rfl : func.id = id := (IRModule.find?_eq_some_iff.mp found).2
      have there := build.pipelineFunction_eq_some.mpr ⟨pipeline, matched, found, defined⟩
      simp [there, wins] at swapped
  | some func =>
      obtain ⟨there, wins⟩ := Option.filter_eq_some_iff.mp swapped
      obtain ⟨pipeline, matched, -, -⟩ := build.pipelineFunction_eq_some.mp there
      simpa [pipeline, wins, matched] using through_setLinkage module id func.id .internal

theorem mem_candidates : id ∈ build.candidates ↔ ∃ entry ∈ build.entries,
    build.eligible entry.visibility = true ∧
      build.mapping.matched.lookup entry.qualifiedName = some id := by
  unfold candidates
  induction build.entries using List.reverseRecOn with
  | nil => simp
  | append_singleton entries entry ih =>
      rw [List.foldl_append, List.foldl_cons, List.foldl_nil]
      simp only [List.mem_append, List.mem_singleton, or_and_right, exists_or, exists_eq_left]
      rw [← ih]
      split
      · rename_i eligible
        cases matched : build.mapping.matched.lookup entry.qualifiedName with
        | none => simp
        | some other => simp [AList.mem_insert, eligible, or_comm, @eq_comm _ id]
      · rename_i kept
        simp [kept]

theorem through_demote (result : IRModule × List Name) (candidate : Σ _ : FunctionId, Name) :
    Through (Written (candidate.1 = id) .internal) id result.1 (demote result candidate).1 := by
  unfold demote
  cases found : result.1.find? candidate.1 with
  | none =>
      refine through_idle fun func there _ here => ?_
      simp [here, there] at found
  | some func =>
      simp only
      split
      · rename_i already
        refine through_of_map Option.map_id'.symm fun other there => ?_
        refine ⟨⟨rfl, fun _ here => ?_, fun _ => rfl⟩, rfl⟩
        obtain rfl : func = other := by simpa [here, there] using found.symm
        exact already
      · exact through_setLinkage result.1 id candidate.1 .internal

theorem through_topoFlatten (module : IRModule) :
    Through (Written (∃ entry ∈ build.entries, build.eligible entry.visibility = true ∧
      build.mapping.matched.lookup entry.qualifiedName = some id) .internal) id module
      (build.topoFlatten module).1 := by
  rw [← mem_candidates]
  have all := through_foldl Prod.fst (fun condition => Written condition .internal) Written.refl
    (fun _ _ _ _ _ => Written.trans) (·.1 = id) through_demote (module, [])
    build.candidates.entries
  simpa [topoFlatten, AList.mem_keys, AList.keys, List.mem_keys] using all

end LinkageBuild

/-! ## The linkage that remains -/

variable {id : FunctionId} {before after : IRModule} {func : IRFunction}

/-- A function that is defined after a step was there before it. -/
theorem Through.defined {condition : Prop} {linkage : Linkage}
    (through : Through (Written condition linkage) id before after)
    (found : after.find? id = some func) (defined : func.isDeclaration = false) :
    ∃ old, before.find? id = some old ∧ old.isDeclaration = false ∧ func.name = old.name ∧
      (condition → func.linkage = linkage) ∧ (¬ condition → func.linkage = old.linkage) := by
  obtain ⟨old, there, written⟩ := through.back found
  have defined' : old.isDeclaration = false := written.isDeclaration.symm.trans defined
  exact ⟨old, there, defined', written.name, written.written defined', written.kept⟩

theorem HostPass.defined {hosts : List FunctionId} (pass : HostPass hosts) (host : id ∈ hosts)
    (found : (pass.run before).find? id = some func) (defined : func.isDeclaration = false) :
    ∃ old, before.find? id = some old ∧ old.isDeclaration = false ∧ func.name = old.name ∧
      func.linkage = old.linkage := by
  obtain ⟨old, there, name, linkage, body⟩ := pass.keeps before id host func found
  refine ⟨old, there, ?_, name, linkage⟩
  by_contra declared
  simp [body (by simpa using declared)] at defined

namespace LinkageBuild

variable {build : LinkageBuild} {host : IRFunction}

/-- What the pass pipeline makes of the linkage of a function that it leaves defined. -/
theorem linkage_passes (member : host ∈ build.module.functions)
    (found : (build.passes tools (build.promoted tools)).find? host.id = some func)
    (defined : func.isDeclaration = false) :
    ∃ old, (build.promoted tools).find? host.id = some old ∧ old.isDeclaration = false ∧
      func.name = old.name ∧
      (build.Flattened host.id ∨ build.Swapped host.id → func.linkage = .internal) ∧
      (¬ (build.Flattened host.id ∨ build.Swapped host.id) →
        (build.Generated tools host.id → func.linkage = .external) ∧
        (¬ build.Generated tools host.id → func.linkage = old.linkage)) := by
  cases optimizes : build.optimizes with
  | false =>
      rw [passes, if_neg (by simp [optimizes])] at found
      exact ⟨func, found, defined, rfl, by simp [Flattened, Swapped, optimizes],
        by simp [Generated, optimizes]⟩
  | true =>
      have inHosts : host.id ∈ build.module.functions.map (·.id) := List.mem_map_of_mem member
      rw [passes, if_pos optimizes] at found
      simp only at found
      obtain ⟨flat, found, defined, flatName, flatLinkage⟩ :=
        build.standard.defined inHosts found defined
      obtain ⟨used, found, defined, usedName, flattened, notFlattened⟩ :=
        (build.through_topoFlatten _).defined found defined
      obtain ⟨swapped, found, defined, swappedName, swappedLinkage⟩ :=
        build.instrumentation.defined inHosts found defined
      obtain ⟨inlined, found, defined, inlinedName, wins, loses⟩ :=
        (build.through_swapLayouts _).defined found defined
      obtain ⟨bodied, found, defined, bodiedName, bodiedLinkage⟩ :=
        build.inlining.defined inHosts found defined
      have generation : Through (Written (build.Generated tools host.id) .external) host.id
          (build.interception.run (build.promoted tools))
          (if build.pipelineCodeGen then build.generatePipelines tools
            (build.interception.run (build.promoted tools)) build.blocks
          else build.interception.run (build.promoted tools)) := by
        unfold Generated
        split
        · rename_i generates
          simpa [optimizes, generates] using build.through_generatePipelines _ build.blocks
        · rename_i skips
          exact through_idle fun _ _ _ generated => skips generated.2.1
      obtain ⟨watched, found, defined, watchedName, generated, notGenerated⟩ :=
        generation.defined found defined
      obtain ⟨old, found, defined, oldName, oldLinkage⟩ :=
        build.interception.defined inHosts found defined
      have flattens : build.Flattened host.id ↔ _ := and_iff_right optimizes
      have swaps : build.Swapped host.id ↔ _ := and_iff_right optimizes
      refine ⟨old, found, defined, ?_, ?_, ?_⟩
      · rw [flatName, usedName, swappedName, inlinedName, bodiedName, watchedName, oldName]
      · rintro lowered
        rw [flatLinkage]
        by_cases flat : build.Flattened host.id
        · exact flattened (flattens.mp flat)
        · rw [notFlattened (mt flattens.mpr flat), swappedLinkage]
          exact wins (swaps.mp (lowered.resolve_left flat))
      · intro kept
        rw [not_or] at kept
        rw [flatLinkage, notFlattened (mt flattens.mpr kept.1), swappedLinkage,
          loses (mt swaps.mpr kept.2), bodiedLinkage]
        exact ⟨generated, fun no => (notGenerated no).trans oldLinkage⟩

/-- A function that the passes leave defined has the name that it had before them. -/
theorem exported_iff (member : host ∈ build.module.functions)
    (found : (build.passes tools (build.promoted tools)).find? host.id = some func)
    (defined : func.isDeclaration = false) :
    build.Exported tools host.id ↔ build.embedIR = true ∧
      ∃ qualified ∈ jitQualifiedNames build.blocks, Reads tools.toDemangler func.name qualified := by
  obtain ⟨promoted, found, defined, name, -⟩ := linkage_passes member found defined
  obtain ⟨visible, found, -, visibleName, -⟩ := build.through_promoted.defined found defined
  simp [Exported, found, name, visibleName]

theorem mem_exports (member : host ∈ build.module.functions)
    (found : (build.passes tools (build.promoted tools)).find? host.id = some func)
    (defined : func.isDeclaration = false) (embeds : build.embedIR = true) :
    ((build.jitBuild tools).jitFuncPtrs tools (build.passes tools (build.promoted tools))).any
      (·.2 = host.id) = true ↔ build.Exported tools host.id := by
  obtain ⟨inside, same⟩ := IRModule.find?_eq_some_iff.mp found
  rw [exported_iff member found defined, and_iff_right embeds, List.any_eq_true]
  constructor
  · rintro ⟨⟨name, id⟩, listed, here⟩
    obtain ⟨⟨other, there, rfl, rfl, -⟩, reads⟩ := mem_jitFuncPtrs.mp listed
    obtain rfl : other = func := List.inj_on_of_nodup_map (IRModule.distinct _) there inside
      ((of_decide_eq_true here).trans same.symm)
    exact reads
  · intro reads
    exact ⟨(func.name, host.id),
      mem_jitFuncPtrs.mpr ⟨⟨func, inside, same, rfl, defined⟩, reads⟩, by simp⟩

/-- The exports write the linkages of the exported functions. -/
theorem linkage_exports (member : host ∈ build.module.functions)
    (found : (build.optimize tools).find? host.id = some func)
    (defined : func.isDeclaration = false) :
    ∃ old, (build.passes tools (build.promoted tools)).find? host.id = some old ∧
      old.isDeclaration = false ∧ (build.Exported tools host.id → func.linkage = .external) ∧
      (¬ build.Exported tools host.id → func.linkage = old.linkage) := by
  unfold optimize at found
  simp only at found
  cases embeds : build.embedIR with
  | false =>
      rw [if_neg (by simp [embeds])] at found
      exact ⟨func, found, defined, by simp [Exported, embeds], fun _ => rfl⟩
  | true =>
      rw [if_pos embeds, find?_exports] at found
      obtain ⟨old, there, rfl⟩ := Option.map_eq_some_iff.mp found
      have defined' : old.isDeclaration = false := by
        unfold exportedAs at defined
        split at defined <;> exact defined
      have exported := mem_exports member there defined' embeds
      refine ⟨old, there, defined', fun reads => ?_, fun unread => ?_⟩
      · simp [exportedAs, exported.mpr reads, defined']
      · have absent := mt exported.mp unread
        simp only [Bool.not_eq_true] at absent
        simp [exportedAs, absent]

/-- The linkage that a build leaves a function of its module that it leaves defined. -/
theorem linkage_optimize (member : host ∈ build.module.functions)
    (found : (build.optimize tools).find? host.id = some func)
    (defined : func.isDeclaration = false) :
    (func.linkage = .external ↔ build.EndsExternal tools host) ∧
      (func.linkage = .internal ∨ func.linkage = .isPrivate ↔ build.EndsLocal tools host) := by
  obtain ⟨optimized, found, defined, exported, notExported⟩ :=
    linkage_exports member found defined
  obtain ⟨promoted, found, defined, -, lowered, notLowered⟩ := linkage_passes member found defined
  obtain ⟨visible, found, defined, -, promotes, notPromoted⟩ :=
    build.through_promoted.defined found defined
  obtain ⟨old, there, visibility⟩ := build.through_visible.back found
  obtain rfl : host = old := by
    have here : build.module.find? host.id = some host :=
      IRModule.find?_eq_some_iff.mpr ⟨member, rfl⟩
    exact Option.some.inj (here.symm.trans there)
  have internalized := visibility.written (visibility.isDeclaration.symm.trans defined)
  have notInternalized := visibility.kept
  unfold EndsExternal EndsLocal
  by_cases exports : build.Exported tools host.id
  · simp [exports, exported exports]
  rw [notExported exports]
  by_cases lowers : build.Flattened host.id ∨ build.Swapped host.id
  · rw [lowered lowers]
    rcases lowers with lowers | lowers <;> simp [exports, lowers]
  obtain ⟨generates, notGenerated⟩ := notLowered lowers
  rw [not_or] at lowers
  by_cases generation : build.Generated tools host.id
  · simp [exports, lowers, generation, generates generation]
  rw [notGenerated generation]
  by_cases promotion : build.Promoted host.id
  · simp [exports, lowers, generation, promotion, promotes promotion]
  rw [notPromoted promotion]
  by_cases internal : build.Internalized host.id
  · simp [exports, lowers, generation, promotion, internal, internalized internal]
  · simp [exports, lowers, generation, promotion, internal, notInternalized internal]

end LinkageBuild

end Backend
end TopoLlvm
