import TopoLlvm.Backend.PassPipeline

/-!
# The mapping through a run

All passes read the mapping that was made before the first of them.  Its function objects have to
stay in the module, and to be seen by other modules as they were, while the always-inliner erases
functions, layout variants take the places of pipelines, and private functions are demoted.
-/

namespace TopoLlvm
namespace Backend

namespace PassModule

variable {Body : Type} (module : PassModule Body) (id other : FunctionId)

@[simp]
theorem signature?_markPassFired (passName : Name) (count : Nat) :
    (module.markPassFired passName count).signature? id = module.signature? id := by
  unfold markPassFired
  split <;> rfl

theorem id_of_find? {func : PassFunction Body} (found : module.find? id = some func) :
    func.id = id := by
  simpa using List.find?_some found

theorem signature?_resign (change : Signature → Signature) :
    (module.resign other change).signature? id =
      (module.signature? id).map fun signature =>
        if id = other then change signature else signature := by
  rw [resign, signature?, find?_mapFunctions, signature?, Option.map_map, Option.map_map]
  cases found : module.find? id with
  | none => rfl
  | some func =>
      have same := module.id_of_find? id found
      by_cases here : id = other <;> simp [same, here]

theorem signature?_eraseFromParent :
    (module.eraseFromParent other).signature? id =
      if id = other then none else module.signature? id := by
  simp only [signature?, find?, eraseFromParent, List.find?_filter]
  by_cases here : id = other
  · subst here
    simp
  · rw [if_neg here]
    congr 2
    funext func
    by_cases same : func.id = id <;> simp [same, here]

theorem signature?_insert {func : PassFunction Body}
    (fresh : func.id ∉ module.functions.map (·.id)) (different : id ≠ func.id) :
    (module.insert func fresh).signature? id = module.signature? id := by
  simp only [signature?, find?, insert, List.find?_append, List.find?_singleton,
    decide_eq_true_eq, if_neg (Ne.symm different), Option.or_none]

end PassModule

namespace PassPipeline

variable {Body Time : Type}

/-- What the demotion makes of a signature that is not internal yet. -/
def flattened (signature : Signature) : Signature :=
  if signature.linkage = .internal then signature else signature.demoted

theorem flattened_flattened (signature : Signature) :
    flattened (flattened signature) = flattened signature := by
  unfold flattened
  split
  · rfl
  · exact if_pos rfl

/-- The steps that come after the demotion of private functions. -/
def Step.afterFlatten : Step → Bool
  | .stripNoInline | .topoReorder | .standard | .topoLayout => true
  | _ => false

namespace Inputs

variable (inputs : Inputs Body Time)

/-- What a function of the mapping has to look like at the start of a step: as before, or demoted
after the demotion. -/
def expected (step : Step) (id : FunctionId) (signature : Signature) : Signature :=
  if step.afterFlatten = true ∧ id ∈ inputs.candidates then flattened signature else signature

/-- The steps from the always-inliner on. -/
def fromInliner (module : PassModule Body) : List (Step × State Body Time) :=
  (inputs.run module).dropWhile fun entry => entry.1 ≠ .alwaysInliner

/-- At the start of every step after the always-inliner the module has each function of the mapping,
with the name, the linkage and the visibility that it had at the start of the always-inliner; the
demotion of private functions may have made it internal. -/
def MappingStays (module : PassModule Body) : Prop :=
  ∀ inliner after, inputs.fromInliner module = inliner :: after →
    ∀ entry ∈ after, ∀ id ∈ inputs.hosts, ∃ signature,
      inliner.2.module.signature? id = some signature ∧
        entry.2.module.signature? id = some (inputs.expected entry.1 id signature)

/-- A step does no harm to the mapping: the inliner finds none of its functions dead, no layout
variant wins its benchmark, and the standard pipeline keeps its functions. -/
def Harmless (step : Step) (module : PassModule Body) : Prop :=
  match step with
  | .alwaysInliner => ∀ id ∈ inputs.hosts, inputs.alwaysInliner.dead module id = false
  | .dataLayoutAuto =>
      ∀ variant ∈ (inputs.generateVariants module).2, inputs.soaWins variant.block = false
  | .standard => .alwaysInliner ∈ inputs.schedule → ∀ id ∈ inputs.hosts,
      (inputs.standardPipeline module).signature? id = module.signature? id
  | _ => True

/-! ## The layout of data -/

variable {inputs}

theorem mem_hosts_of_target? {block : LogicBlock} {id : FunctionId}
    (found : inputs.target? block = some id) : id ∈ inputs.hosts := by
  obtain ⟨mapping, given, lookup⟩ := Option.bind_eq_some_iff.mp found
  rw [Config.hosts, given]
  exact List.mem_map.mpr ⟨_, AList.mem_lookup_iff.mp lookup, rfl⟩

theorem mem_hosts_of_pipeline? {module : PassModule Body} {block : LogicBlock}
    {func : PassFunction Body} {body : Body}
    (found : inputs.pipeline? module block = some (func, body)) : func.id ∈ inputs.hosts := by
  unfold pipeline? at found
  split at found
  · obtain ⟨id, target, found⟩ := Option.bind_eq_some_iff.mp found
    obtain ⟨first, there, found⟩ := Option.bind_eq_some_iff.mp found
    obtain ⟨text, defined, same⟩ := Option.bind_eq_some_iff.mp found
    cases same
    rw [module.id_of_find? id there]
    exact mem_hosts_of_target? target
  · cases found

/-- The clones of pipelines are new functions. -/
structure Cloned (inputs : Inputs Body Time) (module : PassModule Body)
    (result : PassModule Body × List LayoutVariantPair) : Prop where
  kept : ∀ id ∈ inputs.hosts, result.1.signature? id = module.signature? id
  aosFn : ∀ variant ∈ result.2, variant.aosFn ∈ inputs.hosts
  soaFn : ∀ variant ∈ result.2, variant.soaFn ∉ inputs.hosts

theorem freshId_not_mem_hosts (module : PassModule Body) : inputs.freshId module ∉ inputs.hosts :=
  fun member => (inputs.lt_freshId module (List.mem_append_right _ member)).false

theorem Cloned.addVariant {module : PassModule Body}
    {result : PassModule Body × List LayoutVariantPair} (cloned : inputs.Cloned module result)
    (block : LogicBlock) : inputs.Cloned module (inputs.addVariant result block) := by
  unfold Inputs.addVariant
  split
  · exact cloned
  · rename_i func body found
    dsimp only
    split
    · refine ⟨fun id member => ?_, fun variant member => ?_, fun variant member => ?_⟩
      · have different : id ≠ inputs.freshId result.1 := by
          rintro rfl
          exact freshId_not_mem_hosts result.1 member
        rw [PassModule.signature?_insert _ _ _ different]
        exact cloned.kept id member
      · rcases List.mem_append.mp member with old | new
        · exact cloned.aosFn variant old
        · rw [List.mem_singleton.mp new]
          exact mem_hosts_of_pipeline? found
      · rcases List.mem_append.mp member with old | new
        · exact cloned.soaFn variant old
        · rw [List.mem_singleton.mp new]
          exact freshId_not_mem_hosts result.1
    · exact cloned

theorem cloned_generateVariants (module : PassModule Body) :
    inputs.Cloned module (inputs.generateVariants module) :=
  List.foldlRecOn (motive := fun result => inputs.Cloned module result) _ _
    ⟨fun _ _ => rfl, nofun, nofun⟩ fun _ cloned block _ => cloned.addVariant block

/-- The pipeline of a winning variant is erased, and nothing else of the mapping changes. -/
theorem signature?_chooseLayout {module : PassModule Body} {variant : LayoutVariantPair}
    (new : variant.soaFn ∉ inputs.hosts) {id : FunctionId} (member : id ∈ inputs.hosts) :
    (inputs.chooseLayout module variant).signature? id =
      if inputs.soaWins variant.block = true ∧ variant.aosFn = id then none
      else module.signature? id := by
  have different : id ≠ variant.soaFn := by
    rintro rfl
    exact new member
  unfold chooseLayout
  by_cases wins : inputs.soaWins variant.block = true
  · rw [if_pos wins]
    unfold replaceBySoA
    split
    · rename_i absent
      split
      · rename_i erased
        rw [← erased.2, absent]
      · rfl
    · rw [PassModule.signature?_eraseFromParent, PassModule.signature?_resign,
        signature?_replaceAllUsesWith]
      by_cases here : id = variant.aosFn
      · simp [wins, here]
      · simp [here, different, Ne.symm here]
  · rw [if_neg wins, PassModule.signature?_eraseFromParent, if_neg different]
    simp [wins]

theorem signature?_chooseLayouts {variants : List LayoutVariantPair}
    (new : ∀ variant ∈ variants, variant.soaFn ∉ inputs.hosts) (module : PassModule Body)
    {id : FunctionId} (member : id ∈ inputs.hosts) :
    (variants.foldl inputs.chooseLayout module).signature? id =
      if ∃ variant ∈ variants, inputs.soaWins variant.block = true ∧ variant.aosFn = id then none
      else module.signature? id := by
  induction variants generalizing module with
  | nil => simp
  | cons variant variants ih =>
      rw [List.foldl_cons, ih fun other there => new other (List.mem_cons_of_mem _ there),
        signature?_chooseLayout (new variant List.mem_cons_self) member]
      by_cases here : inputs.soaWins variant.block = true ∧ variant.aosFn = id <;> simp [here]

/-- The layout step erases the pipelines of winning variants. -/
theorem signature?_dataLayoutAuto (module : PassModule Body) {id : FunctionId}
    (member : id ∈ inputs.hosts) :
    (inputs.dataLayoutAuto module).signature? id =
      if ∃ variant ∈ (inputs.generateVariants module).2,
        inputs.soaWins variant.block = true ∧ variant.aosFn = id then none
      else module.signature? id := by
  have cloned := @cloned_generateVariants _ _ inputs module
  rw [dataLayoutAuto, PassModule.signature?_markPassFired,
    signature?_chooseLayouts cloned.soaFn _ member, cloned.kept id member]

theorem harmless_dataLayoutAuto_iff (module : PassModule Body) :
    inputs.Harmless .dataLayoutAuto module ↔ ∀ id ∈ inputs.hosts, ¬ ∃ variant ∈
      (inputs.generateVariants module).2, inputs.soaWins variant.block = true ∧
        variant.aosFn = id := by
  have cloned := @cloned_generateVariants _ _ inputs module
  constructor
  · rintro harmless id - ⟨variant, member, wins, -⟩
    rw [harmless variant member] at wins
    cases wins
  · intro none variant member
    rw [Bool.eq_false_iff]
    exact fun wins => none _ (cloned.aosFn variant member) ⟨variant, member, wins, rfl⟩

/-! ## The other steps -/

theorem signature?_demote (result : PassModule Body × Nat) (id other : FunctionId) :
    (demote result other).1.signature? id = (result.1.signature? id).map fun signature =>
      if id = other then flattened signature else signature := by
  unfold demote
  by_cases here : id = other
  · subst here
    cases found : result.1.signature? id with
    | none => simp [found]
    | some signature =>
        by_cases already : signature.linkage = .internal <;>
          simp [already, flattened, found, PassModule.signature?_resign]
  · split
    · simp [here]
    · split <;> simp [here, PassModule.signature?_resign]

theorem signature?_demotes (ids : List FunctionId) (result : PassModule Body × Nat)
    (id : FunctionId) : (ids.foldl demote result).1.signature? id =
      (result.1.signature? id).map fun signature =>
        if id ∈ ids then flattened signature else signature := by
  induction ids generalizing result with
  | nil => simp
  | cons other ids ih =>
      rw [List.foldl_cons, ih, signature?_demote, Option.map_map]
      congr 1
      funext signature
      by_cases here : id = other <;> by_cases later : id ∈ ids <;>
        simp [here, later, flattened_flattened]

theorem signature?_apply (pass : PassModule Body → PassModule Body × Nat) (passName : String)
    (module : PassModule Body) (id : FunctionId) :
    (apply pass passName module).signature? id = (pass module).1.signature? id :=
  PassModule.signature?_markPassFired _ _ _ _

theorem signature?_topoFlatten (beneficial : Bool) (module : PassModule Body) (id : FunctionId) :
    (inputs.transform .topoFlatten beneficial module).signature? id =
      (module.signature? id).map fun signature =>
        if id ∈ inputs.candidates then flattened signature else signature := by
  rw [transform, signature?_apply]
  exact signature?_demotes inputs.candidates (module, 0) id

/-- The steps before the always-inliner, which may write linkages. -/
def isEarly : Step → Bool
  | .containment | .pipelineCodeGen | .returnSpecialization | .topoInline | .prefetch => true
  | _ => false

theorem isSome_signature?_early {step : Step} (early : isEarly step = true) (beneficial : Bool)
    (module : PassModule Body) {id : FunctionId} (member : id ∈ inputs.hosts)
    (there : (module.signature? id).isSome) :
    ((inputs.transform step beneficial module).signature? id).isSome := by
  cases step <;> cases early <;> rw [transform, signature?_apply]
  · exact inputs.containmentPass.keeps module id member there
  · exact inputs.pipelineCodeGenPass.keeps module id member there
  · exact inputs.returnSpecializationPass.keeps module id member there
  · exact inputs.topoInlinePass.keeps module id member there
  · exact inputs.prefetchPass.keeps module id member there

/-- The steps that change bodies only, or what else is no signature. -/
def isLate : Step → Bool
  | .containment | .pipelineCodeGen | .returnSpecialization | .topoInline | .prefetch => false
  | .alwaysInliner | .topoFlatten => false
  | _ => true

theorem signature?_bodyPass (pass : BodyPass Body inputs.hosts) (passName : String)
    (module : PassModule Body) {id : FunctionId} (member : id ∈ inputs.hosts) :
    (apply pass.run passName module).signature? id = module.signature? id := by
  rw [signature?_apply]
  exact pass.keeps module id member

/-- A later step keeps the signatures if it is harmless. -/
theorem signature?_late {step : Step} (late : isLate step = true) (beneficial : Bool)
    {module : PassModule Body} (harmless : inputs.Harmless step module)
    (inlines : .alwaysInliner ∈ inputs.schedule) {id : FunctionId} (member : id ∈ inputs.hosts) :
    (inputs.transform step beneficial module).signature? id = module.signature? id := by
  have applied : ∀ (pass : BodyPass Body inputs.hosts) (passName : String),
      (apply pass.run passName module).signature? id = module.signature? id :=
    fun pass passName => signature?_bodyPass pass passName module member
  have chosen : ∀ (pass : BodyPass Body inputs.hosts) (passName : String),
      (if beneficial then apply pass.run passName module else module).signature? id =
        module.signature? id := by
    intro pass passName
    split
    · exact applied pass passName
    · rfl
  cases step with
  | dataLayoutAuto =>
      rw [transform, signature?_dataLayoutAuto module member,
        if_neg ((harmless_dataLayoutAuto_iff module).mp harmless id member)]
  | standard => exact harmless inlines id member
  | stripNoInline => exact inputs.stripNoInlinePass.keeps module id member
  | indirectionDiagnose => rfl
  | indirectionAuto => exact chosen _ _
  | topoParallelAuto => exact chosen _ _
  | lifetimeArenaAuto => exact chosen _ _
  | containment => cases late
  | pipelineCodeGen => cases late
  | returnSpecialization => cases late
  | topoInline => cases late
  | prefetch => cases late
  | alwaysInliner => cases late
  | topoFlatten => cases late
  | _ => exact applied _ _

/-! ## Runs -/

variable (inputs) in
/-- The mapping's functions have the same signatures in both modules. -/
def Same (before after : PassModule Body) : Prop :=
  ∀ id ∈ inputs.hosts, after.signature? id = before.signature? id

theorem Same.refl (module : PassModule Body) : inputs.Same module module := fun _ _ => rfl

theorem Same.trans {before mid after : PassModule Body} (first : inputs.Same before mid)
    (second : inputs.Same mid after) : inputs.Same before after :=
  fun id member => (second id member).trans (first id member)

theorem Same.symm {before after : PassModule Body} (same : inputs.Same before after) :
    inputs.Same after before := fun id member => (same id member).symm

variable (inputs) in
/-- The module has the functions of the mapping. -/
def Present (module : PassModule Body) : Prop :=
  ∀ id ∈ inputs.hosts, (module.signature? id).isSome

theorem Same.present {before after : PassModule Body} (same : inputs.Same before after)
    (present : inputs.Present before) : inputs.Present after := by
  intro id member
  rw [same id member]
  exact present id member

variable (inputs) in
/-- Some steps start and end with modules of which the same holds. -/
def Throughout (holds : PassModule Body → Prop) (steps : List Step) (state : State Body Time) :
    Prop :=
  (∀ entry ∈ inputs.trace steps state, holds entry.2.module) ∧
    holds (inputs.execs steps state).module

theorem Throughout.first {holds : PassModule Body → Prop} {steps : List Step}
    {state : State Body Time} (throughout : inputs.Throughout holds steps state) :
    holds state.module := by
  cases steps with
  | nil => exact throughout.2
  | cons step steps => exact throughout.1 (step, state) List.mem_cons_self

theorem throughout_cons {holds : PassModule Body → Prop} {step : Step} {steps : List Step}
    {state : State Body Time} : inputs.Throughout holds (step :: steps) state ↔
      holds state.module ∧ inputs.Throughout holds steps (inputs.exec step state) := by
  simp only [Throughout, trace, List.forall_mem_cons, and_assoc]
  rfl

theorem Throughout.imp {holds other : PassModule Body → Prop} {steps : List Step}
    {state : State Body Time} (weaker : ∀ module, holds module → other module)
    (throughout : inputs.Throughout holds steps state) : inputs.Throughout other steps state :=
  ⟨fun entry member => weaker _ (throughout.1 entry member), weaker _ throughout.2⟩

/-- A later step that keeps the signatures of functions that are there is harmless. -/
theorem harmless_of_same {step : Step} (late : isLate step = true) {beneficial : Bool}
    {module : PassModule Body} (present : inputs.Present module)
    (same : inputs.Same module (inputs.transform step beneficial module)) :
    inputs.Harmless step module := by
  cases step with
  | dataLayoutAuto =>
      rw [harmless_dataLayoutAuto_iff]
      intro id member wins
      have kept := same id member
      rw [transform, signature?_dataLayoutAuto module member, if_pos wins] at kept
      have there := present id member
      rw [← kept] at there
      cases there
  | standard => exact fun _ => same
  | alwaysInliner => cases late
  | _ => trivial

/-- **Run lemma.** Later steps are harmless exactly if they keep the signatures throughout. -/
theorem harmless_iff_throughout (inlines : .alwaysInliner ∈ inputs.schedule) {steps : List Step}
    (late : ∀ step ∈ steps, isLate step = true) {state : State Body Time}
    (present : inputs.Present state.module) :
    (∀ entry ∈ inputs.trace steps state, inputs.Harmless entry.1 entry.2.module) ↔
      inputs.Throughout (inputs.Same state.module) steps state := by
  induction steps generalizing state with
  | nil => simp [trace, Throughout, execs, Same.refl]
  | cons step steps ih =>
      have now := late step List.mem_cons_self
      have later := fun other member => late other (List.mem_cons_of_mem step member)
      rw [throughout_cons, trace, List.forall_mem_cons]
      constructor
      · rintro ⟨harmless, rest⟩
        have same : inputs.Same state.module (inputs.exec step state).module :=
          fun id member => signature?_late now _ harmless inlines member
        refine ⟨Same.refl _, ?_⟩
        exact ((ih later (same.present present)).mp rest).imp fun module => same.trans
      · rintro ⟨-, throughout⟩
        have same := throughout.first
        refine ⟨harmless_of_same now present same, (ih later (same.present present)).mpr ?_⟩
        exact throughout.imp fun module => same.symm.trans

end Inputs

/-- The schedule around the always-inliner. -/
theorem Config.schedule_eq {config : Config} (inlines : .alwaysInliner ∈ config.schedule) :
    config.schedule = config.early ++ .alwaysInliner ::
      ((config.dataLayout.steps .dataLayoutAuto .dataLayoutForce ++ config.middle) ++
        .topoFlatten :: ([.stripNoInline, .topoReorder, .standard] ++ [.topoLayout])) := by
  have absent : ∀ (enabled : Bool) (step : Step), step ≠ .alwaysInliner →
      .alwaysInliner ∉ when enabled step := by
    intro enabled step other
    cases enabled <;> simp [when, other.symm]
  unfold Config.schedule at inlines ⊢
  split at inlines
  · rename_i optimizes
    rw [if_pos optimizes]
    unfold Config.custom at inlines ⊢
    split at inlines
    · rename_i entries mapping symbols
      simp [mapping, symbols, when]
    · simp [absent] at inlines
    · simp [absent] at inlines
  · cases inlines

theorem Inputs.isLate_between (config : Config) : ∀ step ∈
    config.dataLayout.steps .dataLayoutAuto .dataLayoutForce ++ config.middle,
      Inputs.isLate step = true ∧ step.afterFlatten = false := by
  have steps : ∀ (mode : FeatureMode) (auto force : Step),
      (Inputs.isLate auto = true ∧ auto.afterFlatten = false) →
      (Inputs.isLate force = true ∧ force.afterFlatten = false) →
      ∀ step ∈ mode.steps auto force, Inputs.isLate step = true ∧ step.afterFlatten = false := by
    intro mode auto force one other step member
    cases mode <;> simp [FeatureMode.steps] at member <;> subst member <;> assumption
  have whens : ∀ (enabled : Bool) (only : Step),
      (Inputs.isLate only = true ∧ only.afterFlatten = false) →
      ∀ step ∈ when enabled only, Inputs.isLate step = true ∧ step.afterFlatten = false := by
    intro enabled only one step member
    cases enabled <;> simp [when] at member
    subst member
    exact one
  have indirection : ∀ step ∈ config.indirectionSteps,
      Inputs.isLate step = true ∧ step.afterFlatten = false := by
    unfold Config.indirectionSteps
    cases config.indirection with
    | off => exact whens _ _ ⟨rfl, rfl⟩
    | auto => simp [Inputs.isLate, Step.afterFlatten]
    | force => simp [Inputs.isLate, Step.afterFlatten]
  unfold Config.middle
  simp only [List.forall_mem_append]
  exact ⟨steps _ _ _ ⟨rfl, rfl⟩ ⟨rfl, rfl⟩, ⟨⟨⟨⟨indirection, steps _ _ _ ⟨rfl, rfl⟩ ⟨rfl, rfl⟩⟩,
    whens _ _ ⟨rfl, rfl⟩⟩, whens _ _ ⟨rfl, rfl⟩⟩, whens _ _ ⟨rfl, rfl⟩⟩,
    steps _ _ _ ⟨rfl, rfl⟩ ⟨rfl, rfl⟩⟩

/-- Layout variants are benchmarked in schedules with the always-inliner only. -/
theorem Config.inlines_of_dataLayoutAuto {config : Config}
    (benchmarked : .dataLayoutAuto ∈ config.schedule) : .alwaysInliner ∈ config.schedule := by
  have absent : ∀ (enabled : Bool) (step : Step), step ≠ .dataLayoutAuto →
      .dataLayoutAuto ∉ when enabled step := by
    intro enabled step other
    cases enabled <;> simp [when, other.symm]
  unfold Config.schedule at benchmarked ⊢
  split at benchmarked
  · rename_i optimizes
    rw [if_pos optimizes]
    unfold Config.custom at benchmarked ⊢
    split at benchmarked
    · simp
    · simp [absent] at benchmarked
    · simp [absent] at benchmarked
  · cases benchmarked

namespace Inputs

variable {inputs : Inputs Body Time}

theorem isEarly_early (config : Config) : ∀ step ∈ config.early, isEarly step = true := by
  have whens : ∀ (enabled : Bool) (only : Step), isEarly only = true →
      ∀ step ∈ when enabled only, isEarly step = true := by
    intro enabled only one step member
    cases enabled <;> simp [when] at member
    subst member
    exact one
  unfold Config.early
  simp only [List.forall_mem_append]
  exact ⟨⟨⟨whens _ _ rfl, whens _ _ rfl⟩, by simp [isEarly]⟩, whens _ _ rfl⟩

theorem present_early {steps : List Step} (early : ∀ step ∈ steps, isEarly step = true)
    {state : State Body Time} (present : inputs.Present state.module) :
    inputs.Present (inputs.execs steps state).module := by
  induction steps generalizing state with
  | nil => exact present
  | cons step steps ih =>
      refine ih (fun other member => early other (List.mem_cons_of_mem step member)) ?_
      exact fun id member => isSome_signature?_early (early step List.mem_cons_self) _ _ member
        (present id member)

theorem fst_mem_of_mem_trace {steps : List Step} {state : State Body Time}
    {entry : Step × State Body Time} (member : entry ∈ inputs.trace steps state) :
    entry.1 ∈ steps := by
  induction steps generalizing state with
  | nil => cases member
  | cons step steps ih =>
      rcases List.mem_cons.mp member with rfl | later
      · exact List.mem_cons_self
      · exact List.mem_cons_of_mem step (ih later)

/-- Early steps do no harm. -/
theorem harmless_of_isEarly {step : Step} (early : isEarly step = true)
    (module : PassModule Body) : inputs.Harmless step module := by
  cases step with
  | alwaysInliner => cases early
  | dataLayoutAuto => cases early
  | standard => cases early
  | _ => trivial

/-- The inliner is harmless exactly if it keeps the signatures. -/
theorem harmless_alwaysInliner_iff (beneficial : Bool) {module : PassModule Body}
    (present : inputs.Present module) : inputs.Harmless .alwaysInliner module ↔
      inputs.Same module (inputs.transform .alwaysInliner beneficial module) := by
  refine forall₂_congr fun id member => ?_
  have there := present id member
  rw [transform, inputs.alwaysInliner.erases]
  cases dead : inputs.alwaysInliner.dead module id with
  | false => simp
  | true =>
      cases found : module.signature? id with
      | none => simp [found] at there
      | some signature => simp

/-- What is expected of a module whose step is on one side of the demotion. -/
theorem shows_iff {before after : PassModule Body} (present : inputs.Present before) (step : Step) :
    (∀ id ∈ inputs.hosts, ∃ signature, before.signature? id = some signature ∧
      after.signature? id = some (inputs.expected step id signature)) ↔
    ∀ id ∈ inputs.hosts, after.signature? id =
      (before.signature? id).map (inputs.expected step id) := by
  refine forall₂_congr fun id member => ?_
  obtain ⟨signature, found⟩ := Option.isSome_iff_exists.mp (present id member)
  simp [found]

variable (inputs) in
/-- The signatures after the demotion. -/
def Demoted (before after : PassModule Body) : Prop :=
  ∀ id ∈ inputs.hosts, after.signature? id = (before.signature? id).map fun signature =>
    if id ∈ inputs.candidates then flattened signature else signature

theorem shows_of_not_afterFlatten {before after : PassModule Body}
    (present : inputs.Present before) {step : Step} (early : step.afterFlatten = false) :
    (∀ id ∈ inputs.hosts, ∃ signature, before.signature? id = some signature ∧
      after.signature? id = some (inputs.expected step id signature)) ↔
    inputs.Same before after := by
  rw [shows_iff present]
  refine forall₂_congr fun id member => ?_
  have same : inputs.expected step id = fun signature => signature := by
    funext signature
    simp [expected, early]
  rw [same, Option.map_id']

theorem shows_of_afterFlatten {before after : PassModule Body}
    (present : inputs.Present before) {step : Step} (late : step.afterFlatten = true) :
    (∀ id ∈ inputs.hosts, ∃ signature, before.signature? id = some signature ∧
      after.signature? id = some (inputs.expected step id signature)) ↔
    inputs.Demoted before after := by
  rw [shows_iff present]
  refine forall₂_congr fun id member => ?_
  have same : inputs.expected step id = fun signature =>
      if id ∈ inputs.candidates then flattened signature else signature := by
    funext signature
    simp [expected, late]
  rw [same]

/-- After the demotion the same is expected as of a module that the demotion made. -/
theorem demoted_iff {first before after : PassModule Body} (same : inputs.Same first before)
    (beneficial : Bool) : inputs.Demoted first after ↔
      inputs.Same (inputs.transform .topoFlatten beneficial before) after := by
  refine forall₂_congr fun id member => ?_
  rw [signature?_topoFlatten, same id member]

/-- A run whose schedule has the always-inliner, from there on. -/
theorem fromInliner_eq (inlines : .alwaysInliner ∈ inputs.schedule) (module : PassModule Body) :
    let between := inputs.dataLayout.steps .dataLayoutAuto .dataLayoutForce ++ inputs.middle
    let first := inputs.execs inputs.early (start module)
    let second := inputs.exec .alwaysInliner first
    let flatten := inputs.execs between second
    let tail := inputs.exec .topoFlatten flatten
    let last := inputs.execs [.stripNoInline, .topoReorder, .standard] tail
    inputs.run module = inputs.trace inputs.early (start module) ++ (.alwaysInliner, first) ::
        (inputs.trace between second ++ (.topoFlatten, flatten) ::
          (inputs.trace [.stripNoInline, .topoReorder, .standard] tail ++ [(.topoLayout, last)])) ∧
      inputs.fromInliner module = (.alwaysInliner, first) ::
        (inputs.trace between second ++ (.topoFlatten, flatten) ::
          (inputs.trace [.stripNoInline, .topoReorder, .standard] tail ++
            [(.topoLayout, last)])) := by
  intro between first second flatten tail last
  have whole : inputs.run module = inputs.trace inputs.early (start module) ++
      (.alwaysInliner, first) :: (inputs.trace between second ++ (.topoFlatten, flatten) ::
        (inputs.trace [.stripNoInline, .topoReorder, .standard] tail ++
          [(.topoLayout, last)])) := by
    rw [run, Config.schedule_eq inlines, trace_append, trace, trace_append, trace, trace_append]
    rfl
  refine ⟨whole, ?_⟩
  rw [fromInliner, whole, List.dropWhile_append_of_pos, List.dropWhile_cons_of_neg (by simp)]
  intro entry member
  have early := isEarly_early inputs.toConfig entry.1 (fst_mem_of_mem_trace member)
  rw [decide_eq_true_eq]
  intro same
  rw [same] at early
  cases early

/-- From the start of the inliner on, the signatures stay up to the demotion, and are the demoted
ones after it, exactly if no step does harm. -/
theorem throughout_iff_harmless (inlines : .alwaysInliner ∈ inputs.schedule)
    {between tail : List Step} (lateBetween : ∀ step ∈ between, isLate step = true)
    (lateTail : ∀ step ∈ tail, isLate step = true) {state second flatten : State Body Time}
    (present : inputs.Present state.module) (inlined : second = inputs.exec .alwaysInliner state)
    (flattens : flatten = inputs.execs between second) :
    inputs.Throughout (inputs.Same state.module) between second ∧
        inputs.Throughout (inputs.Demoted state.module) tail (inputs.exec .topoFlatten flatten) ↔
      inputs.Harmless .alwaysInliner state.module ∧
        (∀ entry ∈ inputs.trace between second, inputs.Harmless entry.1 entry.2.module) ∧
        ∀ entry ∈ inputs.trace tail (inputs.exec .topoFlatten flatten),
          inputs.Harmless entry.1 entry.2.module := by
  have inliner : inputs.Harmless .alwaysInliner state.module ↔
      inputs.Same state.module second.module := by
    rw [inlined]
    exact harmless_alwaysInliner_iff (inputs.benchmarks .alwaysInliner state).2 present
  rw [inliner]
  have demoted : inputs.Same state.module flatten.module → ∀ module,
      inputs.Demoted state.module module ↔
        inputs.Same (inputs.exec .topoFlatten flatten).module module :=
    fun same module => demoted_iff same (inputs.benchmarks .topoFlatten flatten).2
  have demotes : inputs.Same state.module flatten.module →
      inputs.Present (inputs.exec .topoFlatten flatten).module := by
    intro same id member
    have there := same.present present id member
    rw [exec]
    simpa [signature?_topoFlatten] using there
  constructor
  · rintro ⟨stays, after⟩
    have same := stays.first
    have reached := stays.2
    rw [← flattens] at reached
    refine ⟨same, (harmless_iff_throughout inlines lateBetween (same.present present)).mpr
      (stays.imp fun module => same.symm.trans), ?_⟩
    exact (harmless_iff_throughout inlines lateTail (demotes reached)).mpr
      (after.imp fun module => (demoted reached module).mp)
  · rintro ⟨same, harmlessBetween, harmlessTail⟩
    have stays := ((harmless_iff_throughout inlines lateBetween (same.present present)).mp
      harmlessBetween).imp fun module => same.trans
    have reached := stays.2
    rw [← flattens] at reached
    refine ⟨stays, ?_⟩
    exact ((harmless_iff_throughout inlines lateTail (demotes reached)).mp harmlessTail).imp
      fun module => (demoted reached module).mpr

/-- The mapping of a run with the always-inliner stays exactly if no step does harm. -/
theorem mappingStays_iff_of_inlines (inlines : .alwaysInliner ∈ inputs.schedule)
    {module : PassModule Body} (present : inputs.Present module) :
    inputs.MappingStays module ↔
      ∀ entry ∈ inputs.run module, inputs.Harmless entry.1 entry.2.module := by
  obtain ⟨whole, from_eq⟩ := fromInliner_eq inlines module
  have lateBetween := isLate_between inputs.toConfig
  have lateTail : ∀ step ∈ [Step.stripNoInline, .topoReorder, .standard],
      isLate step = true ∧ step.afterFlatten = true := by decide
  have early := isEarly_early inputs.toConfig
  have first : inputs.Present (inputs.execs inputs.early (start module)).module :=
    present_early early present
  have core := throughout_iff_harmless inlines (fun step member => (lateBetween step member).1)
    (fun step member => (lateTail step member).1) first rfl rfl
  have earlier : ∀ entry ∈ inputs.trace inputs.early (start module),
      inputs.Harmless entry.1 entry.2.module := fun entry member =>
    harmless_of_isEarly (early entry.1 (fst_mem_of_mem_trace member)) _
  refine Iff.trans ?_ (core.trans ?_)
  rotate_left
  · rw [whole]
    simp only [List.forall_mem_append, List.forall_mem_cons]
    exact ⟨fun all => ⟨earlier, all.1, all.2.1, trivial, all.2.2, trivial, nofun⟩,
      fun all => ⟨all.2.1, all.2.2.1, all.2.2.2.2.1⟩⟩
  rw [MappingStays, from_eq]
  constructor
  · intro stays
    have shows := stays _ _ rfl
    simp only [List.forall_mem_append, List.forall_mem_cons] at shows
    obtain ⟨between, flatten, tail, last, -⟩ := shows
    refine ⟨⟨fun entry member => ?_, ?_⟩, fun entry member => ?_, ?_⟩
    · exact (shows_of_not_afterFlatten first
        (lateBetween _ (fst_mem_of_mem_trace member)).2).mp (between entry member)
    · exact (shows_of_not_afterFlatten first rfl).mp flatten
    · exact (shows_of_afterFlatten first
        (lateTail _ (fst_mem_of_mem_trace member)).2).mp (tail entry member)
    · exact (shows_of_afterFlatten first rfl).mp last
  · rintro ⟨⟨between, flatten⟩, tail, last⟩ inliner after same
    rw [List.cons.injEq] at same
    obtain ⟨rfl, rfl⟩ := same
    simp only [List.forall_mem_append, List.forall_mem_cons]
    refine ⟨fun entry member => ?_, ?_, fun entry member => ?_, ?_, nofun⟩
    · exact (shows_of_not_afterFlatten first
        (lateBetween _ (fst_mem_of_mem_trace member)).2).mpr (between entry member)
    · exact (shows_of_not_afterFlatten first rfl).mpr flatten
    · exact (shows_of_afterFlatten first
        (lateTail _ (fst_mem_of_mem_trace member)).2).mpr (tail entry member)
    · exact (shows_of_afterFlatten first rfl).mpr last

/-- For a mapping of functions of the module: from the always-inliner on it designates functions of
the module, as they were, exactly if the inliner finds none of them dead, no layout variant wins,
and the standard pipeline keeps them. -/
theorem mapping_stays (inputs : Inputs Body Time) (module : PassModule Body)
    (present : inputs.Present module) :
    inputs.MappingStays module ↔
      ∀ entry ∈ inputs.run module, inputs.Harmless entry.1 entry.2.module := by
  by_cases inlines : .alwaysInliner ∈ inputs.schedule
  · exact mappingStays_iff_of_inlines inlines present
  · have absent : inputs.fromInliner module = [] := by
      rw [fromInliner, List.dropWhile_eq_nil_iff]
      intro entry member
      rw [decide_eq_true_eq]
      intro same
      exact inlines (same ▸ fst_mem_of_mem_trace member)
    refine iff_of_true (fun inliner after same => ?_) fun entry member => ?_
    · rw [absent] at same
      cases same
    · have scheduled := fst_mem_of_mem_trace member
      obtain ⟨step, state⟩ := entry
      cases step with
      | alwaysInliner => exact absurd scheduled inlines
      | dataLayoutAuto => exact absurd (Config.inlines_of_dataLayoutAuto scheduled) inlines
      | standard => exact fun there => absurd there inlines
      | _ => trivial

end Inputs

/-- One pipeline, with the layout of its data in auto mode. -/
def layoutAuto : Config where
  optimizes := true
  entries := some []
  mapping := some
    { matched := AList.singleton ['p'] 0, unmatchedTopo := [], unmatchedIR := [] }
  symbols := some [{ qualifiedName := ['p'], isPipeline := true, calledFunctions := [] }]
  mode := .dev
  containment := false
  pipelineCodeGen := false
  prefetch := false
  dataLayout := .auto
  indirection := .off
  indirectionExplicit := true
  topoParallel := .off
  loopParallelize := false
  adaptiveDispatch := false
  observability := false
  lifetime := .off

/-- The layout benchmark is won by the variant or not. -/
def layoutInputs (soaWins : Bool) : Inputs Nat Nat where
  toConfig := layoutAuto
  containmentPass := idleEarlyPass _
  pipelineCodeGenPass := idleEarlyPass _
  returnSpecializationPass := idleEarlyPass _
  topoInlinePass := idleEarlyPass _
  prefetchPass := idleEarlyPass _
  alwaysInliner := idleInliner
  dataLayoutForcePass := idlePass _
  indirectionPass := idlePass _
  topoParallelPass := idlePass _
  loopParallelizePass := idlePass _
  adaptiveDispatchPass := idlePass _
  observabilityPass := idlePass _
  lifetimeArenaPass := idlePass _
  stripNoInlinePass := idlePass _
  topoReorderPass := idlePass _
  standardPipeline := id
  topoLayoutPass := idlePass _
  analysed _ := true
  inlineRewrite _ _ body := (body + 1, 1)
  replaceUses _ _ body := body
  soaWins _ := soaWins
  ownerFunctions _ := []
  erasedName _ := []
  outcomes _ := { native := true, baseline := none, cloned := true, variant := none }
  positive _ := true
  beats _ _ := false

theorem present_pipelineModule (soaWins : Bool) :
    (layoutInputs soaWins).Present pipelineModule := by
  intro id member
  have hosts : (layoutInputs soaWins).hosts = [0] := rfl
  rw [hosts, List.mem_singleton] at member
  subst member
  rfl

theorem mapping_stays_layout : (layoutInputs false).MappingStays pipelineModule := by
  refine (Inputs.mapping_stays _ _ (present_pipelineModule false)).mpr fun entry _ => ?_
  obtain ⟨step, state⟩ := entry
  cases step with
  | alwaysInliner => exact fun _ _ => rfl
  | dataLayoutAuto => exact fun _ _ => rfl
  | standard => exact fun _ _ _ => rfl
  | _ => trivial

/-- After a layout variant has won, the mapping designates an erased function, and the function of
that name is internal. -/
theorem mapping_dangles : ¬ (layoutInputs true).MappingStays pipelineModule ∧
    ∃ entry ∈ (layoutInputs true).run pipelineModule, entry.1 = .topoFlatten ∧
      entry.2.module.functions.map (fun func => (func.name, func.linkage)) =
        [(['p'], .internal)] := by
  have there : ∃ inliner layout flatten rest,
      (layoutInputs true).fromInliner pipelineModule = inliner :: layout :: flatten :: rest ∧
        flatten.1 = .topoFlatten ∧ flatten ∈ (layoutInputs true).run pipelineModule ∧
        flatten.2.module.signature? 0 = none ∧
        flatten.2.module.functions.map (fun func => (func.name, func.linkage)) =
          [(['p'], .internal)] := by
    refine ⟨_, _, _, _, rfl, rfl, ?_, rfl, rfl⟩
    exact .tail _ (.tail _ (.tail _ (.tail _ (.head _))))
  obtain ⟨inliner, layout, flatten, rest, from_eq, isFlatten, member, erased, renamed⟩ := there
  refine ⟨fun stays => ?_, flatten, member, isFlatten, renamed⟩
  obtain ⟨signature, -, kept⟩ := stays inliner _ from_eq flatten (by simp) 0 (.head _)
  rw [erased] at kept
  cases kept

end PassPipeline
end Backend
end TopoLlvm
