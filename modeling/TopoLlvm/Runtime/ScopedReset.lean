import TopoLlvm.Runtime.Dispatch

/-!
# What the scoped reset of a pipeline leaves alone

When the monitor installs a variant it drops the samples of that pipeline on every registered
thread: of the pipeline's name, and of every name that begins with it and `::`.  A pipeline in a
namespace that is called like another pipeline has such a name too.
-/

namespace TopoLlvm
namespace Runtime

/-- A registered pipeline with its stages, as the cost tables know them. -/
structure MeasuredPipeline where
  pipelineName : Name
  stages : List Name

namespace MeasuredPipeline

/-- The `stagePrefix` of the scoped reset. -/
def stagePrefix (pipeline : MeasuredPipeline) : Name := pipeline.pipelineName ++ [':', ':']

/-- The keys of a pipeline's samples. -/
def costKeys (pipeline : MeasuredPipeline) : List Name :=
  pipeline.pipelineName :: pipeline.stages.map (pipeline.stagePrefix ++ ·)

/-- Neither the pipeline nor a stage of it is called like the other one or within it. -/
structure Outside (pipeline reset : MeasuredPipeline) : Prop where
  name : ¬ reset.stagePrefix <+: pipeline.pipelineName
  stage : ∀ stage ∈ pipeline.stages, pipeline.stagePrefix ++ stage ≠ reset.pipelineName ∧
    ¬ reset.stagePrefix <+: pipeline.stagePrefix ++ stage

end MeasuredPipeline

/-- The samples of a pipeline are gone on every registered thread, those of another one are not. -/
structure ResetConfined (reset other : MeasuredPipeline) (before after : Dispatch) : Prop where
  removed : ∀ thread ∈ before.registrations, ∀ key ∈ reset.costKeys,
    (after.costs thread).samples.lookup key = none
  kept : ∀ thread, ∀ key ∈ other.costKeys,
    (after.costs thread).samples.lookup key = (before.costs thread).samples.lookup key

theorem belongsTo_pipeline_iff {pipeline : MeasuredPipeline} {key : Name} :
    belongsTo pipeline.pipelineName key = true ↔
      key = pipeline.pipelineName ∨ pipeline.stagePrefix <+: key := by
  rw [belongsTo, Bool.or_eq_true, decide_eq_true_eq, stageOf]
  split <;> rename_i begins
  · simp [MeasuredPipeline.stagePrefix, List.isPrefixOf_iff_prefix.mp begins]
  · rw [List.isPrefixOf_iff_prefix] at begins
    simp [MeasuredPipeline.stagePrefix, begins]

theorem lookup_resetSamples (state : Dispatch) (thread : ThreadId) (name key : Name) :
    ((state.resetSamples name).costs thread).samples.lookup key =
      if thread ∈ state.registrations ∧ belongsTo name key = true then none
      else (state.costs thread).samples.lookup key := by
  simp only [Dispatch.resetSamples]
  by_cases registered : thread ∈ state.registrations
  · simp only [registered, if_true, lookup_resetCostSamples, true_and]
  · simp only [registered, if_false, false_and]

section Confined

variable {reset other : MeasuredPipeline}

/-- The samples of the pipeline itself are always dropped. -/
theorem removed_resetSamples (state : Dispatch) {thread : ThreadId}
    (registered : thread ∈ state.registrations) {key : Name} (own : key ∈ reset.costKeys) :
    ((state.resetSamples reset.pipelineName).costs thread).samples.lookup key = none := by
  have belongs : belongsTo reset.pipelineName key = true := by
    rw [belongsTo_pipeline_iff]
    rcases List.mem_cons.mp own with rfl | stage
    · exact .inl rfl
    · obtain ⟨stage, -, rfl⟩ := List.mem_map.mp stage
      exact .inr (List.prefix_append _ _)
  rw [lookup_resetSamples, if_pos ⟨registered, belongs⟩]

/-- A pipeline lies outside another one when none of its keys belongs to that one. -/
theorem outside_iff (distinct : other.pipelineName ≠ reset.pipelineName) :
    other.Outside reset ↔
      ∀ key ∈ other.costKeys, belongsTo reset.pipelineName key = false := by
  simp only [← Bool.not_eq_true, belongsTo_pipeline_iff, MeasuredPipeline.costKeys,
    List.forall_mem_cons, List.forall_mem_map, not_or]
  constructor
  · rintro ⟨name, stage⟩
    exact ⟨⟨distinct, name⟩, stage⟩
  · rintro ⟨⟨-, name⟩, stage⟩
    exact ⟨name, stage⟩

/-- Nothing of a pipeline that lies outside is dropped. -/
theorem MeasuredPipeline.Outside.resetSamples_confined (outside : other.Outside reset)
    (distinct : other.pipelineName ≠ reset.pipelineName) (state : Dispatch) :
    ResetConfined reset other state (state.resetSamples reset.pipelineName) := by
  refine ⟨?_, ?_⟩
  · intro thread registered key own
    exact removed_resetSamples state registered own
  · intro thread key own
    rw [lookup_resetSamples, if_neg]
    rintro ⟨-, belongs⟩
    rw [(outside_iff distinct).mp outside key own] at belongs
    cases belongs

/-- The monitor's step on the installed pipeline is such a reset. -/
theorem MeasuredPipeline.Outside.monitor_confined {D : Type} {doubles : Doubles D}
    {config : AdaptiveConfig D} {qualifiedName : SlotId → Name} {state next : Dispatch}
    (outside : other.Outside reset) (distinct : other.pipelineName ≠ reset.pipelineName)
    (step : state.step doubles config qualifiedName .reset = some next)
    (works : ∀ index entry, state.adaptive.monitor.resets = some index →
      state.adaptive.pipelines[index]? = some entry → entry.pipelineName = reset.pipelineName) :
    ResetConfined reset other state next := by
  obtain ⟨entry, found, step⟩ := Option.bind_eq_some_iff.mp step
  obtain ⟨index, resets, found⟩ := Option.bind_eq_some_iff.mp found
  obtain ⟨adapted, taken, rfl⟩ := Option.map_eq_some_iff.mp step
  obtain ⟨adaptive, -, rfl⟩ := Option.map_eq_some_iff.mp taken
  rw [works index entry resets found]
  obtain ⟨removed, kept⟩ := outside.resetSamples_confined distinct state
  exact ⟨removed, kept⟩

/-- A thread that has measured one name once. -/
def measuredOnce (key : Name) : Dispatch :=
  { Dispatch.boot true with
    costs := fun _ => { pending := [], samples := (∅ : SampleMap Execution).insert key .zero }
    registrations := [0] }

theorem lookup_measuredOnce (key : Name) (thread : ThreadId) :
    ((measuredOnce key).costs thread).samples.lookup key = some .zero :=
  AList.lookup_insert _

theorem registered_measuredOnce (key : Name) : 0 ∈ (measuredOnce key).registrations :=
  List.mem_cons_self ..

/-- The reset of a pipeline is confined to it, whatever the tables hold, exactly when the other
pipeline lies outside it. -/
theorem resetSamples_confined_iff (distinct : other.pipelineName ≠ reset.pipelineName) :
    (∀ state : Dispatch,
      ResetConfined reset other state (state.resetSamples reset.pipelineName)) ↔
      other.Outside reset := by
  constructor
  · rw [outside_iff distinct]
    intro confined key own
    by_contra belongs
    rw [Bool.not_eq_false] at belongs
    have kept := (confined (measuredOnce key)).kept 0 key own
    rw [lookup_resetSamples, if_pos ⟨registered_measuredOnce key, belongs⟩,
      lookup_measuredOnce] at kept
    cases kept
  · intro outside state
    exact outside.resetSamples_confined distinct state

end Confined

/-- `app::render` and `app::physics` are outside each other. -/
theorem reset_render_keeps_physics :
    ResetConfined ⟨"app::render".toList, ["draw".toList]⟩ ⟨"app::physics".toList, ["step".toList]⟩
      (measuredOnce "app::physics::step".toList)
      ((measuredOnce "app::physics::step".toList).resetSamples "app::render".toList) :=
  (resetSamples_confined_iff (by decide)).mpr ⟨by decide, by decide⟩ _

/-- The reset of the pipeline `app` drops the samples of the pipeline `app::render`. -/
theorem reset_app_drops_render :
    ∃ state : Dispatch, ¬ ResetConfined ⟨"app".toList, []⟩ ⟨"app::render".toList, []⟩
      state (state.resetSamples "app".toList) := by
  refine ⟨measuredOnce "app::render".toList, fun confined => ?_⟩
  have kept := confined.kept 0 _ (List.mem_cons_self ..)
  rw [lookup_measuredOnce, lookup_resetSamples,
    if_pos ⟨registered_measuredOnce _, by decide⟩] at kept
  cases kept

end Runtime
end TopoLlvm
