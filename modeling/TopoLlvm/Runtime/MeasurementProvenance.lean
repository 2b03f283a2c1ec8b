import TopoLlvm.Runtime.Dispatch
import TopoLlvm.Runtime.AdaptiveInvariant

/-!
# Who recorded the monitor's baselines

Only the ahead-of-time body is measured, so every average is an average of ahead-of-time
executions.  The baseline of a pipeline that warms up is then what it should be.  A pipeline under
verification is to be judged by executions through the installed pointer, of which there are no
measurements: what the monitor finds was recorded by a call that had loaded the slot before the
installation and returned after the reset.
-/

namespace TopoLlvm
namespace Runtime

/-- The monitor's pass is beyond the entry at an index. -/
def MonitorPosition.passed (index : Nat) : MonitorPosition → Bool
  | .waiting => true
  | .sampled _ => false
  | .visiting _ next => index < next
  | .resetting _ current => index ≤ current

namespace Adaptive

variable {D : Type} {doubles : Doubles D} {config : AdaptiveConfig D}

/-- An entry is under verification after a visit only if it was before or is installed now. -/
theorem visitEntry_verifying {entry : PipelineEntry} {costs : Costs} {poll : Poll} {ticket : Nat}
    (verifying : (visitEntry doubles config entry costs poll ticket).1.state = .verifying) :
    entry.state = .verifying ∨
      ∃ ptr, (visitEntry doubles config entry costs poll ticket).2 = .install ptr := by
  unfold visitEntry at verifying ⊢
  cases state : entry.state with
  | warmup =>
      simp only [state, visitWarmup] at verifying
      split at verifying
      · simp [state] at verifying
      · split at verifying <;> simp [state] at verifying
  | monitoring =>
      simp only [state, visitMonitoring] at verifying
      split at verifying
      · simp [state] at verifying
      · split at verifying <;> simp [state] at verifying
  | specializing =>
      refine .inr ?_
      simp only [state, visitSpecializing] at verifying ⊢
      split at verifying
      · simp [state] at verifying
      · simp [state] at verifying
      · simp at verifying
      · rename_i ptr _
        exact ⟨ptr, rfl⟩
  | verifying => exact .inl rfl
  | active =>
      simp only [state, visitActive] at verifying
      split at verifying
      · simp [state] at verifying
      · split at verifying
        · split at verifying <;> simp [state] at verifying
        · simp [state] at verifying

/-- An entry comes under verification only by the installation that the monitor performs. -/
theorem verifying_of_step {state after : Adaptive} {label : AdaptiveLabel}
    (step : state.step doubles config label = some after) {index : Nat} {later : PipelineEntry}
    (found : after.pipelines[index]? = some later) (verifying : later.state = .verifying) :
    (∃ entry, state.pipelines[index]? = some entry ∧ entry.state = .verifying ∧
      entry.pipelineName = later.pipelineName) ∨ after.monitor.resets = some index := by
  cases step_move step with
  | register =>
      by_cases old : index < state.pipelines.length
      · simp only [register, List.getElem?_append_left old] at found
        exact .inl ⟨later, found, verifying, rfl⟩
      · simp only [register, List.getElem?_append_right (Nat.le_of_not_lt old)] at found
        obtain rfl := List.mem_singleton.mp (List.mem_of_getElem? found)
        cases verifying
  | @visit costs position visited poll monitor there =>
      by_cases here : position = index
      · subst here
        have bound := (List.getElem?_eq_some_iff.mp there).1
        simp only [Adaptive.visit, List.getElem?_set_self bound, Option.some.injEq] at found
        subst found
        rcases visitEntry_verifying verifying with before | ⟨ptr, install⟩
        · exact .inl ⟨visited, there, before, (visitEntry_identity poll state.launched).2.symm⟩
        · exact .inr (by simp [Adaptive.visit, install, MonitorPosition.resets])
      · simp only [Adaptive.visit, List.getElem?_set_ne here] at found
        exact .inl ⟨later, found, verifying, rfl⟩
  | forceCommit =>
      simp only [commitSpecialization] at found
      rw [List.getElem?_set] at found
      split at found
      · split at found
        · cases found
          cases verifying
        · cases found
      · exact .inl ⟨later, found, verifying, rfl⟩
  | sample | lock | reset | unlock | forceStart | forceSkip =>
      exact .inl ⟨later, found, verifying, rfl⟩

/-- The monitor takes its snapshot before a pass, holding no lock. -/
theorem sampled_of_step {state after : Adaptive} {costs : Costs}
    (step : state.step doubles config (.sample costs) = some after) :
    state.monitor = .waiting ∧ after = { state with monitor := .sampled costs } := by
  cases step_move step with
  | sample waiting => exact ⟨waiting, rfl⟩

theorem resets_of_unlocked {position : MonitorPosition} (free : position.locked = false) :
    position.resets = none := by
  cases position with
  | waiting | sampled costs => rfl
  | visiting costs index | resetting costs index => cases free

theorem resets_of_not_passed {position : MonitorPosition} {index : Nat}
    (ahead : position.passed index = false) : position.resets ≠ some index := by
  cases position with
  | waiting | sampled costs | visiting costs next => exact nofun
  | resetting costs current =>
      rintro ⟨⟩
      simp [MonitorPosition.passed] at ahead

/-- Within a pass the monitor only moves on, with the snapshot it started from. -/
theorem monitor_of_step {state after : Adaptive} {label : AdaptiveLabel}
    (step : state.step doubles config label = some after)
    (unsampled : ∀ costs, label ≠ .sample costs) :
    (label ≠ .reset → state.monitor.resets = none) ∧
      (after.monitor.snapshot = state.monitor.snapshot ∨ after.monitor = .waiting) ∧
      ∀ index, after.monitor.passed index = false → state.monitor.passed index = false := by
  cases step_move step with
  | sample => exact absurd rfl (unsampled _)
  | lock sampled =>
      rw [sampled]
      exact ⟨fun _ => rfl, .inl rfl, fun index _ => rfl⟩
  | visit monitor =>
      rw [monitor]
      refine ⟨fun _ => rfl, .inl ?_, fun index ahead => ?_⟩
      · simp only [Adaptive.visit]
        split <;> rfl
      · simp only [Adaptive.visit] at ahead
        split at ahead <;>
          simp only [MonitorPosition.passed, decide_eq_false_iff_not] at ahead ⊢ <;> omega
  | reset resetting =>
      rw [resetting]
      refine ⟨fun other => absurd rfl other, .inl rfl, fun index ahead => ?_⟩
      simp only [MonitorPosition.passed, decide_eq_false_iff_not] at ahead ⊢
      omega
  | unlock visiting =>
      rw [visiting]
      refine ⟨fun _ => rfl, .inr rfl, fun index ahead => ?_⟩
      simp [MonitorPosition.passed] at ahead
  | register free | forceStart _ free | forceSkip free | forceCommit free =>
      exact ⟨fun _ => resets_of_unlocked free, .inl rfl, fun index ahead => ahead⟩

end Adaptive

namespace Dispatch

variable {D : Type} {doubles : Doubles D} {config : AdaptiveConfig D}
  {qualifiedName : SlotId → Name}

/-- What a step of the system does to its parts. -/
inductive Effect (doubles : Doubles D) (config : AdaptiveConfig D) (qualifiedName : SlotId → Name)
    (state : Dispatch) (label : DispatchLabel) : Dispatch → Prop
  /-- The monitor takes a snapshot. -/
  | sampled (next : Adaptive)
      (stepped : state.adaptive.step doubles config (.sample (getCostSamples state.maps)) =
        some next) :
      Effect doubles config qualifiedName state label
        { state with adaptive := next, origins := sampleOrigins state.maps }
  /-- The monitor resets the samples of the entry that it has installed. -/
  | reset (index : Nat) (entry : PipelineEntry) (next : Adaptive)
      (resets : state.adaptive.monitor.resets = some index)
      (found : state.adaptive.pipelines[index]? = some entry)
      (stepped : state.adaptive.step doubles config .reset = some next) :
      Effect doubles config qualifiedName state label
        ({ state with adaptive := next }.resetSamples entry.pipelineName)
  /-- Another step of the adaptive runtime. -/
  | adapted (action : AdaptiveLabel) (next : Adaptive) (uses : List BaselineUse)
      (stepped : state.adaptive.step doubles config action = some next)
      (unsampled : ∀ costs, action ≠ .sample costs) (unreset : action ≠ .reset)
      (used : uses = state.uses ∨ uses = state.uses ++ state.baselineUses) :
      Effect doubles config qualifiedName state label { state with adaptive := next, uses }
  /-- A step of a thread, which records at most one measurement. -/
  | threads (after : Dispatch) (adaptive : after.adaptive = state.adaptive)
      (origins : after.origins = state.origins) (uses : after.uses = state.uses)
      (registered : (∀ thread ∉ state.registrations, state.costs thread = .fresh) →
        ∀ thread ∉ after.registrations, after.costs thread = .fresh)
      (samples : ∀ thread name sample, (after.costs thread).samples.lookup name = some sample →
        (state.costs thread).samples.lookup name = some sample ∨
          ∃ func rest duration, label = .leave thread ∧
            state.calls thread = ⟨func, .aotBody⟩ :: rest ∧ name = qualifiedName func ∧
            (state.costs thread).records state.instrument name = true ∧
            sample = (((state.costs thread).samples.lookup name).getD .zero).record duration
              { func, variant := none }) :
      Effect doubles config qualifiedName state label after

/-- A step on which the cost data of every thread stays as it is. -/
theorem Effect.still {state after : Dispatch} {label : DispatchLabel}
    (adaptive : after.adaptive = state.adaptive) (origins : after.origins = state.origins)
    (uses : after.uses = state.uses) (costs : after.costs = state.costs)
    (grows : ∀ thread ∈ state.registrations, thread ∈ after.registrations) :
    Effect doubles config qualifiedName state label after := by
  refine .threads after adaptive origins uses ?_ ?_
  · intro fresh thread unregistered
    rw [costs]
    exact fresh thread fun old => unregistered (grows thread old)
  · intro thread name sample found
    exact .inl (costs ▸ found)

theorem mem_enrolled (state : Dispatch) {thread other : ThreadId} :
    other ∈ state.enrolled thread ↔ other = thread ∨ other ∈ state.registrations := by
  unfold enrolled
  split
  · rename_i old
    exact ⟨.inr, fun member => member.elim (fun same => same ▸ old) id⟩
  · rw [List.mem_append, List.mem_singleton]
    exact or_comm

/-- A step of the adaptive runtime that takes no snapshot and resets no samples. -/
theorem Effect.ofAdapt {state after : Dispatch} {label : DispatchLabel} {action : AdaptiveLabel}
    (step : state.adapt doubles config action = some after)
    (unsampled : ∀ costs, action ≠ .sample costs) (unreset : action ≠ .reset) :
    Effect doubles config qualifiedName state label after := by
  obtain ⟨next, stepped, rfl⟩ := Option.map_eq_some_iff.mp step
  exact .adapted action next state.uses stepped unsampled unreset (.inl rfl)

/-- Every step has one of these effects. -/
theorem effect_of_step {state after : Dispatch} {label : DispatchLabel}
    (step : state.step doubles config qualifiedName label = some after) :
    Effect doubles config qualifiedName state label after := by
  cases label with
  | register mangledName func aotTTICost => exact .ofAdapt step nofun nofun
  | lock => exact .ofAdapt step nofun nofun
  | unlock => exact .ofAdapt step nofun nofun
  | forceStart name input => exact .ofAdapt step nofun nofun
  | forceFinish call ptr => exact .ofAdapt step nofun nofun
  | sample =>
      obtain ⟨middle, taken, rfl⟩ := Option.map_eq_some_iff.mp step
      obtain ⟨next, stepped, rfl⟩ := Option.map_eq_some_iff.mp taken
      exact .sampled next stepped
  | visit poll =>
      obtain ⟨middle, taken, rfl⟩ := Option.map_eq_some_iff.mp step
      obtain ⟨next, stepped, rfl⟩ := Option.map_eq_some_iff.mp taken
      exact .adapted (.visit poll) next _ stepped nofun nofun (.inr rfl)
  | reset =>
      obtain ⟨entry, there, step⟩ := Option.bind_eq_some_iff.mp step
      obtain ⟨index, resets, found⟩ := Option.bind_eq_some_iff.mp there
      obtain ⟨middle, taken, rfl⟩ := Option.map_eq_some_iff.mp step
      obtain ⟨next, stepped, rfl⟩ := Option.map_eq_some_iff.mp taken
      exact .reset index entry next resets found stepped
  | configure instrument | tick ns =>
      cases step
      exact .still rfl rfl rfl rfl fun thread old => old
  | enrol thread =>
      cases step
      exact .still rfl rfl rfl rfl fun other old => state.mem_enrolled.mpr (.inr old)
  | exit thread =>
      simp only [Dispatch.step] at step
      split at step <;> cases step
      refine .threads _ rfl rfl rfl ?_ ?_
      · intro fresh other unregistered
        by_cases same : other = thread
        · rw [same]
          exact Function.update_self ..
        · refine (Function.update_of_ne same ..).trans (fresh other fun old => unregistered ?_)
          exact List.mem_filter.mpr ⟨old, by simpa using same⟩
      · intro other name sample found
        by_cases same : other = thread
        · subst same
          simp [ThreadCosts.fresh] at found
        · exact .inl (by simpa only [Function.update_of_ne same] using found)
  | call thread func =>
      simp only [Dispatch.step] at step
      split at step <;> cases step
      exact .still rfl rfl rfl rfl fun thread old => old
  | load thread | unwind thread =>
      simp only [Dispatch.step] at step
      split at step <;> cases step <;> exact .still rfl rfl rfl rfl fun thread old => old
  | costBegin thread =>
      simp only [Dispatch.step] at step
      split at step <;> cases step
      refine .threads _ rfl rfl rfl ?_ ?_
      · intro fresh other unregistered
        cases on : state.instrument with
        | false =>
            rw [on] at unregistered
            by_cases same : other = thread
            · subst same
              simpa [ThreadCosts.costBegin] using fresh other unregistered
            · simpa [same] using fresh other unregistered
        | true =>
            rw [on, if_pos rfl, mem_enrolled, not_or] at unregistered
            simpa [unregistered.1] using fresh other unregistered.2
      · intro other name sample found
        by_cases same : other = thread
        · subst same
          refine .inl ?_
          simp only [Function.update_self, ThreadCosts.costBegin] at found
          split at found <;> exact found
        · exact .inl (by simpa only [Function.update_of_ne same] using found)
  | leave thread =>
      simp only [Dispatch.step] at step
      split at step
      · rename_i func rest running
        cases step
        refine .threads _ rfl rfl rfl ?_ ?_
        · intro fresh other unregistered
          by_cases same : other = thread
          · subst same
            have idle := fresh other unregistered
            simp [idle, ThreadCosts.costEnd, ThreadCosts.fresh]
          · simpa [same] using fresh other unregistered
        · intro other name sample found
          by_cases same : other = thread
          · subst same
            simp only [Function.update_self] at found
            rcases ThreadCosts.costEnd_lookup found with old | ⟨rfl, records, duration, rfl⟩
            · exact .inl old
            · exact .inr ⟨func, rest, duration, rfl, running, rfl, records, rfl⟩
          · exact .inl (by simpa only [Function.update_of_ne same] using found)
      · cases step
        exact .still rfl rfl rfl rfl fun thread old => old
      · cases step

/-- An execution of the ahead-of-time body of a pipeline of the name. -/
def FromBody (qualifiedName : SlotId → Name) (name : Name) (execution : Execution) : Prop :=
  qualifiedName execution.func = name ∧ execution.variant = none

/-- Measurements come from ahead-of-time bodies, and so do the monitor's baselines. -/
structure Traced (qualifiedName : SlotId → Name) (state : Dispatch) : Prop where
  recorded : ∀ thread name sample, (state.costs thread).samples.lookup name = some sample →
    ∀ execution ∈ sample.origins, FromBody qualifiedName name execution
  origins : ∀ name, ∀ execution ∈ state.origins name, FromBody qualifiedName name execution
  backed : ∀ name ns, state.adaptive.monitor.snapshot.lookup name = some ns →
    state.origins name ≠ []
  used : ∀ use ∈ state.uses,
    (∀ execution ∈ use.origins, FromBody qualifiedName use.pipelineName execution) ∧
      (use.baseline = .jit → use.installed ≠ none ∧ use.origins ≠ [])

/-- What a use of an average says about the visited entry. -/
theorem mem_baselineUses {state : Dispatch} {use : BaselineUse}
    (member : use ∈ state.baselineUses) :
    ∃ costs index entry ns, state.adaptive.monitor = .visiting costs index ∧
      state.adaptive.pipelines[index]? = some entry ∧
      costs.lookup entry.pipelineName = some ns ∧ use.pipelineName = entry.pipelineName ∧
      use.installed = state.adaptive.slots entry.jitPtr ∧
      use.origins = state.origins entry.pipelineName ∧
      (use.baseline = .jit → entry.state = .verifying) := by
  unfold baselineUses at member
  split at member
  · rename_i costs index monitor
    split at member
    · cases member
    · rename_i entry found
      refine ⟨costs, index, entry, ?_⟩
      simp only at member
      split at member
      · rename_i ns _ known
        split at member
        · obtain rfl := List.mem_singleton.mp member
          exact ⟨ns, monitor, found, known, rfl, rfl, rfl, nofun⟩
        · cases member
      · rename_i ns verifying known
        obtain rfl := List.mem_singleton.mp member
        exact ⟨ns, monitor, found, known, rfl, rfl, rfl, fun _ => verifying⟩
      · cases member
  · cases member

/-- Every assignment of a baseline is a use of the average that it takes. -/
theorem baselines_of_visit {state : Dispatch} {costs : Costs} {index : Nat} {entry : PipelineEntry}
    (monitor : state.adaptive.monitor = .visiting costs index)
    (found : state.adaptive.pipelines[index]? = some entry) (poll : Poll) (ticket : Nat) :
    let visited := (visitEntry doubles config entry costs poll ticket).1
    (visited.aotBaselineNS ≠ entry.aotBaselineNS →
      ∃ use ∈ state.baselineUses, use.baseline = .aot ∧
        costs.lookup use.pipelineName = some visited.aotBaselineNS) ∧
      (visited.jitBaselineNS ≠ entry.jitBaselineNS →
        ∃ use ∈ state.baselineUses, use.baseline = .jit ∧
          costs.lookup use.pipelineName = some visited.jitBaselineNS) := by
  simp only [visitEntry, baselineUses, monitor, found]
  cases place : entry.state with
  | warmup =>
      simp only [visitWarmup]
      cases known : costs.lookup entry.pipelineName with
      | none => exact ⟨absurd rfl, absurd rfl⟩
      | some ns =>
          simp only
          split
          · refine ⟨fun _ => ⟨_, List.mem_singleton_self _, rfl, known⟩, absurd rfl⟩
          · exact ⟨absurd rfl, absurd rfl⟩
  | monitoring =>
      simp only [visitMonitoring]
      split
      · exact ⟨absurd rfl, absurd rfl⟩
      · split <;> exact ⟨absurd rfl, absurd rfl⟩
  | specializing =>
      simp only [visitSpecializing]
      split <;> exact ⟨absurd rfl, absurd rfl⟩
  | verifying =>
      simp only [visitVerifying]
      cases known : costs.lookup entry.pipelineName with
      | none => exact ⟨absurd rfl, absurd rfl⟩
      | some ns =>
          simp only
          split
          · exact ⟨absurd rfl, fun _ => ⟨_, List.mem_singleton_self _, rfl, known⟩⟩
          · split
            · split <;>
                exact ⟨absurd rfl, fun _ => ⟨_, List.mem_singleton_self _, rfl, known⟩⟩
            · exact ⟨absurd rfl, fun _ => ⟨_, List.mem_singleton_self _, rfl, known⟩⟩
  | active =>
      simp only [visitActive]
      split
      · exact ⟨absurd rfl, absurd rfl⟩
      · split
        · split <;> exact ⟨absurd rfl, absurd rfl⟩
        · exact ⟨absurd rfl, absurd rfl⟩

theorem traced_boot (instrument : Bool) : Traced qualifiedName (boot instrument) where
  recorded _ _ _ found := by simp [boot, ThreadCosts.fresh] at found
  origins _ _ member := nomatch member
  backed _ _ found := nomatch found
  used _ member := nomatch member

theorem Traced.step {state after : Dispatch} {label : DispatchLabel}
    (traced : Traced qualifiedName state) (sound : state.adaptive.Sound config)
    (step : state.step doubles config qualifiedName label = some after) :
    Traced qualifiedName after := by
  have effect := effect_of_step step
  cases effect with
  | sampled next stepped =>
      refine ⟨traced.recorded, fun name execution member => ?_, fun name ns found => ?_,
        traced.used⟩
      · obtain ⟨map, mapMember, sample, known, from_⟩ := mem_sampleOrigins member
        obtain ⟨thread, -, rfl⟩ := List.mem_map.mp mapMember
        exact traced.recorded thread name sample known execution from_
      · obtain ⟨-, rfl⟩ := Adaptive.sampled_of_step stepped
        exact sampleOrigins_ne_nil found
  | reset index entry next resets found stepped =>
      refine ⟨fun thread name sample known => ?_, traced.origins, fun name ns known => ?_,
        traced.used⟩
      · simp only [resetSamples] at known
        split at known
        · rw [lookup_resetCostSamples] at known
          split at known
          · cases known
          · exact traced.recorded thread name sample known
        · exact traced.recorded thread name sample known
      · obtain ⟨-, kept | gone, -⟩ := Adaptive.monitor_of_step stepped nofun
        · exact traced.backed name ns (kept ▸ known)
        · simp [resetSamples, gone, MonitorPosition.snapshot] at known
  | adapted action next uses stepped unsampled unreset used =>
      refine ⟨traced.recorded, traced.origins, fun name ns known => ?_, fun use member => ?_⟩
      · obtain ⟨-, kept | gone, -⟩ := Adaptive.monitor_of_step stepped unsampled
        · exact traced.backed name ns (kept ▸ known)
        · simp [gone, MonitorPosition.snapshot] at known
      · rcases used with rfl | rfl
        · exact traced.used use member
        · rcases List.mem_append.mp member with old | new
          · exact traced.used use old
          · obtain ⟨costs, index, entry, ns, monitor, found, known, name, installed, origins,
              verifying⟩ := mem_baselineUses new
            rw [name, origins]
            refine ⟨traced.origins entry.pipelineName, fun jit => ⟨?_, ?_⟩⟩
            · have live := (sound.entries entry (List.mem_of_getElem? found)).live
              rw [verifying jit] at live
              rw [installed]
              exact Option.isSome_iff_ne_none.mp live
            · apply traced.backed entry.pipelineName ns
              rw [monitor]
              exact known
  | threads after adaptive origins uses registered samples =>
      refine ⟨fun thread name sample known => ?_, ?_, ?_, ?_⟩
      · rcases samples thread name sample known with old | ⟨func, rest, duration, -, -, rfl, -, rfl⟩
        · exact traced.recorded thread name sample old
        · intro execution member
          rcases List.mem_cons.mp member with rfl | member
          · exact ⟨rfl, rfl⟩
          · cases before : (state.costs thread).samples.lookup (qualifiedName func) with
            | none =>
                rw [before] at member
                cases member
            | some sample =>
                rw [before] at member
                exact traced.recorded thread _ sample before execution member
      · rw [origins]
        exact traced.origins
      · rw [origins, adaptive]
        exact traced.backed
      · rw [uses]
        exact traced.used

/-- Baselines come from ahead-of-time bodies in every run. -/
theorem traced_of_reachable {guard : Dispatch → DispatchLabel → Prop} {state : Dispatch}
    (reach : (machine doubles config qualifiedName).Reachable guard state) :
    Traced qualifiedName state := by
  refine reach.invariant ?_ ?_
  · rintro _ ⟨instrument, rfl⟩
    exact traced_boot instrument
  · intro before label after reach traced _ step
    have sound := Adaptive.sound_of_reachable
      ((simulation doubles config qualifiedName).reachable reach)
    exact traced.step sound step

/-- An installed version of a pipeline of the name is being measured. -/
def underVerification (state : Dispatch) (name : Name) : Bool :=
  state.adaptive.pipelines.zipIdx.any fun (entry, index) =>
    entry.pipelineName = name && entry.state = .verifying &&
      state.adaptive.monitor.resets ≠ some index

/-- No ahead-of-time execution records its measurement while an installed version of the same
pipeline is being measured. -/
def measuresCleanly (qualifiedName : SlotId → Name) (state : Dispatch) : DispatchLabel → Bool
  | .leave thread =>
      match state.calls thread with
      | ⟨func, .aotBody⟩ :: _ =>
          !(state.costs thread).records state.instrument (qualifiedName func) ||
            !state.underVerification (qualifiedName func)
      | _ => true
  | _ => true

/-- Pipelines under verification have no measurements, and no average was a baseline of theirs. -/
structure Unmeasured (state : Dispatch) : Prop where
  registered : ∀ thread ∉ state.registrations, state.costs thread = .fresh
  samples : ∀ index entry, state.adaptive.pipelines[index]? = some entry →
    entry.state = .verifying → state.adaptive.monitor.resets ≠ some index →
      ∀ thread, (state.costs thread).samples.lookup entry.pipelineName = none
  snapshot : ∀ index entry, state.adaptive.pipelines[index]? = some entry →
    entry.state = .verifying → state.adaptive.monitor.passed index = false →
      state.adaptive.monitor.snapshot.lookup entry.pipelineName = none
  used : ∀ use ∈ state.uses, use.baseline = .aot

theorem unmeasured_boot (instrument : Bool) : Unmeasured (boot instrument) where
  registered _ _ := rfl
  samples _ _ found := by simp [boot, Adaptive.boot] at found
  snapshot _ _ found := by simp [boot, Adaptive.boot] at found
  used _ member := nomatch member

theorem underVerification_eq_false {state : Dispatch} {name : Name}
    (idle : state.underVerification name = false) {index : Nat} {entry : PipelineEntry}
    (found : state.adaptive.pipelines[index]? = some entry) (verifying : entry.state = .verifying)
    (beyond : state.adaptive.monitor.resets ≠ some index) : entry.pipelineName ≠ name := by
  intro same
  have all := List.any_eq_false.mp idle (entry, index) (List.mem_zipIdx_iff_getElem?.mpr found)
  simp [same, verifying, beyond] at all

/-- Snapshots and verdicts of the monitor leave pipelines under verification unmeasured. -/
theorem Unmeasured.step {state after : Dispatch} {label : DispatchLabel}
    (unmeasured : Unmeasured state)
    (clean : measuresCleanly qualifiedName state label = true)
    (step : state.step doubles config qualifiedName label = some after) : Unmeasured after := by
  have effect := effect_of_step step
  cases effect with
  | sampled next stepped =>
      obtain ⟨waiting, rfl⟩ := Adaptive.sampled_of_step stepped
      have beyond (index : Nat) : state.adaptive.monitor.resets ≠ some index := by
        rw [waiting]
        exact nofun
      refine ⟨unmeasured.registered, fun index entry found verifying _ => ?_,
        fun index entry found verifying _ => ?_, unmeasured.used⟩
      · exact unmeasured.samples index entry found verifying (beyond index)
      · apply getCostSamples_absent
        intro map member
        obtain ⟨thread, -, rfl⟩ := List.mem_map.mp member
        exact unmeasured.samples index entry found verifying (beyond index) thread
  | reset position target next resets found stepped =>
      have moved := Adaptive.monitor_of_step stepped nofun
      have kept (thread : ThreadId) (key : Name)
          (absent : (state.costs thread).samples.lookup key = none) :
          ((resetSamples { state with adaptive := next } target.pipelineName).costs
            thread).samples.lookup key = none := by
        simp only [resetSamples]
        split
        · rw [lookup_resetCostSamples, absent, ite_self]
        · exact absent
      refine ⟨fun thread unregistered => ?_, fun index later there verifying away thread => ?_,
        fun index later there verifying ahead => ?_, unmeasured.used⟩
      · have absent : thread ∉ state.registrations := unregistered
        simpa only [resetSamples, if_neg absent] using unmeasured.registered thread absent
      · obtain ⟨entry, before, was, name⟩ :=
          (Adaptive.verifying_of_step stepped there verifying).resolve_right away
        rw [← name]
        by_cases same : index = position
        · -- The entry just installed: its samples go from every registered thread.
          subst same
          obtain rfl : entry = target := by simpa [before] using found
          simp only [resetSamples]
          split
          · rw [lookup_resetCostSamples, belongsTo_self, if_pos rfl]
          · rename_i absent
            rw [unmeasured.registered thread absent]
            exact AList.lookup_empty _
        · refine kept thread _ (unmeasured.samples index entry before was ?_ thread)
          rw [resets]
          exact fun other => same (Option.some.inj other).symm
      · obtain ⟨entry, before, was, name⟩ :=
          (Adaptive.verifying_of_step stepped there verifying).resolve_right
            (Adaptive.resets_of_not_passed ahead)
        rw [← name]
        rcases moved.2.1 with snapshot | gone
        · rw [show (resetSamples { state with adaptive := next } target.pipelineName).adaptive =
            next from rfl, snapshot]
          exact unmeasured.snapshot index entry before was (moved.2.2 index ahead)
        · rw [show (resetSamples { state with adaptive := next } target.pipelineName).adaptive =
            next from rfl, gone]
          rfl
  | adapted action next uses stepped unsampled unreset used =>
      obtain ⟨idle, snapshot, earlier⟩ := Adaptive.monitor_of_step stepped unsampled
      have beyond (index : Nat) : state.adaptive.monitor.resets ≠ some index := by
        rw [idle unreset]
        exact nofun
      refine ⟨unmeasured.registered, fun index later there verifying away thread => ?_,
        fun index later there verifying ahead => ?_, fun use member => ?_⟩
      · obtain ⟨entry, before, was, name⟩ :=
          (Adaptive.verifying_of_step stepped there verifying).resolve_right away
        rw [← name]
        exact unmeasured.samples index entry before was (beyond index) thread
      · obtain ⟨entry, before, was, name⟩ :=
          (Adaptive.verifying_of_step stepped there verifying).resolve_right
            (Adaptive.resets_of_not_passed ahead)
        rw [← name]
        rcases snapshot with same | gone
        · rw [same]
          exact unmeasured.snapshot index entry before was (earlier index ahead)
        · rw [gone]
          rfl
      · rcases used with rfl | rfl
        · exact unmeasured.used use member
        · rcases List.mem_append.mp member with old | new
          · exact unmeasured.used use old
          · obtain ⟨costs, index, entry, ns, monitor, found, known, -, -, -, verifying⟩ :=
              mem_baselineUses new
            cases baseline : use.baseline with
            | aot => rfl
            | jit =>
                have absent := unmeasured.snapshot index entry found (verifying baseline)
                rw [monitor] at absent
                cases (absent (by simp [MonitorPosition.passed])).symm.trans known
  | threads after adaptive origins uses registered samples =>
      refine ⟨registered unmeasured.registered, fun index entry found verifying away thread => ?_,
        ?_, ?_⟩
      · rw [adaptive] at found away
        cases known : (after.costs thread).samples.lookup entry.pipelineName with
        | none => rfl
        | some sample =>
            obtain old | ⟨func, rest, duration, rfl, running, name, records, -⟩ :=
              samples thread _ sample known
            · rw [unmeasured.samples index entry found verifying away thread] at old
              cases old
            · rw [name] at records
              simp only [measuresCleanly, running, records, Bool.not_true, Bool.false_or,
                Bool.not_eq_true'] at clean
              exact absurd name (underVerification_eq_false clean found verifying away)
      · rw [adaptive]
        exact unmeasured.snapshot
      · rw [uses]
        exact unmeasured.used

/-- In clean runs no average is ever the baseline of an installed version. -/
theorem unmeasured_of_reachable {state : Dispatch}
    (reach : (machine doubles config qualifiedName).Reachable
      (fun state label => measuresCleanly qualifiedName state label = true) state) :
    Unmeasured state := by
  refine reach.invariant ?_ ?_
  · rintro _ ⟨instrument, rfl⟩
    exact unmeasured_boot instrument
  · intro before label after _ unmeasured clean step
    exact unmeasured.step clean step

/-- An average that became a baseline was recorded by what the baseline is to describe. -/
def BaselineUse.Attributed (qualifiedName : SlotId → Name) (use : BaselineUse) : Prop :=
  ∀ execution ∈ use.origins, qualifiedName execution.func = use.pipelineName ∧
    match use.baseline with
    | .aot => execution.variant = none
    | .jit => execution.variant ≠ none ∧ execution.variant = use.installed

/-- In runs in which no ahead-of-time measurement is recorded while an installed version of its
pipeline is being measured, every baseline is attributed; in every run the ahead-of-time baselines
are, and the baselines of installed versions are not. -/
theorem measurement_provenance (doubles : Doubles D) (config : AdaptiveConfig D)
    (qualifiedName : SlotId → Name) :
    (∀ state, (machine doubles config qualifiedName).Reachable
        (fun state label => measuresCleanly qualifiedName state label = true) state →
      ∀ use ∈ state.uses, BaselineUse.Attributed qualifiedName use) ∧
      ∀ state, (machine doubles config qualifiedName).Reachable Transition.Machine.anyStep state →
        ∀ use ∈ state.uses,
          (use.baseline = .aot → BaselineUse.Attributed qualifiedName use) ∧
            (use.baseline = .jit →
              use.installed ≠ none ∧ ¬ BaselineUse.Attributed qualifiedName use) := by
  have aot {state : Dispatch} (traced : Traced qualifiedName state) {use : BaselineUse}
      (member : use ∈ state.uses) (baseline : use.baseline = .aot) :
      BaselineUse.Attributed qualifiedName use := by
    intro execution recorded
    rw [baseline]
    exact (traced.used use member).1 execution recorded
  refine ⟨fun state reach use member => ?_, fun state reach use member => ⟨?_, fun jit => ?_⟩⟩
  · exact aot (traced_of_reachable reach) member ((unmeasured_of_reachable reach).used use member)
  · exact aot (traced_of_reachable reach) member
  · obtain ⟨bodies, judged⟩ := (traced_of_reachable reach).used use member
    obtain ⟨installed, recorded⟩ := judged jit
    refine ⟨installed, fun attributed => ?_⟩
    obtain ⟨execution, first⟩ := List.exists_mem_of_ne_nil _ recorded
    have through := (attributed execution first).2
    rw [jit] at through
    exact through.1 (bodies execution first).2

/-- A measured call, two passes that lead to a compilation, and a third that installs its result
with whatever happens before it. -/
def measureAndInstall (before : List DispatchLabel) : List DispatchLabel :=
  [.register ['_', 'p'] 64 1000,
    .call 0 64, .load 0, .costBegin 0, .tick 20000, .leave 0,
    .sample, .lock, .visit .notReady, .unlock,
    .sample, .lock, .visit .notReady, .unlock] ++ before ++
  [.sample, .lock, .visit (.ready (some 7)), .reset, .unlock]

theorem measurement_provenance_install :
    ∃ state, (machine .exact Adaptive.twoVersions fun _ => ['p']).Reachable
        (fun state label => measuresCleanly (fun _ => ['p']) state label = true) state ∧
      (state.uses = [⟨.aot, ['p'], none, [⟨64, none⟩]⟩] ∧
        state.adaptive.pipelines.map (·.state) = [.verifying]) ∧
      ∀ use ∈ state.uses, BaselineUse.Attributed (fun _ => ['p']) use := by
  obtain ⟨state, reach, installed⟩ :=
    ((machine .exact Adaptive.twoVersions fun _ => ['p']).restrict
      (fun state label => measuresCleanly (fun _ => ['p']) state label = true)).exists_reachable
      (fun state => state.uses = [⟨.aot, ['p'], none, [⟨64, none⟩]⟩] ∧
        state.adaptive.pipelines.map (·.state) = [.verifying])
      (measureAndInstall [] ++ [.call 0 64, .load 0, .tick 5, .leave 0,
        .sample, .lock, .visit .notReady, .unlock]) ⟨true, rfl⟩ (by decide)
  exact ⟨state, reach.of_restrict, installed,
    (measurement_provenance .exact Adaptive.twoVersions fun _ => ['p']).1 state reach.of_restrict⟩

/-- A call that loads the slot before the installation and returns after the reset is taken for
a measurement of the installed version. -/
theorem baseline_of_straddling_call :
    ∃ state, (machine .exact Adaptive.twoVersions fun _ => ['p']).Reachable
        Transition.Machine.anyStep state ∧
      ∃ use ∈ state.uses, use.baseline = .jit ∧
        ¬ BaselineUse.Attributed (fun _ => ['p']) use := by
  obtain ⟨state, reach, judged⟩ :=
    (machine .exact Adaptive.twoVersions fun _ => ['p']).exists_reachable
      (fun state => ⟨.jit, ['p'], some 7, [⟨64, none⟩]⟩ ∈ state.uses)
      (measureAndInstall [.call 1 64, .load 1, .costBegin 1] ++
        [.tick 20000, .leave 1, .sample, .lock, .visit .notReady, .unlock]) ⟨true, rfl⟩
      (by decide +kernel)
  refine ⟨state, reach, _, judged, rfl, fun attributed => ?_⟩
  exact (attributed ⟨64, none⟩ (List.mem_singleton_self _)).2.1 rfl

end Dispatch
end Runtime
end TopoLlvm
