import TopoLlvm.Runtime.Adaptive
import Mathlib.Data.List.Nodup

/-!
# Entries, slots and budgets of the adaptive runtime

Each transition rewrites one entry and at most its own slot, so the invariant of the table is the
invariant of a single entry together with the distinctness of the slots.
-/

namespace TopoLlvm
namespace Runtime

/-- The states in which a JIT version is installed. -/
@[simp]
def PipelineState.isLive : PipelineState → Bool
  | .verifying | .active => true
  | .warmup | .monitoring | .specializing => false

/-- The content of a slot after an action of the monitor. -/
@[simp]
def SlotAction.result (slot : Option CodePtr) : SlotAction → Option CodePtr
  | .keep => slot
  | .install ptr => some ptr
  | .clear => none

/-- The invariant of one entry with the content of its slot. -/
structure EntryOk {D : Type} (config : AdaptiveConfig D) (slot : Option CodePtr)
    (entry : PipelineEntry) : Prop where
  live : slot.isSome = entry.state.isLive
  budget : entry.jitVersions ≤ config.maxVersions
  room : entry.state = .specializing → entry.jitVersions < config.maxVersions
  future : entry.jitFuture.isSome ↔ entry.state = .specializing

section Entry

variable {D : Type} {doubles : Doubles D} {config : AdaptiveConfig D} {slot : Option CodePtr}
  {entry : PipelineEntry} {costs : Costs}

theorem uint32_succ_le {small large : UInt32} (lt : small < large) : small + 1 ≤ large := by
  rw [UInt32.lt_iff_toNat_lt] at lt
  rw [UInt32.le_iff_toNat_le, UInt32.toNat_add]
  have := large.toNat_lt
  simp only [UInt32.toNat_one]
  omega

theorem EntryOk.warmup (ok : EntryOk config slot entry) (state : entry.state = .warmup) :
    EntryOk config slot (visitWarmup entry costs) := by
  have idle : entry.jitFuture = none := by simpa [state] using ok.future
  unfold visitWarmup
  split
  · exact ok
  · split
    · exact ⟨by simpa [state] using ok.live, ok.budget, nofun, by simp [idle]⟩
    · exact ok

theorem EntryOk.monitoring {ticket : Nat} (ok : EntryOk config slot entry)
    (state : entry.state = .monitoring) :
    EntryOk config slot (visitMonitoring doubles config entry costs ticket) := by
  unfold visitMonitoring
  split
  · exact ok
  · rename_i below
    split
    · exact ⟨by simpa [state] using ok.live, ok.budget, fun _ => UInt32.not_le.mp below, by simp⟩
    · exact ok

theorem EntryOk.specializing {poll : Poll} (ok : EntryOk config slot entry)
    (state : entry.state = .specializing) :
    EntryOk config ((visitSpecializing entry poll).2.result slot)
      (visitSpecializing entry poll).1 := by
  unfold visitSpecializing
  split
  · exact ok
  · exact ok
  · exact ⟨by simpa [state] using ok.live, ok.budget, nofun, by simp⟩
  · exact ⟨rfl, uint32_succ_le (ok.room state), nofun, by simp⟩

theorem EntryOk.verifying (ok : EntryOk config slot entry) (state : entry.state = .verifying) :
    EntryOk config ((visitVerifying doubles config entry costs).2.result slot)
      (visitVerifying doubles config entry costs).1 := by
  have idle : entry.jitFuture = none := by simpa [state] using ok.future
  have live : slot.isSome = true := by simpa [state] using ok.live
  unfold visitVerifying
  split
  · exact ok
  · simp only
    split
    · exact ⟨ok.live, ok.budget, ok.room, ok.future⟩
    · split
      · split
        · exact ⟨rfl, ok.budget, nofun, by simp [idle]⟩
        · exact ⟨live, ok.budget, nofun, by simp [idle]⟩
      · exact ⟨live, ok.budget, nofun, by simp [idle]⟩

theorem EntryOk.active (ok : EntryOk config slot entry) (state : entry.state = .active) :
    EntryOk config ((visitActive doubles config entry costs).2.result slot)
      (visitActive doubles config entry costs).1 := by
  have idle : entry.jitFuture = none := by simpa [state] using ok.future
  unfold visitActive
  split
  · exact ok
  · split
    · simp only
      split
      · exact ⟨rfl, ok.budget, nofun, by simp [idle]⟩
      · exact ok
    · exact ok

/-- Every visit keeps the invariant of the entry and its slot. -/
theorem EntryOk.visit {poll : Poll} {ticket : Nat} (ok : EntryOk config slot entry) :
    EntryOk config ((visitEntry doubles config entry costs poll ticket).2.result slot)
      (visitEntry doubles config entry costs poll ticket).1 := by
  unfold visitEntry
  cases state : entry.state with
  | warmup => exact ok.warmup state
  | monitoring => exact ok.monitoring state
  | specializing => exact ok.specializing state
  | verifying => exact ok.verifying state
  | active => exact ok.active state

/-- A visit leaves the identity of the entry alone. -/
theorem visitEntry_identity (poll : Poll) (ticket : Nat) :
    (visitEntry doubles config entry costs poll ticket).1.jitPtr = entry.jitPtr ∧
      (visitEntry doubles config entry costs poll ticket).1.pipelineName = entry.pipelineName := by
  unfold visitEntry
  split
  · unfold visitWarmup
    split
    · exact ⟨rfl, rfl⟩
    · split <;> exact ⟨rfl, rfl⟩
  · unfold visitMonitoring
    split
    · exact ⟨rfl, rfl⟩
    · split <;> exact ⟨rfl, rfl⟩
  · unfold visitSpecializing
    split <;> exact ⟨rfl, rfl⟩
  · unfold visitVerifying
    split
    · exact ⟨rfl, rfl⟩
    · simp only
      split
      · exact ⟨rfl, rfl⟩
      · split
        · split <;> exact ⟨rfl, rfl⟩
        · exact ⟨rfl, rfl⟩
  · unfold visitActive
    split
    · exact ⟨rfl, rfl⟩
    · split
      · simp only
        split <;> exact ⟨rfl, rfl⟩
      · exact ⟨rfl, rfl⟩

/-- A forced commit within the budget keeps the invariant. -/
theorem EntryOk.commit (ok : EntryOk config slot entry)
    (below : entry.jitVersions < config.maxVersions)
    (free : Adaptive.monitorSpecializationInFlight entry = false) (ptr : CodePtr) :
    EntryOk config (some ptr)
      { entry with jitVersions := entry.jitVersions + 1, state := .active } := by
  have idle : entry.jitFuture = none := by
    by_contra valid
    have isSome := Option.isSome_iff_ne_none.mpr valid
    simp [Adaptive.monitorSpecializationInFlight, isSome, ok.future.mp isSome] at free
  exact ⟨rfl, uint32_succ_le below, nofun, by simp [idle]⟩

end Entry

namespace Adaptive

variable {D : Type} {doubles : Doubles D} {config : AdaptiveConfig D}

/-- Slots are registered once, and every entry goes with its slot. -/
structure Sound (config : AdaptiveConfig D) (state : Adaptive) : Prop where
  distinct : (state.pipelines.map (·.jitPtr)).Nodup
  entries : ∀ entry ∈ state.pipelines, EntryOk config (state.slots entry.jitPtr) entry

theorem sound_boot : Sound config boot where
  distinct := List.nodup_nil
  entries _ member := nomatch member

/-- Two entries with one slot are the same entry. -/
theorem Sound.index_unique {state : Adaptive} (sound : Sound config state) {left right : Nat}
    {first second : PipelineEntry} (atLeft : state.pipelines[left]? = some first)
    (atRight : state.pipelines[right]? = some second) (same : first.jitPtr = second.jitPtr) :
    left = right := by
  have bound := (List.getElem?_eq_some_iff.mp atLeft).1
  refine (List.getElem?_inj (by simpa using bound) sound.distinct).mp ?_
  simp [atLeft, atRight, same]

/-- Rewriting one entry keeps what the entries have in a field that it keeps. -/
theorem map_set_of_eq {Field : Type} (field : PipelineEntry → Field)
    {pipelines : List PipelineEntry} {index : Nat} {entry fresh : PipelineEntry}
    (found : pipelines[index]? = some entry) (same : field fresh = field entry) :
    (pipelines.set index fresh).map field = pipelines.map field := by
  have bound := (List.getElem?_eq_some_iff.mp found).1
  rw [List.map_set, same]
  refine List.ext_getElem? fun position => ?_
  rw [List.getElem?_set]
  split
  · rename_i here
    rw [← here, List.getElem?_map, found, if_pos (by simpa using bound)]
    rfl
  · rfl

/-- Rewriting one entry together with its slot. -/
theorem Sound.rewrite {state after : Adaptive} (sound : Sound config state) {index : Nat}
    {entry fresh : PipelineEntry} {slot : Option CodePtr}
    (found : state.pipelines[index]? = some entry) (samePtr : fresh.jitPtr = entry.jitPtr)
    (ok : EntryOk config slot fresh) (pipelines : after.pipelines = state.pipelines.set index fresh)
    (slots : after.slots = Function.update state.slots entry.jitPtr slot) : Sound config after := by
  refine ⟨?_, fun other member => ?_⟩
  · rw [pipelines, map_set_of_eq (·.jitPtr) found samePtr]
    exact sound.distinct
  · rw [pipelines] at member
    rw [slots]
    obtain ⟨position, there⟩ := List.mem_iff_getElem?.mp member
    rw [List.getElem?_set] at there
    split at there
    · obtain rfl := Option.some.inj (Option.ite_none_right_eq_some.mp there).2
      rw [samePtr, Function.update_self]
      exact ok
    · rename_i elsewhere
      have ne : other.jitPtr ≠ entry.jitPtr := fun same =>
        elsewhere (sound.index_unique found there same.symm)
      rw [Function.update_of_ne ne]
      exact sound.entries other (List.mem_of_getElem? there)

theorem perform_slots (state : Adaptive) (entry : PipelineEntry) (action : SlotAction) :
    (state.perform entry action).slots = Function.update state.slots entry.jitPtr
      (action.result (state.slots entry.jitPtr)) := by
  cases action <;> simp [perform, store]

/-- A visit keeps the table. -/
theorem Sound.visit {state : Adaptive} {costs : Costs} {index : Nat} {entry : PipelineEntry}
    {poll : Poll} (sound : Sound config state) (found : state.pipelines[index]? = some entry) :
    Sound config (state.visit doubles config costs index entry poll) :=
  sound.rewrite found (visitEntry_identity poll state.launched).1
    (sound.entries entry (List.mem_of_getElem? found)).visit rfl
    (perform_slots state entry _)

/-- What a forced specialization may work on. -/
theorem forceTarget_eq_some {state : Adaptive} {name : Name} {index : Nat} {entry : PipelineEntry}
    (target : state.forceTarget config name = some (index, entry)) :
    state.pipelines[index]? = some entry ∧ entry.jitVersions < config.maxVersions ∧
      monitorSpecializationInFlight entry = false := by
  unfold forceTarget at target
  split at target
  · cases target
  · obtain ⟨there, found, target⟩ := Option.bind_eq_some_iff.mp target
    split at target
    · cases target
    · rename_i below
      split at target
      · cases target
      · rename_i free
        cases target
        exact ⟨found, UInt32.not_le.mp below, by simpa using free⟩

/-- A forced commit keeps the table. -/
theorem Sound.commit {state : Adaptive} (sound : Sound config state) {name : Name} {index : Nat}
    {entry : PipelineEntry} (target : state.forceTarget config name = some (index, entry))
    (ptr : CodePtr) : Sound config (state.commitSpecialization index entry (some ptr)) := by
  obtain ⟨found, below, free⟩ := forceTarget_eq_some target
  have ok := (sound.entries entry (List.mem_of_getElem? found)).commit below free ptr
  exact sound.rewrite found (by rfl) ok rfl rfl

/-- A registration keeps the table. -/
theorem Sound.register {state : Adaptive} (sound : Sound config state)
    (mangledName pipelineName : Name) {jitPtr : SlotId} (aotTTICost : UInt64)
    (null : state.slots jitPtr = none) (fresh : ∀ entry ∈ state.pipelines, entry.jitPtr ≠ jitPtr) :
    Sound config (state.register mangledName pipelineName jitPtr aotTTICost) := by
  constructor
  · simp only [Adaptive.register, List.map_append, List.map_cons, List.map_nil]
    apply sound.distinct.append (List.nodup_singleton _)
    simpa [List.disjoint_singleton] using fresh
  · intro entry member
    rcases List.mem_append.mp member with old | new
    · exact sound.entries entry old
    · obtain rfl := List.mem_singleton.mp new
      exact ⟨by simp [Adaptive.register, null], UInt32.zero_le, nofun, by simp⟩

/-- Every step keeps the table. -/
theorem Sound.step {state after : Adaptive} {label : AdaptiveLabel} (sound : Sound config state)
    (step : state.step doubles config label = some after) : Sound config after := by
  cases step_move step with
  | register _ null fresh => exact sound.register _ _ _ null fresh
  | visit _ found => exact sound.visit found
  | @forceCommit call ptr _ _ _ _ _ target =>
      have kept := sound.commit target ptr
      exact ⟨kept.distinct, kept.entries⟩
  | sample | lock | reset | unlock | forceStart | forceSkip =>
      exact ⟨sound.distinct, sound.entries⟩

/-- The table is sound in every run. -/
theorem sound_of_reachable {guard : Adaptive → AdaptiveLabel → Prop} {state : Adaptive}
    (reach : (machine doubles config).Reachable guard state) : Sound config state := by
  refine reach.invariant ?_ fun before label after _ sound _ step => sound.step step
  rintro _ rfl
  exact sound_boot

/-- A label by which the monitor takes the result of the future of the entry at `index`. -/
def Consumes (state : Adaptive) (index : Nat) : AdaptiveLabel → Prop
  | .visit (.ready _) => ∃ costs, state.monitor = .visiting costs index
  | _ => False

/-- A visit keeps a valid future unless it takes the result. -/
theorem visitEntry_future {entry : PipelineEntry} {costs : Costs} {poll : Poll} {ticket : Nat}
    {slot : Option CodePtr} (ok : EntryOk config slot entry) {future : JitFuture}
    (valid : entry.jitFuture = some future) (unready : poll = .notReady) :
    (visitEntry doubles config entry costs poll ticket).1.jitFuture = some future := by
  have state : entry.state = .specializing := ok.future.mp (by simp [valid])
  simp [visitEntry, state, visitSpecializing, valid, unready]

/-- A step keeps every valid future unless it takes the result. -/
theorem Sound.future_kept {state after : Adaptive} {label : AdaptiveLabel}
    (sound : Sound config state) (step : state.step doubles config label = some after)
    {index : Nat} {entry : PipelineEntry} {future : JitFuture}
    (found : state.pipelines[index]? = some entry) (valid : entry.jitFuture = some future)
    (unconsumed : ¬ Consumes state index label) :
    ∃ later, after.pipelines[index]? = some later ∧ later.jitFuture = some future := by
  have bound := (List.getElem?_eq_some_iff.mp found).1
  have ok := sound.entries entry (List.mem_of_getElem? found)
  cases step_move step with
  | register =>
      exact ⟨entry, by simpa [Adaptive.register, List.getElem?_append_left bound] using found,
        valid⟩
  | @visit costs position visited poll monitor there =>
      by_cases here : position = index
      · subst here
        obtain rfl : entry = visited := by simpa [found] using there
        have unready : poll = .notReady := by
          cases poll with
          | notReady => rfl
          | ready ptr => exact absurd ⟨costs, monitor⟩ unconsumed
        exact ⟨_, List.getElem?_set_self bound, visitEntry_future ok valid unready⟩
      · exact ⟨entry, by simpa [Adaptive.visit, List.getElem?_set_ne here] using found, valid⟩
  | @forceCommit call ptr compile position target _ _ reached =>
      obtain ⟨there, -, free⟩ := forceTarget_eq_some reached
      -- A commit never meets an entry that holds a valid future.
      have elsewhere : position ≠ index := by
        rintro rfl
        obtain rfl : entry = target := by simpa [found] using there
        simp [monitorSpecializationInFlight, valid, ok.future.mp] at free
      exact ⟨entry, by simpa [commitSpecialization, List.getElem?_set_ne elsewhere] using found,
        valid⟩
  | sample | lock | reset | unlock | forceStart | forceSkip => exact ⟨entry, found, valid⟩

/-- In every run each entry's slot is non-null exactly in the states with a JIT version, the
version budget holds, and a valid future goes with the specializing state and survives every step
but the monitor's own `get`. -/
theorem entry_invariant (doubles : Doubles D) (config : AdaptiveConfig D) {state : Adaptive}
    (reach : (machine doubles config).Reachable Transition.Machine.anyStep state) :
    (∀ entry ∈ state.pipelines,
      (state.slots entry.jitPtr ≠ none ↔ entry.state = .verifying ∨ entry.state = .active) ∧
        entry.jitVersions ≤ config.maxVersions ∧
        (entry.state = .specializing ↔ entry.jitFuture.isSome)) ∧
      ∀ label after, state.step doubles config label = some after →
        ∀ index entry future, state.pipelines[index]? = some entry →
          entry.jitFuture = some future → ¬ Consumes state index label →
            ∃ later, after.pipelines[index]? = some later ∧ later.jitFuture = some future := by
  have sound := sound_of_reachable reach
  refine ⟨fun entry member => ?_, fun label after step index entry future found valid => ?_⟩
  · have ok := sound.entries entry member
    refine ⟨?_, ok.budget, ok.future.symm⟩
    have live := ok.live
    rw [← Option.isSome_iff_ne_none, live]
    cases entry.state <;> simp
  · exact sound.future_kept step found valid

/-- A configuration with a budget of two versions. -/
def twoVersions : AdaptiveConfig Rat where
  maxVersions := 2
  minTriggerNS := 10000
  deviationRatio := 2
  deoptRatio := 1
  verifyCalls := 10

/-- The monitor measures a pipeline, compiles it and installs the result. -/
def installRun : List AdaptiveLabel :=
  [.register ['_', 'p'] ['p'] 64 1000,
    .sample [(['p'], 20000)], .lock, .visit .notReady, .unlock,
    .sample [(['p'], 20000)], .lock, .visit .notReady, .unlock,
    .sample [(['p'], 20000)], .lock, .visit (.ready (some 7)), .reset, .unlock]

theorem entry_invariant_install :
    ∃ state, (machine .exact twoVersions).Reachable Transition.Machine.anyStep state ∧
      (state.slots 64 = some 7 ∧ state.pipelines.map (·.state) = [.verifying]) ∧
      ∀ entry ∈ state.pipelines,
        (state.slots entry.jitPtr ≠ none ↔ entry.state = .verifying ∨ entry.state = .active) ∧
          entry.jitVersions ≤ 2 ∧ (entry.state = .specializing ↔ entry.jitFuture.isSome) := by
  obtain ⟨state, reach, installed⟩ := (machine .exact twoVersions).exists_reachable
    (fun state => state.slots 64 = some 7 ∧ state.pipelines.map (·.state) = [.verifying])
    installRun rfl (by decide)
  exact ⟨state, reach, installed, (entry_invariant .exact twoVersions reach).1⟩

end Adaptive
end Runtime
end TopoLlvm
