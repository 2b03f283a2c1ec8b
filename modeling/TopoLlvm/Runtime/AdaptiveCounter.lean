import TopoLlvm.Runtime.AdaptiveInvariant
import Mathlib.Algebra.Ring.Nat

/-!
# The count of live JIT versions

`g_activeJit` follows the number of installed slots step by step, except where
`commitSpecialization` meets an entry under verification, whose slot is installed already.
-/

namespace TopoLlvm
namespace Runtime
namespace Adaptive

variable {D : Type} {doubles : Doubles D} {config : AdaptiveConfig D}

/-- The number of registered entries whose dispatch slot is not null. -/
def liveSlots (state : Adaptive) : Nat :=
  state.pipelines.countP fun entry => (state.slots entry.jitPtr).isSome

/-- The entry into whose slot a label installs a pointer. -/
def installs (config : AdaptiveConfig D) (state : Adaptive) :
    AdaptiveLabel → Option PipelineEntry
  | .visit (.ready (some _)) =>
      match state.monitor with
      | .visiting _ index => state.pipelines[index]?.filter fun entry =>
          entry.state = .specializing ∧ entry.jitFuture.isSome
      | _ => none
  | .forceFinish call (some _) =>
      state.forced[call]?.bind fun compile => (state.forceTarget config compile.name).map (·.2)
  | _ => none

/-- No forced commit meets an entry under verification, and the counter has room for another
live version. -/
def CountsCurrent (config : AdaptiveConfig D) (state : Adaptive) (label : AdaptiveLabel) : Prop :=
  ∀ entry ∈ state.installs config label, entry.state ≠ .verifying ∧
    (entry.state ≠ .active → state.liveSlots + 1 < 2 ^ 32)

instance decidableCountsCurrent (state : Adaptive) (label : AdaptiveLabel) :
    Decidable (CountsCurrent config state label) :=
  inferInstanceAs (Decidable (∀ entry ∈ state.installs config label, _))

/-- The counter is right and was never decremented at zero. -/
structure Counted (state : Adaptive) : Prop where
  count : state.activeJit.toNat = state.liveSlots
  sane : state.underflow = false

/-- In a sound table the live slots are those of the entries in a live state. -/
theorem Sound.liveSlots_eq {state : Adaptive} (sound : Sound config state) :
    state.liveSlots = state.pipelines.countP (·.state.isLive) :=
  List.countP_congr fun entry member => by rw [(sound.entries entry member).live]

/-- Rewriting one entry trades its liveness. -/
theorem countP_set_isLive {pipelines : List PipelineEntry} {index : Nat} {entry : PipelineEntry}
    (found : pipelines[index]? = some entry) (fresh : PipelineEntry) :
    (pipelines.set index fresh).countP (·.state.isLive) + entry.state.isLive.toNat =
      pipelines.countP (·.state.isLive) + fresh.state.isLive.toNat := by
  obtain ⟨bound, rfl⟩ := List.getElem?_eq_some_iff.mp found
  rw [List.countP_set bound]
  have positive : (pipelines[index].state.isLive).toNat ≤ pipelines.countP (·.state.isLive) := by
    cases live : pipelines[index].state.isLive with
    | false => exact Nat.zero_le _
    | true => exact List.countP_pos_iff.mpr ⟨_, List.getElem_mem bound, live⟩
  cases live : pipelines[index].state.isLive <;> cases fresh.state.isLive <;> simp_all

/-- What a slot action says about the entry before the visit. -/
def ActionOk (entry : PipelineEntry) (poll : Poll) : SlotAction → Prop
  | .keep => True
  | .install ptr =>
      entry.state = .specializing ∧ entry.jitFuture.isSome ∧ poll = .ready (some ptr)
  | .clear => entry.state.isLive = true

theorem visitEntry_actionOk (doubles : Doubles D) (config : AdaptiveConfig D)
    (entry : PipelineEntry) (costs : Costs) (poll : Poll) (ticket : Nat) :
    ActionOk entry poll (visitEntry doubles config entry costs poll ticket).2 := by
  unfold visitEntry
  cases state : entry.state with
  | warmup | monitoring => trivial
  | specializing =>
      simp only [visitSpecializing]
      cases valid : entry.jitFuture with
      | none => trivial
      | some future =>
          rcases poll with _ | _ | ptr
          · trivial
          · trivial
          · exact ⟨state, by simp [valid], rfl⟩
  | verifying =>
      simp only [visitVerifying]
      split
      · trivial
      · split
        · trivial
        · split
          · split <;> simp [ActionOk, state]
          · trivial
  | active =>
      simp only [visitActive]
      split
      · trivial
      · split
        · split <;> simp [ActionOk, state]
        · trivial

theorem uint32_succ_toNat {count : UInt32} (room : count.toNat + 1 < 2 ^ 32) :
    (count + 1).toNat = count.toNat + 1 := by
  rw [UInt32.toNat_add, UInt32.toNat_one]
  exact Nat.mod_eq_of_lt room

theorem uint32_pred_toNat {count : UInt32} (positive : 0 < count.toNat) :
    (count - 1).toNat + 1 = count.toNat := by
  have le : (1 : UInt32) ≤ count := UInt32.le_iff_toNat_le.mpr positive
  rw [UInt32.toNat_sub_of_le _ _ le, UInt32.toNat_one]
  omega

/-- A visit keeps the count. -/
theorem Counted.visit {state : Adaptive} {costs : Costs} {index : Nat} {entry : PipelineEntry}
    {poll : Poll} (counted : Counted state) (sound : Sound config state)
    (found : state.pipelines[index]? = some entry) (monitor : state.monitor = .visiting costs index)
    (guarded : CountsCurrent config state (.visit poll)) :
    Counted (state.visit doubles config costs index entry poll) := by
  have next : Sound config (state.visit doubles config costs index entry poll) :=
    sound.visit found
  have member := List.mem_of_getElem? found
  have ok := sound.entries entry member
  have visited := @EntryOk.visit _ doubles config _ entry costs poll state.launched ok
  have meaning := visitEntry_actionOk doubles config entry costs poll state.launched
  have traded := countP_set_isLive found
    (visitEntry doubles config entry costs poll state.launched).1
  have before := sound.liveSlots_eq
  have count := counted.count
  simp only [CountsCurrent, installs, monitor, found] at guarded
  refine ⟨?_, ?_⟩
  · rw [next.liveSlots_eq]
    simp only [Adaptive.visit]
    cases action : (visitEntry doubles config entry costs poll state.launched).2 with
    | keep =>
        rw [action] at visited
        have same := visited.live.symm.trans ok.live
        simp only [perform]
        rw [same] at traded
        omega
    | install ptr =>
        rw [action] at visited meaning
        obtain ⟨specializing, valid, rfl⟩ := meaning
        have live := visited.live
        simp only [SlotAction.result, Option.isSome_some] at live
        have room := (guarded entry (by simp [specializing, valid])).2 (by simp [specializing])
        simp only [perform]
        rw [uint32_succ_toNat (by omega), count, before]
        have dead : entry.state.isLive = false := by rw [specializing]; rfl
        simp only [← live, dead, Bool.toNat_false, Bool.toNat_true] at traded
        omega
    | clear =>
        rw [action] at visited meaning
        have live := visited.live
        simp only [SlotAction.result, Option.isSome_none] at live
        simp only [ActionOk] at meaning
        have positive : 0 < state.pipelines.countP (·.state.isLive) :=
          List.countP_pos_iff.mpr ⟨entry, member, meaning⟩
        have stepped := @uint32_pred_toNat state.activeJit (by omega)
        simp only [perform]
        simp only [← live, meaning, Bool.toNat_false, Bool.toNat_true] at traded
        omega
  · have sane := counted.sane
    simp only [Adaptive.visit]
    cases action : (visitEntry doubles config entry costs poll state.launched).2 with
    | keep | install ptr => exact sane
    | clear =>
        rw [action] at meaning
        simp only [ActionOk] at meaning
        have positive : 0 < state.pipelines.countP (·.state.isLive) :=
          List.countP_pos_iff.mpr ⟨entry, member, meaning⟩
        have nonzero : state.activeJit ≠ 0 := by
          rintro zero
          simp only [zero, UInt32.toNat_zero] at count
          omega
        simp [perform, sane, nonzero]

/-- What a commit of a compiled pointer adds to the live entries. -/
theorem liveSlots_commit {state : Adaptive} (sound : Sound config state) {name : Name} {index : Nat}
    {entry : PipelineEntry} (target : state.forceTarget config name = some (index, entry))
    (ptr : CodePtr) :
    (state.commitSpecialization index entry (some ptr)).liveSlots + entry.state.isLive.toNat =
      state.liveSlots + 1 := by
  obtain ⟨found, -⟩ := forceTarget_eq_some target
  rw [(sound.commit target ptr).liveSlots_eq, sound.liveSlots_eq]
  exact countP_set_isLive found
    { entry with jitVersions := entry.jitVersions + 1, state := .active }

/-- Steps that leave the entries and the counter alone keep the count. -/
theorem Counted.same {state after : Adaptive} (counted : Counted state)
    (pipelines : after.pipelines = state.pipelines) (slots : after.slots = state.slots)
    (activeJit : after.activeJit = state.activeJit)
    (underflow : after.underflow = state.underflow) : Counted after :=
  ⟨by rw [activeJit, counted.count, liveSlots, liveSlots, pipelines, slots],
    underflow.trans counted.sane⟩

/-- Every step that meets the condition keeps the count. -/
theorem Counted.step {state after : Adaptive} {label : AdaptiveLabel} (counted : Counted state)
    (sound : Sound config state) (guarded : CountsCurrent config state label)
    (step : state.step doubles config label = some after) : Counted after := by
  cases step_move step with
  | register _ null _ =>
      refine ⟨?_, counted.sane⟩
      simp [liveSlots, register, null, counted.count]
  | visit monitor found => exact counted.visit sound found monitor guarded
  | @forceCommit call ptr compile index entry _ there target =>
      obtain ⟨unverified, room⟩ := guarded entry (by simp [installs, there, target])
      have traded := liveSlots_commit sound target ptr
      have kept : Counted (state.commitSpecialization index entry (some ptr)) := by
        refine ⟨?_, counted.sane⟩
        have count := counted.count
        by_cases active : entry.state = .active
        · simp only [active, PipelineState.isLive, Bool.toNat_true] at traded
          simp only [commitSpecialization, active, if_true] at traded ⊢
          omega
        · have dead : entry.state.isLive = false := by
            cases state : entry.state <;> simp_all
          have fits := room active
          simp only [dead, Bool.toNat_false] at traded
          have stepped := @uint32_succ_toNat state.activeJit (by omega)
          simp only [commitSpecialization, active, if_false] at traded ⊢
          omega
      exact kept.same rfl rfl rfl rfl
  | sample | lock | reset | unlock | forceStart | forceSkip =>
      exact counted.same rfl rfl rfl rfl

/-- The count is right in every run that meets the condition. -/
theorem counted_of_reachable {state : Adaptive}
    (reach : (machine doubles config).Reachable (CountsCurrent config) state) : Counted state := by
  refine reach.invariant ?_ fun before label after reached counted guarded step =>
    counted.step (sound_of_reachable reached) guarded step
  rintro _ rfl
  exact ⟨rfl, rfl⟩

/-- A counter that is full, or that counts a live slot again, is wrong after the installation. -/
theorem uint32_succ_ne {count : UInt32} {before after : Nat} (counted : count.toNat = before)
    (wrong : after = before ∨ after = before + 1 ∧ 2 ^ 32 ≤ before + 1) :
    (count + 1).toNat ≠ after := by
  have bound := count.toNat_lt
  rw [UInt32.toNat_add, UInt32.toNat_one]
  omega

/-- A step that breaks the condition makes the count wrong. -/
theorem Counted.broken {state after : Adaptive} {label : AdaptiveLabel} (counted : Counted state)
    (sound : Sound config state) (broken : ¬ CountsCurrent config state label)
    (step : state.step doubles config label = some after) :
    after.activeJit.toNat ≠ after.liveSlots := by
  have count := counted.count
  simp only [CountsCurrent, not_forall, not_and, not_lt] at broken
  obtain ⟨entry, installed, broken⟩ := broken
  cases step_move step with
  | @visit costs index visited poll monitor found =>
      rcases poll with _ | _ | ptr
      · cases installed
      · cases installed
      · simp only [installs, monitor, found, Option.mem_def, Option.filter_eq_some_iff] at installed
        obtain ⟨same, kind⟩ := installed
        obtain rfl : visited = entry := by simpa using same
        obtain ⟨specializing, valid⟩ :
            visited.state = .specializing ∧ visited.jitFuture.isSome := by
          simpa using kind
        obtain ⟨future, held⟩ := Option.isSome_iff_exists.mp valid
        have full : 2 ^ 32 ≤ state.liveSlots + 1 := by simpa [specializing] using broken
        have next : Sound config
            (state.visit doubles config costs index visited (.ready (some ptr))) :=
          sound.visit found
        have traded := countP_set_isLive found
          (visitEntry doubles config visited costs (.ready (some ptr)) state.launched).1
        rw [next.liveSlots_eq]
        simp only [Adaptive.visit, visitEntry, specializing, visitSpecializing, held, perform,
          PipelineState.isLive, Bool.toNat_true, Bool.toNat_false] at traded ⊢
        refine uint32_succ_ne (count.trans sound.liveSlots_eq) (.inr ⟨traded, ?_⟩)
        rwa [← sound.liveSlots_eq]
  | @forceSkip call ptr compile _ there skip =>
      cases ptr with
      | none => cases installed
      | some ptr =>
          obtain absent | null := skip
          · simp [installs, there, absent] at installed
          · cases null
  | @forceCommit call ptr compile index target _ there reached =>
      simp only [installs, there, reached, Option.bind_some, Option.map_some, Option.mem_def,
        Option.some.injEq] at installed
      subst installed
      have traded := liveSlots_commit sound reached ptr
      have active : target.state ≠ .active := by
        intro active
        simp [active] at broken
      suffices wrong : (state.commitSpecialization index target (some ptr)).activeJit.toNat ≠
          (state.commitSpecialization index target (some ptr)).liveSlots from wrong
      simp only [commitSpecialization, active, if_false] at traded ⊢
      apply uint32_succ_ne count
      cases place : target.state with
      | verifying =>
          simp only [place, PipelineState.isLive, Bool.toNat_true] at traded
          exact .inl (by omega)
      | active => exact absurd place active
      | _ =>
          simp only [place, PipelineState.isLive, Bool.toNat_false] at traded
          simp only [place, ne_eq, reduceCtorEq, not_false_eq_true, forall_const] at broken
          exact .inr ⟨by omega, by omega⟩
  | _ => cases installed

/-- In runs whose forced commits meet no entry under verification, and in which the counter has
room, `g_activeJit` equals the number of live slots and is never decremented at zero; the first
step that breaks the condition makes the count wrong. -/
theorem activeJit_counts (doubles : Doubles D) (config : AdaptiveConfig D) :
    (∀ state, (machine doubles config).Reachable (CountsCurrent config) state →
      state.activeJit.toNat = state.liveSlots ∧ state.underflow = false) ∧
      ∀ state label after, (machine doubles config).Reachable (CountsCurrent config) state →
        state.step doubles config label = some after → ¬ CountsCurrent config state label →
          after.activeJit.toNat ≠ after.liveSlots := by
  refine ⟨fun state reach => ?_, fun state label after reach step broken => ?_⟩
  · have counted := counted_of_reachable reach
    exact ⟨counted.count, counted.sane⟩
  · exact (counted_of_reachable reach).broken (sound_of_reachable reach) broken step

theorem activeJit_counts_install :
    ∃ state, (machine .exact twoVersions).Reachable (CountsCurrent twoVersions) state ∧
      state.liveSlots = 1 ∧ state.activeJit.toNat = state.liveSlots ∧ state.underflow = false := by
  obtain ⟨state, reach, live⟩ :=
    ((machine .exact twoVersions).restrict (CountsCurrent twoVersions)).exists_reachable
      (fun state => state.liveSlots = 1) installRun rfl (by decide)
  exact ⟨state, reach.of_restrict, live,
    (activeJit_counts .exact twoVersions).1 state reach.of_restrict⟩

/-- A forced specialization commits while the monitor verifies the version it has installed. -/
def recommitRun : List AdaptiveLabel :=
  installRun ++ [.forceStart ['p'] .pipeline [], .forceFinish 0 (some 9)]

theorem activeJit_overcounts :
    ∃ state, (machine .exact twoVersions).Reachable Transition.Machine.anyStep state ∧
      state.activeJit.toNat = 2 ∧ state.liveSlots = 1 :=
  (machine .exact twoVersions).exists_reachable
    (fun state => state.activeJit.toNat = 2 ∧ state.liveSlots = 1) recommitRun rfl (by decide)

end Adaptive
end Runtime
end TopoLlvm
