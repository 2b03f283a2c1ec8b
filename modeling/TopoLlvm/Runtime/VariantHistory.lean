import TopoLlvm.Runtime.AdaptiveCounter

/-!
# The variant-switch history

The records of one pipeline should read as a walk between its two variants that starts at the
compiled one and ends at the one the dispatch slot selects.  A forced specialization writes
"from aot" whatever the slot holds.
-/

namespace TopoLlvm
namespace Runtime

/-- Records that continue each other, from one variant to another. -/
def Chain : Variant → List VariantSwitch → Variant → Prop
  | first, [], last => first = last
  | first, record :: rest, last =>
      record.source = first ∧ record.source ≠ record.target ∧ Chain record.target rest last

instance decidableChain : ∀ (first : Variant) (records : List VariantSwitch) (last : Variant),
    Decidable (Chain first records last)
  | first, [], last => inferInstanceAs (Decidable (first = last))
  | first, record :: rest, last =>
      have := decidableChain record.target rest last
      inferInstanceAs (Decidable (record.source = first ∧ record.source ≠ record.target ∧ _))

section Chain

variable {first last : Variant} {records : List VariantSwitch}

theorem chain_concat {record : VariantSwitch} :
    Chain first (records ++ [record]) last ↔
      Chain first records record.source ∧ record.source ≠ record.target ∧
        record.target = last := by
  induction records generalizing first with
  | nil => simp [Chain, eq_comm]
  | cons head rest ih =>
      simp only [List.cons_append, Chain, ih]
      tauto

/-- Where a chain ends is determined by its records. -/
theorem Chain.unique {other : Variant} (chain : Chain first records last)
    (again : Chain first records other) : last = other := by
  induction records generalizing first with
  | nil => exact chain.symm.trans again
  | cons head rest ih => exact ih chain.2.2 again.2.2

end Chain

/-- The variant that a slot selects. -/
def slotVariant (slot : Option CodePtr) : Variant :=
  if slot.isSome then .jit else .aot

namespace Adaptive

/-- The records of a pipeline. -/
def history (state : Adaptive) (pipelineName : Name) : List VariantSwitch :=
  state.switches.filter fun record => record.subject = pipelineName

/-- Pipelines have names of their own, records are about pipelines, and the records of each
pipeline lead from the compiled variant to the one in its slot. -/
structure HistoryOk (state : Adaptive) : Prop where
  names : (state.pipelines.map (·.pipelineName)).Nodup
  subjects : ∀ record ∈ state.switches,
    ∃ entry ∈ state.pipelines, entry.pipelineName = record.subject
  chains : ∀ entry ∈ state.pipelines,
    Chain .aot (state.history entry.pipelineName) (slotVariant (state.slots entry.jitPtr))

variable {D : Type} {doubles : Doubles D} {config : AdaptiveConfig D}

/-- A label registers a name that no entry has. -/
def RegistersFresh (state : Adaptive) : AdaptiveLabel → Prop
  | .register _ pipelineName _ _ => ∀ entry ∈ state.pipelines, entry.pipelineName ≠ pipelineName
  | _ => True

/-- A pointer is installed into a null slot only. -/
def InstallsFresh (config : AdaptiveConfig D) (state : Adaptive) (label : AdaptiveLabel) : Prop :=
  ∀ entry ∈ state.installs config label, state.slots entry.jitPtr = none

def HistoryCurrent (config : AdaptiveConfig D) (state : Adaptive) (label : AdaptiveLabel) : Prop :=
  RegistersFresh state label ∧ InstallsFresh config state label

instance decidableHistoryCurrent (state : Adaptive) (label : AdaptiveLabel) :
    Decidable (HistoryCurrent config state label) :=
  have : Decidable (RegistersFresh state label) := by
    cases label <;> unfold RegistersFresh <;> infer_instance
  have : Decidable (InstallsFresh config state label) :=
    inferInstanceAs (Decidable (∀ entry ∈ state.installs config label, _))
  inferInstanceAs (Decidable (_ ∧ _))

theorem historyOk_boot : HistoryOk boot where
  names := List.nodup_nil
  subjects _ member := nomatch member
  chains _ member := nomatch member

theorem HistoryOk.index_unique {state : Adaptive} (ok : HistoryOk state) {left right : Nat}
    {first second : PipelineEntry} (atLeft : state.pipelines[left]? = some first)
    (atRight : state.pipelines[right]? = some second)
    (same : first.pipelineName = second.pipelineName) : left = right := by
  have bound := (List.getElem?_eq_some_iff.mp atLeft).1
  refine (List.getElem?_inj (by simpa using bound) ok.names).mp ?_
  simp [atLeft, atRight, same]

/-- The records that a change of a slot asks for. -/
def slotRecords (entry : PipelineEntry) (before after : Option CodePtr) : List VariantSwitch :=
  if slotVariant before = slotVariant after then []
  else [{ source := slotVariant before, target := slotVariant after
          subject := entry.pipelineName }]

theorem mem_slotRecords {entry : PipelineEntry} {before after : Option CodePtr}
    {record : VariantSwitch} (member : record ∈ slotRecords entry before after) :
    record.subject = entry.pipelineName := by
  rw [slotRecords] at member
  split_ifs at member with same
  · cases member
  · obtain rfl := List.mem_singleton.mp member
    rfl

/-- The records of a change take its pipeline's chain from the old variant to the new one. -/
theorem chain_slotRecords {entry : PipelineEntry} {before after : Option CodePtr}
    {records : List VariantSwitch} (chain : Chain .aot records (slotVariant before)) :
    Chain .aot (records ++ slotRecords entry before after) (slotVariant after) := by
  rw [slotRecords]
  split_ifs with same
  · rwa [List.append_nil, ← same]
  · exact chain_concat.mpr ⟨chain, same, rfl⟩

/-- Rewriting one entry with its slot and its records keeps the histories. -/
theorem HistoryOk.rewrite {state after : Adaptive} (ok : HistoryOk state)
    (sound : Sound config state) {index : Nat} {entry fresh : PipelineEntry}
    {slot : Option CodePtr} (found : state.pipelines[index]? = some entry)
    (samePtr : fresh.jitPtr = entry.jitPtr) (sameName : fresh.pipelineName = entry.pipelineName)
    (pipelines : after.pipelines = state.pipelines.set index fresh)
    (slots : after.slots = Function.update state.slots entry.jitPtr slot)
    (switches : after.switches =
      state.switches ++ slotRecords entry (state.slots entry.jitPtr) slot) : HistoryOk after where
  names := by
    rw [pipelines, map_set_of_eq (·.pipelineName) found sameName]
    exact ok.names
  subjects record member := by
    have named : ∃ other ∈ state.pipelines, other.pipelineName = record.subject := by
      rw [switches] at member
      rcases List.mem_append.mp member with old | new
      · exact ok.subjects record old
      · exact ⟨entry, List.mem_of_getElem? found, (mem_slotRecords new).symm⟩
    have same_names := map_set_of_eq (·.pipelineName) found sameName
    obtain ⟨other, other_mem, other_name⟩ := named
    have there : record.subject ∈ (state.pipelines.set index fresh).map (·.pipelineName) := by
      rw [same_names]
      exact List.mem_map.mpr ⟨other, other_mem, other_name⟩
    rw [pipelines]
    exact List.mem_map.mp there
  chains other member := by
    have history_eq : after.history other.pipelineName = state.history other.pipelineName ++
        (slotRecords entry (state.slots entry.jitPtr) slot).filter
          fun record => record.subject = other.pipelineName := by
      rw [history, switches, List.filter_append]
      rfl
    rw [history_eq, slots]
    rw [pipelines] at member
    obtain ⟨position, there⟩ := List.mem_iff_getElem?.mp member
    rw [List.getElem?_set] at there
    split at there
    · -- The rewritten entry: its chain grows by the records of the change.
      simp only [Option.ite_none_right_eq_some, Option.some.injEq] at there
      obtain ⟨-, rfl⟩ := there
      have all_mine : (slotRecords entry (state.slots entry.jitPtr) slot).filter
          (fun record => record.subject = fresh.pipelineName) =
            slotRecords entry (state.slots entry.jitPtr) slot :=
        List.filter_eq_self.mpr fun record new => by
          simpa using (mem_slotRecords new).trans sameName.symm
      rw [all_mine, samePtr, Function.update_self, sameName]
      exact chain_slotRecords (ok.chains entry (List.mem_of_getElem? found))
    · -- Another entry has another name and another slot.
      rename_i elsewhere
      have other_name : other.pipelineName ≠ entry.pipelineName := fun same =>
        elsewhere (ok.index_unique found there same.symm)
      have other_slot : other.jitPtr ≠ entry.jitPtr := fun same =>
        elsewhere (sound.index_unique found there same.symm)
      have none_mine : (slotRecords entry (state.slots entry.jitPtr) slot).filter
          (fun record => record.subject = other.pipelineName) = [] :=
        List.filter_eq_nil_iff.mpr fun record new => by
          simpa [mem_slotRecords new] using other_name.symm
      rw [none_mine, List.append_nil, Function.update_of_ne other_slot]
      exact ok.chains other (List.mem_of_getElem? there)

/-- The monitor's actions record the change of the slot. -/
theorem perform_switches {state : Adaptive} {entry : PipelineEntry} {poll : Poll}
    {action : SlotAction} (ok : EntryOk config (state.slots entry.jitPtr) entry)
    (meaning : ActionOk entry poll action) :
    (state.perform entry action).switches = state.switches ++
      slotRecords entry (state.slots entry.jitPtr)
        (action.result (state.slots entry.jitPtr)) := by
  have live := ok.live
  cases action with
  | keep => simp [perform, slotRecords]
  | install ptr =>
      rw [meaning.1] at live
      simp only [PipelineState.isLive, Option.isSome_eq_false_iff, Option.isNone_iff_eq_none] at live
      simp [perform, slotRecords, slotVariant, live]
  | clear =>
      rw [show entry.state.isLive = true from meaning] at live
      simp [perform, slotRecords, slotVariant, live]

/-- A pipeline under a new name begins with no records and a null slot. -/
theorem HistoryOk.register {state : Adaptive} (ok : HistoryOk state) (mangledName : Name)
    {pipelineName : Name} {jitPtr : SlotId} (aotTTICost : UInt64)
    (null : state.slots jitPtr = none)
    (fresh : ∀ entry ∈ state.pipelines, entry.pipelineName ≠ pipelineName) :
    HistoryOk (state.register mangledName pipelineName jitPtr aotTTICost) where
  names := by
    simp only [Adaptive.register, List.map_append, List.map_cons, List.map_nil]
    apply ok.names.append (List.nodup_singleton _)
    simpa [List.disjoint_singleton] using fresh
  subjects record member := by
    obtain ⟨entry, entry_mem, same⟩ := ok.subjects record member
    exact ⟨entry, List.mem_append_left _ entry_mem, same⟩
  chains entry member := by
    rcases List.mem_append.mp member with old | new
    · exact ok.chains entry old
    · obtain rfl := List.mem_singleton.mp new
      have silent : state.history pipelineName = [] := by
        refine List.filter_eq_nil_iff.mpr fun record recorded about => ?_
        obtain ⟨entry, entry_mem, same⟩ := ok.subjects record recorded
        exact fresh entry entry_mem (same.trans (by simpa using about))
      change Chain .aot (state.history pipelineName) (slotVariant (state.slots jitPtr))
      rw [silent, null]
      rfl

/-- **Step lemma.** A step that meets the condition keeps the histories. -/
theorem HistoryOk.step {state after : Adaptive} {label : AdaptiveLabel} (ok : HistoryOk state)
    (sound : Sound config state) (guarded : HistoryCurrent config state label)
    (step : state.step doubles config label = some after) : HistoryOk after := by
  cases step_move step with
  | @register mangledName pipelineName jitPtr aotTTICost _ null _ =>
      have fresh : ∀ entry ∈ state.pipelines, entry.pipelineName ≠ pipelineName := guarded.1
      exact ok.register mangledName aotTTICost null fresh
  | @visit costs index entry poll monitor found =>
      have entry_ok := sound.entries entry (List.mem_of_getElem? found)
      have identity := @visitEntry_identity _ doubles config entry costs poll state.launched
      have meaning := visitEntry_actionOk doubles config entry costs poll state.launched
      exact ok.rewrite sound found identity.1 identity.2 rfl (perform_slots state entry _)
        (perform_switches entry_ok meaning)
  | @forceCommit call ptr compile index entry _ there target =>
      have null := guarded.2 entry (by simp [installs, there, target])
      obtain ⟨found, -⟩ := forceTarget_eq_some target
      refine ok.rewrite sound found ?_ ?_ rfl rfl ?_
      · rfl
      · rfl
      · simp [commitSpecialization, slotRecords, slotVariant, null]
  | sample | lock | reset | unlock | forceStart | forceSkip =>
      exact ⟨ok.names, ok.subjects, ok.chains⟩

/-- The histories are right in every run that meets the condition. -/
theorem historyOk_of_reachable {state : Adaptive}
    (reach : (machine doubles config).Reachable (HistoryCurrent config) state) :
    HistoryOk state := by
  refine reach.invariant ?_ fun before label after reached ok guarded step =>
    ok.step (sound_of_reachable reached) guarded step
  rintro _ rfl
  exact historyOk_boot

/-- An installation into a slot that is not null breaks the chain of its pipeline. -/
theorem HistoryOk.broken {state after : Adaptive} {label : AdaptiveLabel} (ok : HistoryOk state)
    (sound : Sound config state) (broken : ¬InstallsFresh config state label)
    (step : state.step doubles config label = some after) :
    ∃ entry ∈ after.pipelines, ∀ last,
      ¬Chain .aot (after.history entry.pipelineName) last := by
  simp only [InstallsFresh, not_forall] at broken
  obtain ⟨entry, installed, live⟩ := broken
  cases step_move step with
  | @visit costs index visited poll monitor found =>
      -- The monitor installs into the slots of specializing entries, which are null.
      rcases poll with _ | _ | ptr
      · cases installed
      · cases installed
      · simp only [installs, monitor, found, Option.mem_def, Option.filter_eq_some_iff] at installed
        obtain ⟨same, kind⟩ := installed
        obtain rfl : visited = entry := by simpa using same
        obtain ⟨specializing, -⟩ : visited.state = .specializing ∧ visited.jitFuture.isSome := by
          simpa using kind
        have null := (sound.entries visited (List.mem_of_getElem? found)).live
        rw [specializing] at null
        exact absurd (by simpa using null) live
  | @forceSkip call ptr compile _ there skip =>
      cases ptr with
      | none => cases installed
      | some ptr =>
          obtain absent | null := skip
          · simp [installs, there, absent] at installed
          · cases null
  | @forceCommit call ptr compile index target _ there reached =>
      simp only [installs, there, reached, Option.bind_some, Option.map_some, Option.mem_def,
        Option.some.injEq] at installed
      subst installed
      obtain ⟨found, -⟩ := forceTarget_eq_some reached
      have before := ok.chains target (List.mem_of_getElem? found)
      have installed_already : slotVariant (state.slots target.jitPtr) = .jit := by
        rw [slotVariant, if_pos (Option.isSome_iff_ne_none.mpr live)]
      rw [installed_already] at before
      refine ⟨{ target with jitVersions := target.jitVersions + 1, state := .active },
        List.mem_of_getElem? (List.getElem?_set_self (List.getElem?_eq_some_iff.mp found).1),
        fun last chain => ?_⟩
      have grown : Chain .aot (state.history target.pipelineName ++
          [{ source := .aot, target := .jit, subject := target.pipelineName }]) last := by
        simpa [history, commitSpecialization] using chain
      have again := (chain_concat.mp grown).1
      cases before.unique again
  | _ => cases installed

/-- In runs that register each pipeline once and install only into null slots, the records of every
pipeline are a chain from the compiled variant to the one its slot selects; the first installation
into a slot that is not null makes some pipeline's records no chain at all. -/
theorem switch_history (doubles : Doubles D) (config : AdaptiveConfig D) :
    (∀ state, (machine doubles config).Reachable (HistoryCurrent config) state →
      ∀ entry ∈ state.pipelines,
        Chain .aot (state.history entry.pipelineName) (slotVariant (state.slots entry.jitPtr))) ∧
      ∀ state label after, (machine doubles config).Reachable (HistoryCurrent config) state →
        state.step doubles config label = some after → ¬InstallsFresh config state label →
          ∃ entry ∈ after.pipelines, ∀ last,
            ¬Chain .aot (after.history entry.pipelineName) last := by
  refine ⟨fun state reach => (historyOk_of_reachable reach).chains,
    fun state label after reach step broken => ?_⟩
  exact (historyOk_of_reachable reach).broken (sound_of_reachable reach) broken step

theorem switch_history_install :
    ∃ state, (machine .exact twoVersions).Reachable (HistoryCurrent twoVersions) state ∧
      state.switches = [{ source := .aot, target := .jit, subject := ['p'] }] ∧
      ∀ entry ∈ state.pipelines,
        Chain .aot (state.history entry.pipelineName) (slotVariant (state.slots entry.jitPtr)) := by
  obtain ⟨state, reach, recorded⟩ :=
    ((machine .exact twoVersions).restrict (HistoryCurrent twoVersions)).exists_reachable
      (fun state => state.switches = [{ source := .aot, target := .jit, subject := ['p'] }])
      installRun rfl (by decide)
  exact ⟨state, reach.of_restrict, recorded,
    (switch_history .exact twoVersions).1 state reach.of_restrict⟩

/-- A forced specialization commits over the version that the monitor has installed, and writes
"from aot to jit" a second time. -/
theorem switch_history_repeats :
    ∃ state, (machine .exact twoVersions).Reachable Transition.Machine.anyStep state ∧
      ∃ entry ∈ state.pipelines, entry.pipelineName = ['p'] ∧
        ¬Chain .aot (state.history ['p']) .aot ∧ ¬Chain .aot (state.history ['p']) .jit := by
  refine (machine .exact twoVersions).exists_reachable
    (fun state => ∃ entry ∈ state.pipelines, entry.pipelineName = ['p'] ∧
      ¬Chain .aot (state.history ['p']) .aot ∧ ¬Chain .aot (state.history ['p']) .jit)
    recommitRun rfl (by decide)

end Adaptive
end Runtime
end TopoLlvm
