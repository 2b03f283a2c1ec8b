import TopoLlvm.Runtime.AdaptiveCounter

/-!
# Shutdown of the adaptive runtime

`shutdown` stops and joins the monitor, swaps the entries out and zeroes the statistics.  The
dispatch slots live outside the entries, and no part of it writes them.
-/

namespace TopoLlvm
namespace Runtime

/-- What the runs before a shutdown have left behind: their records, and the bookkeeping of the
model. -/
structure Past where
  switches : List VariantSwitch
  launched : Nat
  underflow : Bool

/-- The entry, with its future numbered after earlier ones. -/
def PipelineEntry.since (launched : Nat) (entry : PipelineEntry) : PipelineEntry :=
  { entry with
    jitFuture := entry.jitFuture.map fun future =>
      { future with ticket := launched + future.ticket } }

namespace Adaptive

/-- The state, with a past before it. -/
def since (past : Past) (state : Adaptive) : Adaptive :=
  { state with
    pipelines := state.pipelines.map (·.since past.launched)
    switches := past.switches ++ state.switches
    launched := past.launched + state.launched
    underflow := past.underflow || state.underflow }

variable {D : Type} {doubles : Doubles D} {config : AdaptiveConfig D} {past : Past}

/-- A visit does not depend on how futures are numbered. -/
theorem visitEntry_since (doubles : Doubles D) (config : AdaptiveConfig D) (launched : Nat)
    (entry : PipelineEntry) (costs : Costs) (poll : Poll) (ticket : Nat) :
    visitEntry doubles config (entry.since launched) costs poll (launched + ticket) =
      ((visitEntry doubles config entry costs poll ticket).1.since launched,
        (visitEntry doubles config entry costs poll ticket).2) := by
  have state_eq : (entry.since launched).state = entry.state := rfl
  simp only [visitEntry, state_eq]
  cases state : entry.state with
  | warmup =>
      simp only [visitWarmup, PipelineEntry.since]
      cases costs.lookup entry.pipelineName with
      | none => rfl
      | some ns => by_cases positive : 0 < ns <;> simp [positive]
  | monitoring =>
      have same : shouldRespecialize doubles config (entry.since launched) costs =
          shouldRespecialize doubles config entry costs := rfl
      have context : buildConstraintsFromCosts doubles (entry.since launched) costs =
          buildConstraintsFromCosts doubles entry costs := rfl
      simp only [visitMonitoring, same, context]
      by_cases exhausted : config.maxVersions ≤ entry.jitVersions
      · simp [PipelineEntry.since, exhausted]
      · by_cases deviates : shouldRespecialize doubles config entry costs = true <;>
          simp [PipelineEntry.since, exhausted, deviates]
  | specializing =>
      simp only [visitSpecializing, PipelineEntry.since]
      cases held : entry.jitFuture with
      | none => simp [held]
      | some future => rcases poll with _ | _ | ptr <;> simp [held]
  | verifying =>
      simp only [visitVerifying, PipelineEntry.since]
      cases costs.lookup entry.pipelineName with
      | none => rfl
      | some ns =>
          by_cases waits : entry.verifyCount + 1 < requiredCycles config
          · simp [waits]
          · by_cases measured : 0 < entry.aotBaselineNS ∧ 0 < ns
            · by_cases slower : doubles.le config.deoptRatio (doubles.div (doubles.ofUInt64 ns)
                  (doubles.ofUInt64 entry.aotBaselineNS)) = true <;> simp [waits, measured, slower]
            · simp [waits, measured]
  | active =>
      simp only [visitActive, PipelineEntry.since]
      cases costs.lookup entry.pipelineName with
      | none => rfl
      | some ns =>
          by_cases measured : 0 < entry.jitBaselineNS
          · by_cases slower : doubles.lt config.deviationRatio (doubles.div (doubles.ofUInt64 ns)
                (doubles.ofUInt64 entry.jitBaselineNS)) = true <;> simp [measured, slower]
          · simp [measured]

theorem since_getElem? (state : Adaptive) (index : Nat) :
    (state.since past).pipelines[index]? =
      (state.pipelines[index]?).map (·.since past.launched) := by
  simp [since]

theorem perform_since (state : Adaptive) (entry : PipelineEntry) (action : SlotAction) :
    (state.since past).perform (entry.since past.launched) action =
      (state.perform entry action).since past := by
  cases action with
  | keep => rfl
  | install ptr => simp [perform, since, store, PipelineEntry.since]
  | clear => simp [perform, since, store, PipelineEntry.since, Bool.or_assoc]

theorem visit_since (state : Adaptive) (costs : Costs) (index : Nat) (entry : PipelineEntry)
    (poll : Poll) :
    (state.since past).visit doubles config costs index (entry.since past.launched) poll =
      (state.visit doubles config costs index entry poll).since past := by
  have visited := visitEntry_since doubles config past.launched entry costs poll state.launched
  have launched : (state.since past).launched = past.launched + state.launched := rfl
  simp only [visit, launched, visited]
  generalize visitEntry doubles config entry costs poll state.launched = outcome
  obtain ⟨after, action⟩ := outcome
  have place : (entry.since past.launched).state = entry.state := rfl
  have later : (after.since past.launched).state = after.state := rfl
  simp only [perform_since, place, later]
  cases action <;>
    by_cases starts : entry.state = .monitoring ∧ after.state = .specializing <;>
    simp [since, starts, List.map_set, Nat.add_assoc]

theorem forceTarget_since (state : Adaptive) (name : Name) :
    (state.since past).forceTarget config name =
      (state.forceTarget config name).map fun target =>
        (target.1, target.2.since past.launched) := by
  have found : (state.since past).findPipeline name = state.findPipeline name := by
    simp only [findPipeline, since, List.findIdx?_map]
    rfl
  rw [forceTarget, forceTarget, found]
  cases state.findPipeline name with
  | none => rfl
  | some index =>
      simp only [since_getElem?]
      cases state.pipelines[index]? with
      | none => rfl
      | some entry =>
          have in_flight : monitorSpecializationInFlight (entry.since past.launched) =
              monitorSpecializationInFlight entry := by
            simp [monitorSpecializationInFlight, PipelineEntry.since]
          have versions : (entry.since past.launched).jitVersions = entry.jitVersions := rfl
          simp only [Option.map_some, Option.bind_some, in_flight, versions]
          split_ifs <;> rfl

theorem startForce_since (state : Adaptive) (name : Name) (input : ForceInput) (costs : Costs) :
    (state.since past).startForce doubles config name input costs =
      (state.startForce doubles config name input costs).since past := by
  rw [startForce, startForce, forceTarget_since]
  cases state.forceTarget config name with
  | none => rfl
  | some target => rfl

theorem finishForce_since (state : Adaptive) (name : Name) (ptr : Option CodePtr) :
    (state.since past).finishForce config name ptr =
      (state.finishForce config name ptr).since past := by
  rw [finishForce, finishForce, forceTarget_since]
  cases state.forceTarget config name with
  | none => rfl
  | some target =>
      cases ptr with
      | none => rfl
      | some ptr => simp [commitSpecialization, since, store, PipelineEntry.since, List.map_set]

/-- A past changes nothing but the records before. -/
theorem step_since (state : Adaptive) (label : AdaptiveLabel) :
    (state.since past).step doubles config label =
      (state.step doubles config label).map (·.since past) := by
  have monitor : (state.since past).monitor = state.monitor := rfl
  cases label with
  | register mangledName pipelineName jitPtr aotTTICost =>
      have fresh : (∀ entry ∈ (state.since past).pipelines, entry.jitPtr ≠ jitPtr) ↔
          ∀ entry ∈ state.pipelines, entry.jitPtr ≠ jitPtr := by
        simp [since, PipelineEntry.since]
      have slots : (state.since past).slots = state.slots := rfl
      simp only [step, monitor, slots, fresh]
      split_ifs
      · simp [register, since, PipelineEntry.since]
      · rfl
  | sample costs => cases place : state.monitor <;> simp [step, since, place]
  | lock => cases place : state.monitor <;> simp [step, since, place]
  | visit poll =>
      simp only [step, monitor]
      cases place : state.monitor with
      | visiting costs index =>
          simp only [since_getElem?]
          cases state.pipelines[index]? with
          | none => rfl
          | some entry => simp [visit_since]
      | _ => rfl
  | reset => cases place : state.monitor <;> simp [step, since, place]
  | unlock =>
      have length : (state.since past).pipelines.length = state.pipelines.length := by
        simp [since]
      simp only [step, monitor, length]
      cases place : state.monitor with
      | visiting costs index =>
          simp only
          split_ifs <;> rfl
      | _ => rfl
  | forceStart name input costs =>
      simp only [step, monitor, forceSpecialize, forceSpecializeBytes, startForce_since]
      split_ifs
      · rfl
      · cases input <;> rfl
  | forceFinish call ptr =>
      have forced : (state.since past).forced = state.forced := rfl
      simp only [step, monitor, forced, finishForce_since]
      split_ifs
      · rfl
      · cases state.forced[call]? <;> rfl

/-- Every slot that is not null belongs to a registered entry. -/
def SlotsHeld (state : Adaptive) : Prop :=
  ∀ slot, state.slots slot ≠ none → ∃ entry ∈ state.pipelines, entry.jitPtr = slot

/-- Rewriting one entry together with its slot. -/
theorem SlotsHeld.rewrite {state after : Adaptive} (held : SlotsHeld state) {index : Nat}
    {entry fresh : PipelineEntry} {content : Option CodePtr}
    (found : state.pipelines[index]? = some entry) (samePtr : fresh.jitPtr = entry.jitPtr)
    (pipelines : after.pipelines = state.pipelines.set index fresh)
    (slots : after.slots = Function.update state.slots entry.jitPtr content) :
    SlotsHeld after := by
  intro slot live
  have same := map_set_of_eq (·.jitPtr) found samePtr
  have member : slot ∈ state.pipelines.map (·.jitPtr) := by
    by_cases here : slot = entry.jitPtr
    · exact List.mem_map.mpr ⟨entry, List.mem_of_getElem? found, here.symm⟩
    · rw [slots, Function.update_of_ne here] at live
      exact List.mem_map.mpr (held slot live)
  rw [← same, ← pipelines] at member
  exact List.mem_map.mp member

/-- Every step keeps the owners of the slots. -/
theorem SlotsHeld.step {state after : Adaptive} {label : AdaptiveLabel} (held : SlotsHeld state)
    (step : state.step doubles config label = some after) : SlotsHeld after := by
  cases step_move step with
  | register =>
      intro slot live
      obtain ⟨entry, member, same⟩ := held slot live
      exact ⟨entry, List.mem_append_left _ member, same⟩
  | visit _ found =>
      exact held.rewrite found (visitEntry_identity _ state.launched).1 rfl
        (perform_slots state _ _)
  | @forceCommit call ptr _ _ entry _ _ target =>
      have committed : SlotsHeld (state.commitSpecialization _ entry (some ptr)) :=
        held.rewrite (forceTarget_eq_some target).1 (by rfl) rfl rfl
      exact committed
  | sample | lock | reset | unlock | forceStart | forceSkip => exact held

end Adaptive

/-- The adaptive runtime with the life of its monitor thread. -/
structure AdaptiveProcess (D : Type) where
  runtime : Adaptive
  config : AdaptiveConfig D
  initialized : Bool
  shutdown : Bool
  /-- `g_monitorThread` is joinable. -/
  monitorRuns : Bool
  /-- A call of `shutdown` waits for the monitor. -/
  joining : Bool
  /-- The calls of `shutdown` about to swap the entries out. -/
  draining : Nat

/-- The monitor is in `wait_for`. -/
def MonitorPosition.isWaiting : MonitorPosition → Bool
  | .waiting => true
  | .sampled _ | .visiting _ _ | .resetting _ _ => false

/-- The steps of the monitor thread. -/
def AdaptiveLabel.ofMonitor : AdaptiveLabel → Bool
  | .sample _ | .lock | .visit _ | .reset | .unlock => true
  | .register _ _ _ _ | .forceStart _ _ _ | .forceFinish _ _ => false

/-- Steps of a process. -/
inductive ProcessLabel (D : Type) where
  | act (label : AdaptiveLabel)
  | init (config : AdaptiveConfig D)
  /-- The first locked section of `shutdown`. -/
  | beginShutdown
  /-- The monitor returns and `shutdown` joins it. -/
  | joinMonitor
  /-- The last locked section of `shutdown`; the call then only drains futures. -/
  | swapPipelines

/-- The arguments of `topo_adaptive_register`. -/
structure Registration where
  mangledName : Name
  pipelineName : Name
  jitPtr : SlotId
  aotTTICost : UInt64

def Registration.label {D : Type} (registration : Registration) : ProcessLabel D :=
  .act (.register registration.mangledName registration.pipelineName registration.jitPtr
    registration.aotTTICost)

namespace AdaptiveProcess

open Adaptive (installRun twoVersions)

variable {D : Type} (doubles : Doubles D)

/-- The threads may take this step: the monitor runs, and wakes up only to return once
`g_shutdown` is set. -/
def allows (process : AdaptiveProcess D) : AdaptiveLabel → Bool
  | .sample _ => process.monitorRuns && !process.shutdown
  | .lock | .visit _ | .reset | .unlock => process.monitorRuns
  | .register _ _ _ _ | .forceStart _ _ _ | .forceFinish _ _ => true

def init (process : AdaptiveProcess D) (config : AdaptiveConfig D) : Option (AdaptiveProcess D) :=
  if process.initialized then some process
  -- Assigning to a joinable `std::thread` terminates the program.
  else if process.monitorRuns then none
  else some { process with config, initialized := true, shutdown := false, monitorRuns := true }

def beginShutdown (process : AdaptiveProcess D) : AdaptiveProcess D :=
  if process.initialized then
    { process with shutdown := true, initialized := false, joining := true }
  else { process with draining := process.draining + 1 }

def joinMonitor (process : AdaptiveProcess D) : Option (AdaptiveProcess D) :=
  match process.runtime.monitor with
  | .waiting =>
      if process.joining && process.shutdown then
        some { process with
          monitorRuns := false, joining := false, draining := process.draining + 1 }
      else none
  | _ => none

def swapPipelines (process : AdaptiveProcess D) : AdaptiveProcess D :=
  { process with
    runtime := { process.runtime with
      pipelines := [], specializations := 0, deoptimizations := 0, activeJit := 0 }
    draining := process.draining - 1 }

/-- One step of a process; every locked section waits for the monitor's. -/
def step (process : AdaptiveProcess D) : ProcessLabel D → Option (AdaptiveProcess D)
  | .act label =>
      if process.allows label then
        (process.runtime.step doubles process.config label).map fun runtime =>
          { process with runtime }
      else none
  | .init config => if process.runtime.monitor.locked then none else process.init config
  | .beginShutdown =>
      if process.runtime.monitor.locked then none else some process.beginShutdown
  | .joinMonitor => process.joinMonitor
  | .swapPipelines =>
      if process.runtime.monitor.locked = false ∧ 0 < process.draining then
        some process.swapPipelines
      else none

/-- A fresh process; `defaults` is a value-initialized `Config`. -/
def boot (defaults : AdaptiveConfig D) : AdaptiveProcess D where
  runtime := .boot
  config := defaults
  initialized := false
  shutdown := false
  monitorRuns := false
  joining := false
  draining := 0

/-- A process as a machine. -/
def machine (defaults : AdaptiveConfig D) :
    Transition.Machine (AdaptiveProcess D) (ProcessLabel D) where
  initial process := process = boot defaults
  step := step doubles

/-- The process, with a past before it. -/
def since (past : Past) (process : AdaptiveProcess D) : AdaptiveProcess D :=
  { process with runtime := process.runtime.since past }

/-- No registered slot holds a pointer, no forced compile is in flight, and no other call of
`shutdown` or `init` is under way or has returned since. -/
structure Settled (process : AdaptiveProcess D) : Prop where
  slots : ∀ entry ∈ process.runtime.pipelines, process.runtime.slots entry.jitPtr = none
  forced : process.runtime.forced = []
  stopped : process.monitorRuns = false
  alone : process.draining ≤ 1

instance decidableSettled (process : AdaptiveProcess D) : Decidable process.Settled :=
  decidable_of_iff
    ((∀ entry ∈ process.runtime.pipelines, process.runtime.slots entry.jitPtr = none) ∧
      process.runtime.forced = [] ∧ process.monitorRuns = false ∧ process.draining ≤ 1)
    ⟨fun ⟨slots, forced, stopped, alone⟩ => ⟨slots, forced, stopped, alone⟩,
      fun ⟨slots, forced, stopped, alone⟩ => ⟨slots, forced, stopped, alone⟩⟩

/-- Entries are swapped out in a settled process only. -/
def SettledShutdown (process : AdaptiveProcess D) : ProcessLabel D → Prop
  | .swapPipelines => process.Settled
  | _ => True

instance decidableSettledShutdown (process : AdaptiveProcess D) :
    ∀ label, Decidable (SettledShutdown process label)
  | .swapPipelines => inferInstanceAs (Decidable process.Settled)
  | .act _ | .init _ | .beginShutdown | .joinMonitor => inferInstanceAs (Decidable True)

/-- The life of the monitor, and the owners of the slots. -/
structure Ordered (process : AdaptiveProcess D) : Prop where
  held : process.runtime.SlotsHeld
  running : process.initialized = true → process.monitorRuns = true
  joining : process.joining = true → process.monitorRuns = true ∧ process.initialized = false
  idle : process.monitorRuns = false → process.runtime.monitor.isWaiting = true

variable {doubles} {defaults : AdaptiveConfig D} {process after : AdaptiveProcess D}

/-- A step that is not the monitor's leaves its position. -/
theorem monitor_kept {state next : Adaptive} {config : AdaptiveConfig D} {label : AdaptiveLabel}
    (free : label.ofMonitor = false) (step : state.step doubles config label = some next) :
    next.monitor = state.monitor := by
  cases Adaptive.step_move step with
  | register | forceStart | forceSkip => rfl
  | @forceCommit call ptr => rfl
  | sample | lock | visit | reset | unlock => cases free

theorem Ordered.step {label : ProcessLabel D} (ordered : Ordered process)
    (settled : SettledShutdown process label) (step : process.step doubles label = some after) :
    Ordered after := by
  cases label with
  | act label =>
      simp only [AdaptiveProcess.step] at step
      split at step
      · rename_i allowed
        obtain ⟨runtime, moved, rfl⟩ := Option.map_eq_some_iff.mp step
        refine ⟨ordered.held.step moved, ordered.running, ordered.joining, fun stopped => ?_⟩
        have free : label.ofMonitor = false := by
          cases label <;> simp_all [allows, AdaptiveLabel.ofMonitor]
        change runtime.monitor.isWaiting = true
        rw [monitor_kept free moved]
        exact ordered.idle stopped
      · cases step
  | init config =>
      simp only [AdaptiveProcess.step, init] at step
      split_ifs at step with locked initialized runs
      · cases step
        exact ordered
      · cases step
        have unjoined : process.joining = false := by
          cases joining : process.joining with
          | false => rfl
          | true => exact absurd (ordered.joining joining).1 runs
        exact ⟨ordered.held, fun _ => rfl, by simp [unjoined], nofun⟩
  | beginShutdown =>
      simp only [AdaptiveProcess.step] at step
      split_ifs at step
      cases step
      unfold beginShutdown
      split
      · rename_i initialized
        exact ⟨ordered.held, nofun, fun _ => ⟨ordered.running initialized, rfl⟩, ordered.idle⟩
      · exact ⟨ordered.held, ordered.running, ordered.joining, ordered.idle⟩
  | joinMonitor =>
      simp only [AdaptiveProcess.step, joinMonitor] at step
      split at step
      · rename_i waiting
        split_ifs at step with joined
        cases step
        have uninitialized : process.initialized = false :=
          (ordered.joining (Bool.and_eq_true_iff.mp joined).1).2
        refine ⟨ordered.held, by simp [uninitialized], nofun, fun _ => ?_⟩
        simp [waiting, MonitorPosition.isWaiting]
      · cases step
  | swapPipelines =>
      simp only [AdaptiveProcess.step] at step
      split_ifs at step
      cases step
      refine ⟨fun slot live => ?_, ordered.running, ordered.joining, ordered.idle⟩
      obtain ⟨entry, member, rfl⟩ := ordered.held slot live
      exact absurd (settled.slots entry member) live

theorem ordered_of_reachable
    (reach : (machine doubles defaults).Reachable SettledShutdown process) : Ordered process := by
  refine reach.invariant ?_ fun before label after _ ordered settled step =>
    ordered.step settled step
  rintro _ rfl
  exact ⟨fun slot live => absurd rfl live, nofun, nofun, fun _ => rfl⟩

theorem step_since (past : Past) (label : ProcessLabel D) :
    (process.since past).step doubles label = (process.step doubles label).map (·.since past) := by
  cases label with
  | act label =>
      have allowed : (process.since past).allows label = process.allows label := by
        cases label <;> rfl
      simp only [step, allowed]
      split_ifs
      · simp only [since, Adaptive.step_since, Option.map_map]
        rfl
      · rfl
  | init config =>
      by_cases locked : process.runtime.monitor.locked = true <;>
        by_cases initialized : process.initialized = true <;>
        by_cases runs : process.monitorRuns = true <;>
        simp [step, init, since, Adaptive.since, locked, initialized, runs]
  | beginShutdown =>
      by_cases locked : process.runtime.monitor.locked = true <;>
        by_cases initialized : process.initialized = true <;>
        simp [step, beginShutdown, since, Adaptive.since, locked, initialized]
  | joinMonitor =>
      simp only [step, joinMonitor, since, Adaptive.since]
      cases monitor : process.runtime.monitor with
      | waiting =>
          by_cases joined : (process.joining && process.shutdown) = true <;> simp [joined, monitor]
      | _ => rfl
  | swapPipelines =>
      by_cases enabled : process.runtime.monitor.locked = false ∧ 0 < process.draining <;>
        simp [step, swapPipelines, since, Adaptive.since, enabled]

/-- A past changes nothing of a process but the records before. -/
theorem exec_since (past : Past) (labels : List (ProcessLabel D)) :
    (machine doubles defaults).exec (process.since past) labels =
      ((machine doubles defaults).exec process labels).map (·.since past) := by
  induction labels generalizing process with
  | nil => rfl
  | cons label labels ih =>
      simp only [Transition.Machine.exec]
      change (process.since past).step doubles label >>= _ = (process.step doubles label >>= _).map _
      rw [step_since]
      cases process.step doubles label with
      | none => rfl
      | some next => exact ih

/-- Registrations and the `init` after them forget the configuration before. -/
theorem exec_init (idle : process.initialized = false) (config : AdaptiveConfig D)
    (shutdown : Bool) (registrations : List Registration) (chosen : AdaptiveConfig D)
    (labels : List (ProcessLabel D)) :
    (machine doubles defaults).exec { process with config, shutdown }
        (registrations.map Registration.label ++ .init chosen :: labels) =
      (machine doubles defaults).exec process
        (registrations.map Registration.label ++ .init chosen :: labels) := by
  induction registrations generalizing process with
  | nil =>
      have same : ({ process with config, shutdown } : AdaptiveProcess D).step doubles
          (.init chosen) = process.step doubles (.init chosen) := by
        simp [step, init, idle]
      simp only [List.map_nil, List.nil_append, Transition.Machine.exec]
      exact congrArg (· >>= _) same
  | cons registration registrations ih =>
      simp only [List.map_cons, List.cons_append, Transition.Machine.exec, Registration.label]
      change Option.bind _ _ = Option.bind _ _
      have registers (settings : AdaptiveConfig D) : process.runtime.step doubles settings
          (.register registration.mangledName registration.pipelineName registration.jitPtr
            registration.aotTTICost) = process.runtime.step doubles process.config
          (.register registration.mangledName registration.pipelineName registration.jitPtr
            registration.aotTTICost) := rfl
      simp only [machine, step, allows, if_true, registers]
      cases process.runtime.step doubles process.config
          (.register registration.mangledName registration.pipelineName registration.jitPtr
            registration.aotTTICost) with
      | none => rfl
      | some runtime => exact @ih { process with runtime } idle

/-- The swap leaves a settled process as a fresh one is, but for what `init` overwrites. -/
theorem Settled.swapPipelines (settled : process.Settled) (ordered : Ordered process)
    (defaults : AdaptiveConfig D) :
    ∃ past, process.swapPipelines =
      { (boot defaults).since past with
        config := process.config, shutdown := process.shutdown } := by
  have null : process.runtime.slots = fun _ => none := by
    funext slot
    by_contra live
    obtain ⟨entry, member, rfl⟩ := ordered.held slot live
    exact live (settled.slots entry member)
  have waiting := ordered.idle settled.stopped
  have uninitialized : process.initialized = false := by
    simpa [settled.stopped] using mt ordered.running
  have unjoined : process.joining = false := by
    simpa [settled.stopped] using mt fun joining => (ordered.joining joining).1
  have drained : process.draining - 1 = 0 := Nat.sub_eq_zero_of_le settled.alone
  refine ⟨⟨process.runtime.switches, process.runtime.launched, process.runtime.underflow⟩, ?_⟩
  cases monitor : process.runtime.monitor with
  | waiting =>
      simp [AdaptiveProcess.swapPipelines, boot, since, Adaptive.since, Adaptive.boot, null,
        settled.forced, settled.stopped, uninitialized, unjoined, drained, monitor]
  | _ => simp [monitor, MonitorPosition.isWaiting] at waiting

/-- In runs in which `shutdown` finds no live slot, no forced compile in flight and no other
`shutdown` or `init` beside it, it leaves the never-initialized state, and registering and
initializing again behaves in every later run as in a fresh process; the first swap that finds one
of these keeps it. -/
theorem shutdown_restores (doubles : Doubles D) (defaults : AdaptiveConfig D)
    {process after : AdaptiveProcess D}
    (reach : (machine doubles defaults).Reachable SettledShutdown process)
    (step : process.step doubles .swapPipelines = some after) :
    (after.runtime.specializations = 0 ∧ after.runtime.deoptimizations = 0 ∧
        after.runtime.activeJit = 0 ∧ after.runtime.pipelines = []) ∧
      (process.Settled →
        (∀ slot, after.runtime.slots slot = none) ∧
          ∃ past, ∀ (registrations : List Registration) (config : AdaptiveConfig D)
            (labels : List (ProcessLabel D)),
            (machine doubles defaults).exec after
                (registrations.map Registration.label ++ .init config :: labels) =
              ((machine doubles defaults).exec (boot defaults)
                (registrations.map Registration.label ++ .init config :: labels)).map
                (·.since past)) ∧
      (¬ process.Settled →
        (∃ entry ∈ process.runtime.pipelines, after.runtime.slots entry.jitPtr ≠ none) ∨
          after.runtime.forced ≠ [] ∨ after.monitorRuns = true ∨ 0 < after.draining) := by
  have ordered := ordered_of_reachable reach
  simp only [AdaptiveProcess.step] at step
  split_ifs at step
  cases step
  refine ⟨⟨rfl, rfl, rfl, rfl⟩, fun settled => ?_, fun unsettled => ?_⟩
  · obtain ⟨past, restored⟩ := settled.swapPipelines ordered defaults
    refine ⟨fun slot => by rw [restored]; rfl, past, fun registrations config labels => ?_⟩
    rw [restored, ← exec_since]
    exact exec_init rfl _ _ registrations config labels
  · by_contra kept
    simp only [not_or, not_exists, not_and, not_not, not_lt] at kept
    obtain ⟨null, forced, stopped, drained⟩ := kept
    exact unsettled ⟨null, forced, Bool.eq_false_iff.mpr stopped, by
      simpa [AdaptiveProcess.swapPipelines, Nat.sub_eq_zero_iff_le] using drained⟩

/-- The monitor installs a version, finds it slower and clears the slot, and the runtime shuts
down. -/
def clearedRun : List (ProcessLabel Rat) :=
  .init twoVersions :: installRun.map .act ++
    [.act (.sample [(['p'], 30000)]), .act .lock, .act (.visit .notReady), .act .unlock,
      .beginShutdown, .joinMonitor]

theorem shutdown_restores_cleared :
    ∃ process after : AdaptiveProcess Rat,
      (machine .exact twoVersions).Reachable SettledShutdown process ∧
        process.runtime.deoptimizations = 1 ∧ process.runtime.pipelines ≠ [] ∧
        process.step .exact .swapPipelines = some after ∧
        (after.runtime.deoptimizations = 0 ∧ after.runtime.pipelines = []) ∧
        ∀ slot, after.runtime.slots slot = none := by
  obtain ⟨process, reach, ⟨cleared, registered, waits⟩, settled⟩ :=
    ((machine .exact twoVersions).restrict SettledShutdown).exists_reachable
      (fun process => (process.runtime.deoptimizations = 1 ∧ process.runtime.pipelines ≠ [] ∧
        process.runtime.monitor.locked = false ∧ 0 < process.draining) ∧ process.Settled)
      clearedRun rfl (by decide +kernel)
  have step : process.step .exact .swapPipelines = some process.swapPipelines := if_pos waits
  have restored := shutdown_restores .exact twoVersions reach.of_restrict step
  exact ⟨process, _, reach.of_restrict, cleared, registered, step,
    ⟨restored.1.2.1, restored.1.2.2.2⟩, (restored.2.1 settled).1⟩

/-- Shutting down while a version is installed leaves its pointer in the slot. -/
theorem shutdown_keeps_slot :
    ∃ process after : AdaptiveProcess Rat,
      (machine .exact twoVersions).Reachable Transition.Machine.anyStep process ∧
        process.runtime.pipelines.map (·.jitPtr) = [64] ∧
        process.step .exact .swapPipelines = some after ∧
        after.runtime.pipelines = [] ∧ after.runtime.slots 64 = some 7 := by
  obtain ⟨process, reach, registered, live, waits⟩ :=
    (machine .exact twoVersions).exists_reachable
      (fun process => process.runtime.pipelines.map (·.jitPtr) = [64] ∧
        process.runtime.slots 64 = some 7 ∧
        process.runtime.monitor.locked = false ∧ 0 < process.draining)
      (.init twoVersions :: installRun.map .act ++ [.beginShutdown, .joinMonitor]) rfl (by decide)
  exact ⟨process, _, reach, registered, if_pos waits, rfl, live⟩

end AdaptiveProcess
end Runtime
end TopoLlvm
