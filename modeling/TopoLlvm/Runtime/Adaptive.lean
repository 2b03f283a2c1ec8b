import TopoLlvm.Library.Machine
import Mathlib.Data.List.Infix
import Mathlib.Logic.Function.Basic

/-!
# The adaptive runtime

Registered pipelines, the monitor loop and the forced specializations.  The monitor takes its
snapshot of the cost samples without the lock and then visits every entry under `g_mutex`; a
forced specialization drops the lock while it compiles.  Floating-point arithmetic is a parameter.
-/

namespace TopoLlvm
namespace Runtime

/-- A `std::string`. -/
abbrev Name := List Char

/-- The address of a pipeline's dispatch slot. -/
abbrev SlotId := Nat

/-- A non-null code pointer. -/
abbrev CodePtr := Nat

/-- The `double` operations and literals of the monitor. -/
structure Doubles (D : Type) where
  ofUInt64 : UInt64 → D
  mul : D → D → D
  div : D → D → D
  lt : D → D → Bool
  le : D → D → Bool
  one : D
  /-- The literal `0.10`. -/
  coldRatio : D

/-- Exact arithmetic, which `double` agrees with on small whole numbers and their quotients. -/
def Doubles.exact : Doubles Rat where
  ofUInt64 number := number.toNat
  mul left right := left * right
  div left right := left / right
  lt left right := left < right
  le left right := left ≤ right
  one := 1
  coldRatio := 1 / 10

/-- The fields of `topo::adaptive::Config` that the monitor reads. -/
structure AdaptiveConfig (D : Type) where
  maxVersions : UInt32
  minTriggerNS : UInt64
  deviationRatio : D
  deoptRatio : D
  verifyCalls : UInt32

/-- The result of `get_cost_samples`, in the order of the map's iteration. -/
abbrev Costs := List (Name × UInt64)

/-- The part of `topo::jit::Context` that cost data fills. -/
structure JitContext where
  prunedEdges : List (Name × Name)
  params : List (Name × Name)
  deriving DecidableEq

/-- A valid `std::future`; futures are numbered in the order of their launch. -/
structure JitFuture where
  ticket : Nat
  context : JitContext
  deriving DecidableEq

inductive PipelineState where
  | warmup
  | monitoring
  | specializing
  | verifying
  | active
  deriving DecidableEq

/-- A registered pipeline. -/
structure PipelineEntry where
  mangledName : Name
  pipelineName : Name
  jitPtr : SlotId
  aotTTICost : UInt64
  state : PipelineState
  jitVersions : UInt32
  aotBaselineNS : UInt64
  jitBaselineNS : UInt64
  verifyCount : UInt32
  jitFuture : Option JitFuture
  deriving DecidableEq

/-- `std::to_string` of an unsigned number. -/
def toName (number : Nat) : Name := Nat.toDigits 10 number

/-- The part of a cost key after the pipeline's `::`, for the keys of its stages. -/
def stageOf (pipeline key : Name) : Option Name :=
  let stagePrefix := pipeline ++ [':', ':']
  if stagePrefix.isPrefixOf key then some (key.drop stagePrefix.length) else none

section Decisions

variable {D : Type} (doubles : Doubles D) (config : AdaptiveConfig D)

def buildConstraintsFromCosts (entry : PipelineEntry) (costs : Costs) : JitContext :=
  let stageCosts := costs.filterMap fun (name, ns) =>
    (stageOf entry.pipelineName name).map fun stage => (stage, ns)
  if stageCosts.isEmpty then { prunedEdges := [], params := [] }
  else
    let total := stageCosts.foldl (fun sum cost => sum + cost.2) 0
    let mean := doubles.div (doubles.ofUInt64 total)
      (doubles.ofUInt64 (UInt64.ofNat stageCosts.length))
    let threshold := doubles.mul mean doubles.coldRatio
    let cold := stageCosts.filter fun cost => doubles.lt (doubles.ofUInt64 cost.2) threshold
    { prunedEdges := cold.map fun cost => (['*'], cost.1)
      params :=
        ("aot_tti_cost".toList, toName entry.aotTTICost.toNat) ::
          ((costs.lookup entry.pipelineName).map fun ns =>
            ("runtime_cost_ns".toList, toName ns.toNat)).toList }

def shouldRespecialize (entry : PipelineEntry) (costs : Costs) : Bool :=
  match costs.lookup entry.pipelineName with
  | none => false
  | some runtimeNS =>
      if entry.jitVersions = 0 then config.minTriggerNS < runtimeNS
      else if 0 < entry.aotBaselineNS then
        let ratio := doubles.div (doubles.ofUInt64 runtimeNS) (doubles.ofUInt64 entry.aotBaselineNS)
        doubles.lt config.deviationRatio ratio ||
          doubles.lt ratio (doubles.div doubles.one config.deviationRatio)
      else false

/-- What `wait_for(0)` on a future returns, with the value of `get` where it is ready. -/
inductive Poll where
  | notReady
  | ready (ptr : Option CodePtr)
  deriving DecidableEq

/-- What a visit does to the dispatch slot. -/
inductive SlotAction where
  | keep
  | install (ptr : CodePtr)
  | clear
  deriving DecidableEq

/-- Monitoring cycles before a verdict: `ceil(verify_calls / 10)`, at least one. -/
def requiredCycles : UInt32 := max 1 ((config.verifyCalls + 9) / 10)

def visitWarmup (entry : PipelineEntry) (costs : Costs) : PipelineEntry :=
  match costs.lookup entry.pipelineName with
  | none => entry
  | some ns =>
      if 0 < ns then { entry with aotBaselineNS := ns, state := .monitoring } else entry

def visitMonitoring (entry : PipelineEntry) (costs : Costs) (ticket : Nat) : PipelineEntry :=
  if config.maxVersions ≤ entry.jitVersions then entry
  else if shouldRespecialize doubles config entry costs then
    { entry with
      state := .specializing
      jitFuture := some { ticket, context := buildConstraintsFromCosts doubles entry costs } }
  else entry

def visitSpecializing (entry : PipelineEntry) (poll : Poll) : PipelineEntry × SlotAction :=
  match entry.jitFuture, poll with
  | none, _ | some _, .notReady => (entry, .keep)
  | some _, .ready none => ({ entry with jitFuture := none, state := .monitoring }, .keep)
  | some _, .ready (some ptr) =>
      ({ entry with
        jitFuture := none
        jitVersions := entry.jitVersions + 1
        verifyCount := 0
        state := .verifying }, .install ptr)

def visitVerifying (entry : PipelineEntry) (costs : Costs) : PipelineEntry × SlotAction :=
  match costs.lookup entry.pipelineName with
  | none => (entry, .keep)
  | some ns =>
      let measured := { entry with jitBaselineNS := ns, verifyCount := entry.verifyCount + 1 }
      if measured.verifyCount < requiredCycles config then (measured, .keep)
      else if 0 < measured.aotBaselineNS ∧ 0 < measured.jitBaselineNS then
        let improvement := doubles.div (doubles.ofUInt64 measured.jitBaselineNS)
          (doubles.ofUInt64 measured.aotBaselineNS)
        if doubles.le config.deoptRatio improvement then
          ({ measured with state := .monitoring }, .clear)
        else ({ measured with state := .active }, .keep)
      else ({ measured with state := .active }, .keep)

def visitActive (entry : PipelineEntry) (costs : Costs) : PipelineEntry × SlotAction :=
  match costs.lookup entry.pipelineName with
  | none => (entry, .keep)
  | some currentNS =>
      if 0 < entry.jitBaselineNS then
        let ratio := doubles.div (doubles.ofUInt64 currentNS) (doubles.ofUInt64 entry.jitBaselineNS)
        if doubles.lt config.deviationRatio ratio then
          ({ entry with state := .monitoring }, .clear)
        else (entry, .keep)
      else (entry, .keep)

/-- The `switch` of `monitorLoop` for one entry. -/
def visitEntry (entry : PipelineEntry) (costs : Costs) (poll : Poll) (ticket : Nat) :
    PipelineEntry × SlotAction :=
  match entry.state with
  | .warmup => (visitWarmup entry costs, .keep)
  | .monitoring => (visitMonitoring doubles config entry costs ticket, .keep)
  | .specializing => visitSpecializing entry poll
  | .verifying => visitVerifying doubles config entry costs
  | .active => visitActive doubles config entry costs

end Decisions

/-- The two ends of a variant switch. -/
inductive Variant where
  | aot
  | jit
  deriving DecidableEq

/-- A record of `emitVariantSwitch`. -/
structure VariantSwitch where
  source : Variant
  target : Variant
  subject : Name
  deriving DecidableEq

/-- Where the monitor thread stands. -/
inductive MonitorPosition where
  /-- In `wait_for` on `g_cv`. -/
  | waiting
  /-- `get_cost_samples` has returned; the lock is not taken yet. -/
  | sampled (costs : Costs)
  /-- Under the lock, about to visit an entry. -/
  | visiting (costs : Costs) (index : Nat)
  /-- Under the lock, about to reset the samples of an entry just installed. -/
  | resetting (costs : Costs) (index : Nat)

/-- The monitor holds `g_mutex`. -/
def MonitorPosition.locked : MonitorPosition → Bool
  | .waiting | .sampled _ => false
  | .visiting _ _ | .resetting _ _ => true

/-- The input of a forced compile: the pipeline's module or the caller's bytes. -/
inductive ForceInput where
  | pipeline
  | bytes (irBytes : List UInt8) (metaJson : Name)
  deriving DecidableEq

/-- A forced specialization whose compile runs without the lock. -/
structure ForcedCompile where
  name : Name
  input : ForceInput
  context : JitContext
  deriving DecidableEq

/-- The shared state of the adaptive runtime, its threads' positions and its records. -/
structure Adaptive where
  slots : SlotId → Option CodePtr
  pipelines : List PipelineEntry
  specializations : UInt32
  deoptimizations : UInt32
  activeJit : UInt32
  monitor : MonitorPosition
  forced : List ForcedCompile
  /-- The records of `emitVariantSwitch`, in order. -/
  switches : List VariantSwitch
  /-- Ghost: futures launched by the monitor. -/
  launched : Nat
  /-- Ghost: `g_activeJit` was decremented at zero. -/
  underflow : Bool

/-- Steps of registration, of the monitor and of forced specializations. -/
inductive AdaptiveLabel where
  | register (mangledName pipelineName : Name) (jitPtr : SlotId) (aotTTICost : UInt64)
  /-- The monitor wakes up and queries the cost samples. -/
  | sample (costs : Costs)
  | lock
  /-- The monitor visits the next entry. -/
  | visit (poll : Poll)
  /-- `reset_cost_samples` after an installation. -/
  | reset
  | unlock
  /-- The first locked section of `force_specialize` or `force_specialize_bytes`. -/
  | forceStart (name : Name) (input : ForceInput) (costs : Costs)
  /-- A forced compile returns and its second locked section runs. -/
  | forceFinish (call : Nat) (ptr : Option CodePtr)

namespace Adaptive

variable {D : Type} (doubles : Doubles D) (config : AdaptiveConfig D)

/-- Store a dispatch slot. -/
def store (state : Adaptive) (slot : SlotId) (ptr : Option CodePtr) : Adaptive :=
  { state with slots := Function.update state.slots slot ptr }

/-- Carry out a slot action of the monitor, with its counters and its record. -/
def perform (state : Adaptive) (entry : PipelineEntry) : SlotAction → Adaptive
  | .keep => state
  | .install ptr =>
      { state.store entry.jitPtr (some ptr) with
        specializations := state.specializations + 1
        activeJit := state.activeJit + 1
        switches := state.switches ++
          [{ source := .aot, target := .jit, subject := entry.pipelineName }] }
  | .clear =>
      { state.store entry.jitPtr none with
        deoptimizations := state.deoptimizations + 1
        activeJit := state.activeJit - 1
        underflow := state.underflow || state.activeJit == 0
        switches := state.switches ++
          [{ source := .jit, target := .aot, subject := entry.pipelineName }] }

/-- The monitor's visit of the entry at `index`. -/
def visit (state : Adaptive) (costs : Costs) (index : Nat) (entry : PipelineEntry) (poll : Poll) :
    Adaptive :=
  let (visited, action) := visitEntry doubles config entry costs poll state.launched
  { state.perform entry action with
    pipelines := state.pipelines.set index visited
    launched := if entry.state = .monitoring ∧ visited.state = .specializing then
      state.launched + 1 else state.launched
    monitor := match action with
      | .install _ => .resetting costs index
      | _ => .visiting costs (index + 1) }

/-- The index of the entry that `findPipeline` returns. -/
def findPipeline (state : Adaptive) (name : Name) : Option Nat :=
  state.pipelines.findIdx? (·.pipelineName = name)

def monitorSpecializationInFlight (entry : PipelineEntry) : Bool :=
  entry.state = .specializing ∧ entry.jitFuture.isSome

def commitSpecialization (state : Adaptive) (index : Nat) (entry : PipelineEntry) :
    Option CodePtr → Adaptive
  | none => state
  | some ptr =>
      { state.store entry.jitPtr (some ptr) with
        pipelines := state.pipelines.set index
          { entry with jitVersions := entry.jitVersions + 1, state := .active }
        specializations := state.specializations + 1
        activeJit := if entry.state = .active then state.activeJit else state.activeJit + 1
        switches := state.switches ++
          [{ source := .aot, target := .jit, subject := entry.pipelineName }] }

/-- The entry on which a forced specialization may go on. -/
def forceTarget (state : Adaptive) (name : Name) : Option (Nat × PipelineEntry) :=
  match state.findPipeline name with
  | none => none
  | some index =>
      state.pipelines[index]?.bind fun entry =>
        if config.maxVersions ≤ entry.jitVersions then none
        else if monitorSpecializationInFlight entry then none
        else some (index, entry)

/-- The first locked section of both forced specializations. -/
def startForce (state : Adaptive) (name : Name) (input : ForceInput) (costs : Costs) : Adaptive :=
  match state.forceTarget config name with
  | none => state
  | some (_, entry) =>
      { state with
        forced := state.forced ++
          [{ name, input, context := buildConstraintsFromCosts doubles entry costs }] }

/-- The second locked section of both forced specializations. -/
def finishForce (state : Adaptive) (name : Name) (ptr : Option CodePtr) : Adaptive :=
  match state.forceTarget config name with
  | none => state
  | some (index, entry) => state.commitSpecialization index entry ptr

def forceSpecialize (state : Adaptive) (name : Name) (costs : Costs) : Adaptive :=
  state.startForce doubles config name .pipeline costs

def forceSpecializeBytes (state : Adaptive) (name : Name) (irBytes : List UInt8) (metaJson : Name)
    (costs : Costs) : Adaptive :=
  state.startForce doubles config name (.bytes irBytes metaJson) costs

def register (state : Adaptive) (mangledName pipelineName : Name) (jitPtr : SlotId)
    (aotTTICost : UInt64) : Adaptive :=
  { state with
    pipelines := state.pipelines ++
      [{ mangledName, pipelineName, jitPtr, aotTTICost
         state := .warmup
         jitVersions := 0
         aotBaselineNS := 0
         jitBaselineNS := 0
         verifyCount := 0
         jitFuture := none }] }

/-- One step of the adaptive runtime; each slot is null when it is registered, once. -/
def step (state : Adaptive) : AdaptiveLabel → Option Adaptive
  | .register mangledName pipelineName jitPtr aotTTICost =>
      if state.monitor.locked = false ∧ state.slots jitPtr = none ∧
          ∀ entry ∈ state.pipelines, entry.jitPtr ≠ jitPtr then
        some (state.register mangledName pipelineName jitPtr aotTTICost)
      else none
  | .sample costs =>
      match state.monitor with
      | .waiting => some { state with monitor := .sampled costs }
      | _ => none
  | .lock =>
      match state.monitor with
      | .sampled costs => some { state with monitor := .visiting costs 0 }
      | _ => none
  | .visit poll =>
      match state.monitor with
      | .visiting costs index =>
          state.pipelines[index]?.map fun entry =>
            state.visit doubles config costs index entry poll
      | _ => none
  | .reset =>
      match state.monitor with
      | .resetting costs index => some { state with monitor := .visiting costs (index + 1) }
      | _ => none
  | .unlock =>
      match state.monitor with
      | .visiting _ index =>
          if state.pipelines.length ≤ index then some { state with monitor := .waiting } else none
      | _ => none
  | .forceStart name input costs =>
      if state.monitor.locked then none
      else match input with
        | .pipeline => some (state.forceSpecialize doubles config name costs)
        | .bytes irBytes metaJson =>
            some (state.forceSpecializeBytes doubles config name irBytes metaJson costs)
  | .forceFinish call ptr =>
      if state.monitor.locked then none
      else state.forced[call]?.map fun compile =>
        { state.finishForce config compile.name ptr with forced := state.forced.eraseIdx call }

/-- Nothing is registered and every slot is null. -/
def boot : Adaptive where
  slots _ := none
  pipelines := []
  specializations := 0
  deoptimizations := 0
  activeJit := 0
  monitor := .waiting
  forced := []
  switches := []
  launched := 0
  underflow := false

/-- The adaptive runtime under a fixed configuration as a machine. -/
def machine : Transition.Machine Adaptive AdaptiveLabel where
  initial state := state = boot
  step := step doubles config

/-! ## What one step can do -/

/-- The possible effects of one step, with the guards of each. -/
inductive Move (state : Adaptive) : AdaptiveLabel → Adaptive → Prop
  | register {mangledName pipelineName : Name} {jitPtr : SlotId} {aotTTICost : UInt64} :
      state.monitor.locked = false → state.slots jitPtr = none →
      (∀ entry ∈ state.pipelines, entry.jitPtr ≠ jitPtr) →
      Move state (.register mangledName pipelineName jitPtr aotTTICost)
        (state.register mangledName pipelineName jitPtr aotTTICost)
  | sample {costs : Costs} : state.monitor = .waiting →
      Move state (.sample costs) { state with monitor := .sampled costs }
  | lock {costs : Costs} : state.monitor = .sampled costs →
      Move state .lock { state with monitor := .visiting costs 0 }
  | visit {costs : Costs} {index : Nat} {entry : PipelineEntry} {poll : Poll} :
      state.monitor = .visiting costs index → state.pipelines[index]? = some entry →
      Move state (.visit poll) (state.visit doubles config costs index entry poll)
  | reset {costs : Costs} {index : Nat} : state.monitor = .resetting costs index →
      Move state .reset { state with monitor := .visiting costs (index + 1) }
  | unlock {costs : Costs} {index : Nat} : state.monitor = .visiting costs index →
      state.pipelines.length ≤ index → Move state .unlock { state with monitor := .waiting }
  | forceStart {name : Name} {input : ForceInput} {costs : Costs} (forced : List ForcedCompile) :
      state.monitor.locked = false → Move state (.forceStart name input costs) { state with forced }
  | forceSkip {call : Nat} {ptr : Option CodePtr} {compile : ForcedCompile} :
      state.monitor.locked = false → state.forced[call]? = some compile →
      state.forceTarget config compile.name = none ∨ ptr = none →
      Move state (.forceFinish call ptr) { state with forced := state.forced.eraseIdx call }
  | forceCommit {call : Nat} {ptr : CodePtr} {compile : ForcedCompile} {index : Nat}
      {entry : PipelineEntry} : state.monitor.locked = false →
      state.forced[call]? = some compile →
      state.forceTarget config compile.name = some (index, entry) →
      Move state (.forceFinish call (some ptr))
        { state.commitSpecialization index entry (some ptr) with
          forced := state.forced.eraseIdx call }

variable {doubles config}

theorem startForce_eq (state : Adaptive) (name : Name) (input : ForceInput) (costs : Costs) :
    ∃ forced, state.startForce doubles config name input costs = { state with forced } := by
  rw [startForce]
  split
  · exact ⟨state.forced, rfl⟩
  · exact ⟨_, rfl⟩

/-- Every enabled label performs one of the moves. -/
theorem step_move {state after : Adaptive} {label : AdaptiveLabel}
    (step : state.step doubles config label = some after) :
    state.Move doubles config label after := by
  cases label with
  | register mangledName pipelineName jitPtr aotTTICost =>
      simp only [Adaptive.step] at step
      split at step <;> cases step
      rename_i fresh
      exact .register fresh.1 fresh.2.1 fresh.2.2
  | sample costs =>
      simp only [Adaptive.step] at step
      split at step <;> cases step
      exact .sample ‹_›
  | lock =>
      simp only [Adaptive.step] at step
      split at step <;> cases step
      exact .lock ‹_›
  | visit poll =>
      simp only [Adaptive.step] at step
      split at step
      · obtain ⟨entry, found, rfl⟩ := Option.map_eq_some_iff.mp step
        exact .visit ‹_› found
      · cases step
  | reset =>
      simp only [Adaptive.step] at step
      split at step <;> cases step
      exact .reset ‹_›
  | unlock =>
      simp only [Adaptive.step] at step
      split at step
      · split at step <;> cases step
        exact .unlock ‹_› ‹_›
      · cases step
  | forceStart name input costs =>
      obtain ⟨forced, started⟩ := state.startForce_eq name input costs
      simp only [Adaptive.step, forceSpecialize, forceSpecializeBytes] at step
      split at step
      · cases step
      · rename_i free
        split at step <;> cases step <;>
          exact started ▸ .forceStart forced (Bool.eq_false_iff.mpr free)
  | forceFinish call ptr =>
      simp only [Adaptive.step] at step
      split at step
      · cases step
      · rename_i free
        have free := Bool.eq_false_iff.mpr free
        obtain ⟨compile, there, rfl⟩ := Option.map_eq_some_iff.mp step
        cases target : state.forceTarget config compile.name with
        | none =>
            simp only [finishForce, target]
            exact .forceSkip free there (.inl target)
        | some found =>
            cases ptr with
            | none =>
                simp only [finishForce, target]
                exact .forceSkip free there (.inr rfl)
            | some ptr =>
                simp only [finishForce, target]
                exact .forceCommit free there target

end Adaptive
end Runtime
end TopoLlvm
