import TopoLlvm.Runtime.CostSamples

/-!
# Dispatch, measurement and monitoring composed

`AdaptiveDispatchPass` gives every pipeline function a dispatch slot, an entry block that loads it
and a measurement around the ahead-of-time body.  Here any number of threads run such functions
while the monitor works on the averages of their measurements.  A pipeline function is identified
with its slot.
-/

namespace TopoLlvm
namespace Runtime

abbrev ThreadId := Nat

/-- Where a call of an instrumented function stands. -/
inductive DispatchPoint where
  /-- Before the acquire load of the slot. -/
  | entry
  /-- The slot was null; before `topo_cost_begin`. -/
  | aotEntry
  /-- After `topo_cost_begin`. -/
  | aotBody
  /-- In the tail call of the pointer that was loaded. -/
  | jitPath (ptr : CodePtr)
  deriving DecidableEq

/-- A call of an instrumented function. -/
structure Activation where
  func : SlotId
  point : DispatchPoint
  deriving DecidableEq

/-- The execution that records a measurement: of the ahead-of-time body, or through a pointer. -/
structure Execution where
  func : SlotId
  variant : Option CodePtr
  deriving DecidableEq

/-- Ghost: the monitor has used an average as a baseline. -/
structure BaselineUse where
  baseline : Variant
  pipelineName : Name
  /-- The content of the slot at the time of the use. -/
  installed : Option CodePtr
  origins : List Execution
  deriving DecidableEq

/-- The whole system. -/
structure Dispatch where
  adaptive : Adaptive
  /-- `g_instrument`. -/
  instrument : Bool
  clock : Nat
  /-- The calls in progress on a thread, the innermost first. -/
  calls : ThreadId → List Activation
  costs : ThreadId → ThreadCosts Execution
  /-- `g_tls_registrations`. -/
  registrations : List ThreadId
  /-- Ghost: who recorded the averages of the monitor's snapshot. -/
  origins : Name → List Execution
  /-- Ghost: the uses of averages as baselines, in order. -/
  uses : List BaselineUse

/-- Steps of the monitor, of its clients and of the threads that run pipelines. -/
inductive DispatchLabel where
  /-- The constructor that the pass creates for a function. -/
  | register (mangledName : Name) (func : SlotId) (aotTTICost : UInt64)
  | sample
  | lock
  | visit (poll : Poll)
  | reset
  | unlock
  | forceStart (name : Name) (input : ForceInput)
  | forceFinish (call : Nat) (ptr : Option CodePtr)
  /-- `init` with another configuration. -/
  | configure (instrument : Bool)
  | tick (ns : Nat)
  /-- A worker registers its samples before it runs tasks. -/
  | enrol (thread : ThreadId)
  | exit (thread : ThreadId)
  | call (thread : ThreadId) (func : SlotId)
  /-- The acquire load and its branch. -/
  | load (thread : ThreadId)
  | costBegin (thread : ThreadId)
  /-- The innermost call returns, from the ahead-of-time body through `topo_cost_end`. -/
  | leave (thread : ThreadId)
  /-- The innermost call is left by an exception. -/
  | unwind (thread : ThreadId)
  deriving DecidableEq

/-- The entry whose samples the monitor is about to reset. -/
def MonitorPosition.resets : MonitorPosition → Option Nat
  | .resetting _ index => some index
  | _ => none

/-- The snapshot that the monitor works on. -/
def MonitorPosition.snapshot : MonitorPosition → Costs
  | .waiting => []
  | .sampled costs | .visiting costs _ | .resetting costs _ => costs

namespace Dispatch

variable {D : Type} (doubles : Doubles D) (config : AdaptiveConfig D)
  (qualifiedName : SlotId → Name)

/-- The maps that `g_tls_registrations` points to. -/
def maps (state : Dispatch) : List (SampleMap Execution) :=
  state.registrations.map fun thread => (state.costs thread).samples

/-- `register_tls_samples` on a thread. -/
def enrolled (state : Dispatch) (thread : ThreadId) : List ThreadId :=
  if thread ∈ state.registrations then state.registrations
  else state.registrations ++ [thread]

/-- The baselines that the monitor's next visit takes from its snapshot. -/
def baselineUses (state : Dispatch) : List BaselineUse :=
  match state.adaptive.monitor with
  | .visiting costs index =>
      match state.adaptive.pipelines[index]? with
      | none => []
      | some entry =>
          let taken (baseline : Variant) : BaselineUse :=
            { baseline
              pipelineName := entry.pipelineName
              installed := state.adaptive.slots entry.jitPtr
              origins := state.origins entry.pipelineName }
          match entry.state, costs.lookup entry.pipelineName with
          | .warmup, some ns => if 0 < ns then [taken .aot] else []
          | .verifying, some _ => [taken .jit]
          | _, _ => []
  | _ => []

/-- The scoped `reset_cost_samples` over all registered threads. -/
def resetSamples (state : Dispatch) (name : Name) : Dispatch :=
  { state with
    costs := fun thread =>
      if thread ∈ state.registrations then
        { state.costs thread with
          samples := resetCostSamples (state.costs thread).samples name }
      else state.costs thread }

/-- A thread is in its own code or in the body of a pipeline, from where it may call another. -/
def mayCall : List Activation → Bool
  | [] => true
  | activation :: _ =>
      match activation.point with
      | .aotBody | .jitPath _ => true
      | .entry | .aotEntry => false

/-- A step of the adaptive runtime within the system. -/
def adapt (state : Dispatch) (label : AdaptiveLabel) : Option Dispatch :=
  (state.adaptive.step doubles config label).map fun next => { state with adaptive := next }

def step (state : Dispatch) : DispatchLabel → Option Dispatch
  | .register mangledName func aotTTICost =>
      state.adapt doubles config (.register mangledName (qualifiedName func) func aotTTICost)
  | .sample =>
      (state.adapt doubles config (.sample (getCostSamples state.maps))).map fun next =>
        { next with origins := sampleOrigins state.maps }
  | .lock => state.adapt doubles config .lock
  | .visit poll =>
      (state.adapt doubles config (.visit poll)).map fun next =>
        { next with uses := state.uses ++ state.baselineUses }
  | .reset =>
      (state.adaptive.monitor.resets.bind (state.adaptive.pipelines[·]?)).bind fun entry =>
        (state.adapt doubles config .reset).map (·.resetSamples entry.pipelineName)
  | .unlock => state.adapt doubles config .unlock
  | .forceStart name input =>
      state.adapt doubles config (.forceStart name input (getCostSamples state.maps))
  | .forceFinish call ptr => state.adapt doubles config (.forceFinish call ptr)
  | .configure instrument => some { state with instrument }
  | .tick ns => some { state with clock := state.clock + ns }
  | .enrol thread => some { state with registrations := state.enrolled thread }
  | .exit thread =>
      if state.calls thread = [] then
        some { state with
          costs := Function.update state.costs thread .fresh
          registrations := state.registrations.filter (· ≠ thread) }
      else none
  | .call thread func =>
      if mayCall (state.calls thread) then
        some { state with
          calls := Function.update state.calls thread
            ({ func, point := .entry } :: state.calls thread) }
      else none
  | .load thread =>
      match state.calls thread with
      | ⟨func, .entry⟩ :: rest =>
          let point := match state.adaptive.slots func with
            | none => DispatchPoint.aotEntry
            | some ptr => .jitPath ptr
          some { state with
            calls := Function.update state.calls thread ({ func, point } :: rest) }
      | _ => none
  | .costBegin thread =>
      match state.calls thread with
      | ⟨func, .aotEntry⟩ :: rest =>
          some { state with
            calls := Function.update state.calls thread ({ func, point := .aotBody } :: rest)
            costs := Function.update state.costs thread
              ((state.costs thread).costBegin state.instrument (qualifiedName func) state.clock)
            registrations :=
              if state.instrument then state.enrolled thread else state.registrations }
      | _ => none
  | .leave thread =>
      match state.calls thread with
      | ⟨func, .aotBody⟩ :: rest =>
          some { state with
            calls := Function.update state.calls thread rest
            costs := Function.update state.costs thread
              ((state.costs thread).costEnd state.instrument (qualifiedName func) state.clock
                { func, variant := none }) }
      -- The pass puts no `topo_cost_end` before the return of `pe_done`.
      | ⟨_, .jitPath _⟩ :: rest =>
          some { state with calls := Function.update state.calls thread rest }
      | _ => none
  | .unwind thread =>
      match state.calls thread with
      | ⟨_, .aotBody⟩ :: rest | ⟨_, .jitPath _⟩ :: rest =>
          some { state with calls := Function.update state.calls thread rest }
      | _ => none

/-- No pipeline is registered, and no thread has measured anything. -/
def boot (instrument : Bool) : Dispatch where
  adaptive := .boot
  instrument
  clock := 0
  calls _ := []
  costs _ := .fresh
  registrations := []
  origins _ := []
  uses := []

/-- The system as a machine. -/
def machine : Transition.Machine Dispatch DispatchLabel where
  initial state := ∃ instrument, state = boot instrument
  step := step doubles config qualifiedName

variable {doubles config} in
theorem adaptive_of_adapt {state next : Dispatch} {label : AdaptiveLabel}
    (taken : state.adapt doubles config label = some next) :
    state.adaptive.step doubles config label = some next.adaptive := by
  obtain ⟨adaptive, stepped, rfl⟩ := Option.map_eq_some_iff.mp taken
  exact stepped

/-- Every step of the system is a step of the adaptive runtime or leaves it alone. -/
def simulation : Transition.Simulation (machine doubles config qualifiedName)
    (Adaptive.machine doubles config) where
  view := adaptive
  initial := by
    rintro state ⟨instrument, rfl⟩
    rfl
  step before label after _ step := by
    cases label with
    | register mangledName func aotTTICost | lock | unlock | forceStart name input
    | forceFinish call ptr =>
        exact .inr ⟨_, adaptive_of_adapt step⟩
    | sample =>
        obtain ⟨next, taken, rfl⟩ := Option.map_eq_some_iff.mp step
        exact .inr ⟨.sample (getCostSamples before.maps), adaptive_of_adapt taken⟩
    | visit poll =>
        obtain ⟨next, taken, rfl⟩ := Option.map_eq_some_iff.mp step
        exact .inr ⟨.visit poll, adaptive_of_adapt taken⟩
    | reset =>
        obtain ⟨entry, -, step⟩ := Option.bind_eq_some_iff.mp step
        obtain ⟨next, taken, rfl⟩ := Option.map_eq_some_iff.mp step
        exact .inr ⟨.reset, adaptive_of_adapt taken⟩
    | configure instrument | tick ns | enrol thread =>
        cases step
        exact .inl rfl
    | exit thread | call thread func =>
        simp only [machine, Dispatch.step] at step
        split at step <;> cases step
        exact .inl rfl
    | load thread | costBegin thread | leave thread | unwind thread =>
        simp only [machine, Dispatch.step] at step
        split at step <;> cases step <;> exact .inl rfl

end Dispatch
end Runtime
end TopoLlvm
