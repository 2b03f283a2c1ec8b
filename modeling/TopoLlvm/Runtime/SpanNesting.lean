import TopoLlvm.Library.Machine
import TopoLlvm.Runtime.EventLines
import Mathlib.Data.Rat.Defs
import Mathlib.Algebra.Order.Ring.Unbundled.Rat
import Mathlib.Logic.Function.Basic

/-!
# Spans across tracing windows

Each thread keeps a stack of the spans that it began while tracing was on.  A span that begins
while tracing is off is not pushed, but its end pops all the same.
-/

namespace TopoLlvm
namespace Runtime

/-- An entry of `t_spanStack`. -/
structure SpanEntry where
  name : CString
  start : Int64
  sampled : Bool
  deriving DecidableEq

/-- A span that a thread has begun and not ended. -/
structure OpenSpan where
  name : CString
  start : Int64
  /-- The sampling decision, where the begin was recorded. -/
  decision : Option Bool
  deriving DecidableEq

/-- The stacks and the flag of the tracing runtime, for threads `T`. -/
structure Tracing (T : Type) where
  initialized : Bool
  samplingRate : Rat
  spanStack : T → List SpanEntry
  /-- Ghost: the open spans of each thread, innermost first. -/
  nesting : T → List OpenSpan

/-- Calls into the tracing runtime; a thread ends only spans that it has begun. -/
inductive TraceCall (T : Type) where
  | spanBegin (thread : T) (name : CString) (now : Int64) (draw : Rat)
  | spanEnd (thread : T) (now : Int64)
  | init (samplingRate : Rat)
  | shutdown

/-- The record of a span, as `emitSpan` is told it. -/
def spanRecord (name : CString) (start now : Int64) (threadId : UInt64) : SpanData CString where
  name := name
  durationNs := (now - start).toUInt64
  threadId := threadId

namespace Tracing

variable {T : Type} [DecidableEq T] (getThreadId : T → UInt64)

/-- `draw` is the number that the thread's generator returns. -/
def shouldSample (state : Tracing T) (draw : Rat) : Bool :=
  if 1 ≤ state.samplingRate then true
  else if state.samplingRate ≤ 0 then false
  else draw < state.samplingRate

def setStack (state : Tracing T) (thread : T) (stack : List SpanEntry) : Tracing T :=
  { state with spanStack := Function.update state.spanStack thread stack }

def setNesting (state : Tracing T) (thread : T) (nesting : List OpenSpan) : Tracing T :=
  { state with nesting := Function.update state.nesting thread nesting }

def spanBegin (state : Tracing T) (thread : T) (name : CString) (now : Int64) (draw : Rat) :
    Tracing T :=
  if state.initialized then
    state.setStack thread
      ({ name, start := now, sampled := state.shouldSample draw } :: state.spanStack thread)
  else state

/-- The state after an end, and the record that it emits. -/
def spanEnd (state : Tracing T) (thread : T) (now : Int64) :
    Tracing T × Option (SpanData CString) :=
  if state.initialized then
    match state.spanStack thread with
    | [] => (state, none)
    | entry :: rest =>
        (state.setStack thread rest,
          if entry.sampled then some (spanRecord entry.name entry.start now (getThreadId thread))
          else none)
  else (state.setStack thread (state.spanStack thread).tail, none)

def init (state : Tracing T) (samplingRate : Rat) : Tracing T :=
  if state.initialized then state else { state with initialized := true, samplingRate }

def shutdown (state : Tracing T) : Tracing T := { state with initialized := false }

/-- One call, with the nesting of the spans beside it. -/
def step (state : Tracing T) : TraceCall T → Option (Tracing T)
  | .spanBegin thread name now draw =>
      let decision := if state.initialized then some (state.shouldSample draw) else none
      some ((state.spanBegin thread name now draw).setNesting thread
        ({ name, start := now, decision } :: state.nesting thread))
  | .spanEnd thread now =>
      match state.nesting thread with
      | [] => none
      | _ :: rest => some ((state.spanEnd getThreadId thread now).1.setNesting thread rest)
  | .init samplingRate => some (state.init samplingRate)
  | .shutdown => some state.shutdown

def boot : Tracing T where
  initialized := false
  samplingRate := 1
  spanStack _ := []
  nesting _ := []

def machine : Transition.Machine (Tracing T) (TraceCall T) where
  initial state := state = boot
  step := step getThreadId

/-- The record that the end of a span should emit: its own, if its begin was recorded and sampled
and tracing is on. -/
def ownRecord (state : Tracing T) (thread : T) (span : OpenSpan) (now : Int64) :
    Option (SpanData CString) :=
  if state.initialized ∧ span.decision = some true then
    some (spanRecord span.name span.start now (getThreadId thread))
  else none

/-- Every end that may come next emits the record of the span that it closes, or nothing. -/
def OwnRecords (state : Tracing T) : Prop :=
  ∀ thread span rest now, state.nesting thread = span :: rest →
    (state.spanEnd getThreadId thread now).2 = state.ownRecord getThreadId thread span now

/-- While tracing is off, no span begins inside a recorded and sampled one of its thread. -/
def BeginsOutside (state : Tracing T) : TraceCall T → Prop
  | .spanBegin thread _ _ _ =>
      state.initialized = false → ∀ entry ∈ state.spanStack thread, entry.sampled = false
  | .spanEnd _ _ | .init _ | .shutdown => True

instance decidableBeginsOutside (state : Tracing T) :
    ∀ call, Decidable (BeginsOutside state call)
  | .spanBegin thread _ _ _ => inferInstanceAs (Decidable (state.initialized = false →
      ∀ entry ∈ state.spanStack thread, entry.sampled = false))
  | .spanEnd _ _ | .init _ | .shutdown => inferInstanceAs (Decidable True)

/-! ## Stacks and nestings -/

/-- The span that an entry was pushed for. -/
def openOf (entry : SpanEntry) : OpenSpan :=
  { name := entry.name, start := entry.start, decision := some entry.sampled }

/-- The innermost spans are those of the uppermost entries; what is below on either side emits
nothing. -/
def Aligned (stack : List SpanEntry) (nesting : List OpenSpan) : Prop :=
  ∃ entries lower outer, stack = entries ++ lower ∧ nesting = entries.map openOf ++ outer ∧
    (∀ entry ∈ lower, entry.sampled = false) ∧ ∀ span ∈ outer, span.decision ≠ some true

theorem Aligned.push {stack : List SpanEntry} {nesting : List OpenSpan}
    (aligned : Aligned stack nesting) (entry : SpanEntry) :
    Aligned (entry :: stack) (openOf entry :: nesting) := by
  obtain ⟨entries, lower, outer, rfl, rfl, silent⟩ := aligned
  exact ⟨entry :: entries, lower, outer, rfl, rfl, silent⟩

/-- A span that is not pushed emits nothing, and so does all the stack. -/
theorem Aligned.skip {stack : List SpanEntry} {nesting : List OpenSpan}
    (aligned : Aligned stack nesting) (outside : ∀ entry ∈ stack, entry.sampled = false)
    {span : OpenSpan} (unrecorded : span.decision = none) : Aligned stack (span :: nesting) := by
  obtain ⟨entries, lower, outer, rfl, rfl, -, silent⟩ := aligned
  refine ⟨[], entries ++ lower, _, rfl, rfl, outside, fun other member => ?_⟩
  rcases List.mem_cons.mp member with rfl | member
  · simp [unrecorded]
  · rcases List.mem_append.mp member with inner | inner
    · obtain ⟨entry, inside, rfl⟩ := List.mem_map.mp inner
      simp [openOf, outside entry (List.mem_append_left _ inside)]
    · exact silent other inner

/-- Both sides go back together, or both are silent. -/
theorem Aligned.pop {stack : List SpanEntry} {span : OpenSpan} {rest : List OpenSpan}
    (aligned : Aligned stack (span :: rest)) :
    Aligned stack.tail rest ∧
      ((∃ entry, stack.head? = some entry ∧ openOf entry = span) ∨
        (∀ entry ∈ stack.head?, entry.sampled = false) ∧ span.decision ≠ some true) := by
  obtain ⟨entries, lower, outer, rfl, shape, quiet, silent⟩ := aligned
  cases entries with
  | cons entry entries =>
      obtain ⟨rfl, rfl⟩ := List.cons.inj shape
      exact ⟨⟨entries, lower, outer, rfl, rfl, quiet, silent⟩, .inl ⟨entry, rfl, rfl⟩⟩
  | nil =>
      obtain rfl : outer = span :: rest := shape.symm
      refine ⟨⟨[], lower.tail, rest, rfl, rfl,
        fun entry member => quiet entry (List.mem_of_mem_tail member),
        fun other member => silent other (List.mem_cons_of_mem _ member)⟩, .inr ⟨?_, ?_⟩⟩
      · exact fun entry member => quiet entry (List.mem_of_mem_head? member)
      · exact silent span List.mem_cons_self

variable {getThreadId}

@[simp]
theorem spanStack_setStack (state : Tracing T) (thread : T) (stack : List SpanEntry) :
    (state.setStack thread stack).spanStack = Function.update state.spanStack thread stack := rfl

@[simp]
theorem nesting_setStack (state : Tracing T) (thread : T) (stack : List SpanEntry) :
    (state.setStack thread stack).nesting = state.nesting := rfl

@[simp]
theorem spanStack_setNesting (state : Tracing T) (thread : T) (nesting : List OpenSpan) :
    (state.setNesting thread nesting).spanStack = state.spanStack := rfl

@[simp]
theorem nesting_setNesting (state : Tracing T) (thread : T) (nesting : List OpenSpan) :
    (state.setNesting thread nesting).nesting = Function.update state.nesting thread nesting := rfl

theorem setStack_self (state : Tracing T) (thread : T) :
    state.setStack thread (state.spanStack thread) = state := by
  rw [setStack, Function.update_eq_self]

/-- An end pops, whether tracing is on or not. -/
theorem spanEnd_spanStack (state : Tracing T) (thread : T) (now : Int64) :
    (state.spanEnd getThreadId thread now).1 =
      state.setStack thread (state.spanStack thread).tail := by
  unfold spanEnd
  split
  · cases stack : state.spanStack thread with
    | nil =>
        change state = state.setStack thread []
        rw [← stack, setStack_self]
    | cons entry rest => rfl
  · rfl

theorem spanEnd_record (state : Tracing T) (thread : T) (now : Int64) :
    (state.spanEnd getThreadId thread now).2 =
      if state.initialized then
        (state.spanStack thread).head?.bind fun entry =>
          if entry.sampled then some (spanRecord entry.name entry.start now (getThreadId thread))
          else none
      else none := by
  unfold spanEnd
  split
  · cases state.spanStack thread <;> rfl
  · rfl

/-- The stack of every thread is aligned with its open spans. -/
def AllAligned (state : Tracing T) : Prop :=
  ∀ thread, Aligned (state.spanStack thread) (state.nesting thread)

theorem AllAligned.set {state : Tracing T} (aligned : AllAligned state) (thread : T)
    {stack : List SpanEntry} {nesting : List OpenSpan} (here : Aligned stack nesting) :
    AllAligned ((state.setStack thread stack).setNesting thread nesting) := by
  intro other
  by_cases same : other = thread
  · subst same
    simpa using here
  · simpa [Function.update_of_ne same] using aligned other

theorem AllAligned.step {state after : Tracing T} {call : TraceCall T}
    (aligned : AllAligned state) (outside : BeginsOutside state call)
    (step : state.step getThreadId call = some after) : AllAligned after := by
  cases call with
  | spanBegin thread name now draw =>
      obtain rfl := Option.some.inj step
      by_cases live : state.initialized = true
      · simp only [spanBegin, live, if_true]
        exact aligned.set thread ((aligned thread).push _)
      · simp only [spanBegin, live, if_false, Bool.false_eq_true]
        rw [← state.setStack_self thread]
        exact aligned.set thread
          ((aligned thread).skip (outside (Bool.eq_false_iff.mpr live)) rfl)
  | spanEnd thread now =>
      simp only [Tracing.step] at step
      split at step
      · cases step
      · rename_i span rest shape
        obtain rfl := Option.some.inj step
        have here := aligned thread
        rw [shape] at here
        rw [spanEnd_spanStack]
        exact aligned.set thread here.pop.1
  | init samplingRate =>
      obtain rfl := Option.some.inj step
      unfold init
      split <;> exact aligned
  | shutdown =>
      obtain rfl := Option.some.inj step
      exact aligned

theorem allAligned_of_reachable {state : Tracing T}
    (reach : (machine getThreadId).Reachable BeginsOutside state) : AllAligned state := by
  refine reach.invariant ?_ fun before call after _ aligned outside step =>
    aligned.step outside step
  rintro _ rfl thread
  exact ⟨[], [], [], rfl, rfl, nofun, nofun⟩

/-- Aligned stacks emit the right records. -/
theorem AllAligned.ownRecords {state : Tracing T} (aligned : AllAligned state) :
    OwnRecords getThreadId state := by
  intro thread span rest now shape
  have here := aligned thread
  rw [shape] at here
  rw [spanEnd_record, ownRecord]
  by_cases live : state.initialized = true
  · rcases here.pop.2 with ⟨entry, top, rfl⟩ | ⟨quiet, silent⟩
    · simp [live, top, openOf]
    · simp only [live, if_true, silent, and_false, if_false]
      cases top : (state.spanStack thread).head? with
      | none => rfl
      | some entry => simp [quiet entry top]
  · simp [live]

/-! ## What a begin inside a recorded span leads to -/

/-- The first sampled entry of an aligned stack has as many spans above it as entries. -/
theorem Aligned.sampled {stack : List SpanEntry} {nesting : List OpenSpan}
    (aligned : Aligned stack nesting) (sampled : ∃ entry ∈ stack, entry.sampled = true) :
    ∃ quiet entry lower outer, stack = quiet ++ entry :: lower ∧
      nesting = quiet.map openOf ++ outer ∧
      (∀ entry ∈ quiet, entry.sampled = false) ∧ entry.sampled = true := by
  obtain ⟨entries, lower, outer, rfl, rfl, silent, -⟩ := aligned
  have inside : ∃ entry ∈ entries, entry.sampled = true := by
    obtain ⟨entry, member, loud⟩ := sampled
    refine ⟨entry, (List.mem_append.mp member).resolve_right fun low => ?_, loud⟩
    rw [silent entry low] at loud
    cases loud
  induction entries with
  | nil =>
      obtain ⟨_, member, _⟩ := inside
      cases member
  | cons first entries ih =>
      cases loud : first.sampled with
      | true => exact ⟨[], first, entries ++ lower, _, rfl, rfl, nofun, loud⟩
      | false =>
          have later : ∃ entry ∈ entries, entry.sampled = true := by
            obtain ⟨entry, member, high⟩ := inside
            rcases List.mem_cons.mp member with rfl | member
            · rw [loud] at high
              cases high
            · exact ⟨entry, member, high⟩
          obtain ⟨quiet, entry, below, outer', shape, spans, hushed, high⟩ :=
            ih (later.imp fun entry ⟨member, high⟩ => ⟨List.mem_append_left _ member, high⟩) later
          refine ⟨first :: quiet, entry, below, outer', by rw [List.cons_append, shape]; rfl,
            by rw [List.map_cons, List.cons_append, spans]; rfl, ?_, high⟩
          exact List.forall_mem_cons.mpr ⟨loud, hushed⟩

/-- Ending one silent span after the other brings the sampled entry up while a silent span is still
open. -/
theorem exec_ends (state : Tracing T) (thread : T) (now : Int64) {quiet : List SpanEntry}
    {entry : SpanEntry} {lower : List SpanEntry} {spans outer : List OpenSpan}
    (live : state.initialized = true) (loud : entry.sampled = true)
    (stack : state.spanStack thread = quiet ++ entry :: lower)
    (nesting : state.nesting thread = spans ++ outer)
    (length : spans.length = quiet.length + 1)
    (silent : ∀ span ∈ spans, span.decision ≠ some true) :
    ∃ after, (machine getThreadId).exec state
        (List.replicate quiet.length (.spanEnd thread now)) = some after ∧
      ¬ OwnRecords getThreadId after := by
  induction quiet generalizing spans state with
  | nil =>
      obtain ⟨span, rfl⟩ := List.length_eq_one_iff.mp length
      refine ⟨state, rfl, fun own => ?_⟩
      have emitted := own thread span outer now nesting
      rw [spanEnd_record, ownRecord, stack] at emitted
      simp [live, loud, silent span List.mem_cons_self] at emitted
  | cons first quiet ih =>
      cases spans with
      | nil => simp at length
      | cons span spans =>
          have step : (machine getThreadId).step state (.spanEnd thread now) =
              some ((state.setStack thread (quiet ++ entry :: lower)).setNesting thread
                (spans ++ outer)) := by
            simp only [machine, Tracing.step, nesting, List.cons_append, spanEnd_spanStack, stack,
              List.tail_cons]
          have shorter : spans.length = quiet.length + 1 := by simpa using length
          obtain ⟨after, run, wrong⟩ := ih
            ((state.setStack thread (quiet ++ entry :: lower)).setNesting thread (spans ++ outer))
            live (by simp) (by simp) shorter
            fun span member => silent span (List.mem_cons_of_mem _ member)
          refine ⟨after, ?_, wrong⟩
          rw [List.length_cons, List.replicate_succ, Transition.Machine.exec, step]
          exact run

/-- In runs in which, while tracing is off, no span begins inside a recorded and sampled span of its
thread, every end emits exactly the record of the span that it closes; the first begin that breaks
the condition lets some later end emit a record that is not its own. -/
theorem records_match (getThreadId : T → UInt64) {state : Tracing T}
    (reach : (machine getThreadId).Reachable BeginsOutside state) :
    OwnRecords getThreadId state ∧
      ∀ call after, state.step getThreadId call = some after → ¬ BeginsOutside state call →
        ∃ calls later, (machine getThreadId).exec after calls = some later ∧
          ¬ OwnRecords getThreadId later := by
  have aligned := allAligned_of_reachable reach
  refine ⟨aligned.ownRecords, fun call after step inside => ?_⟩
  cases call with
  | spanBegin thread name now draw =>
      simp only [BeginsOutside, not_forall, Bool.not_eq_false, exists_prop] at inside
      obtain ⟨off, sampled⟩ := inside
      obtain ⟨quiet, entry, lower, outer, stack, nesting, hushed, loud⟩ :=
        (aligned thread).sampled sampled
      let begun : OpenSpan := { name, start := now, decision := none }
      let restarted : Tracing T := { state.setNesting thread (begun :: state.nesting thread) with
        initialized := true, samplingRate := 1 }
      have silent : ∀ span ∈ begun :: quiet.map openOf, span.decision ≠ some true := by
        refine List.forall_mem_cons.mpr ⟨nofun, fun span member => ?_⟩
        obtain ⟨entry, inside, rfl⟩ := List.mem_map.mp member
        simp [openOf, hushed entry inside]
      have opened : restarted.nesting thread = (begun :: quiet.map openOf) ++ outer := by
        simp [restarted, nesting]
      obtain ⟨later, run, wrong⟩ :=
        exec_ends restarted thread now rfl loud stack opened (by simp) silent
      refine ⟨.init 1 :: List.replicate quiet.length (.spanEnd thread now), later, ?_, wrong⟩
      have began : after = state.setNesting thread (begun :: state.nesting thread) := by
        simpa [Tracing.step, spanBegin, off] using step.symm
      have started : (machine getThreadId).step after (.init 1) = some restarted := by
        rw [began]
        exact congrArg some (if_neg (by simp [setNesting, off]))
      rw [Transition.Machine.exec, started]
      exact run
  | spanEnd | init | shutdown => exact absurd trivial inside

def outerName : CString := ⟨[0x61], by decide⟩

def innerName : CString := ⟨[0x62], by decide⟩

theorem records_match_nested :
    ∃ state : Tracing Nat, (machine UInt64.ofNat).Reachable BeginsOutside state ∧
      state.initialized = true ∧
      (∃ span rest, state.nesting 0 = span :: rest ∧ span.name = outerName) ∧
      OwnRecords UInt64.ofNat state := by
  obtain ⟨state, reach, live, span⟩ :=
    ((machine UInt64.ofNat).restrict BeginsOutside).exists_reachable
      (fun state : Tracing Nat => state.initialized = true ∧
        (state.nesting 0).head?.map (·.name) = some outerName)
      [.spanBegin 0 innerName 3 0, .init 1, .spanEnd 0 4, .spanBegin 0 outerName 5 0,
        .spanBegin 0 innerName 6 0, .spanBegin 1 innerName 7 0, .shutdown, .spanEnd 0 8, .init 1]
      rfl (by decide +kernel)
  obtain ⟨span, top, named⟩ := Option.map_eq_some_iff.mp span
  obtain ⟨rest, shape⟩ := List.head?_eq_some_iff.mp top
  exact ⟨state, reach.of_restrict, live, ⟨span, rest, shape, named⟩,
    (records_match UInt64.ofNat reach.of_restrict).1⟩

/-- The end of a span that began while tracing was off emits the record of the span around it. -/
theorem records_mislabelled :
    ∃ state : Tracing Nat, (machine UInt64.ofNat).Reachable Transition.Machine.anyStep state ∧
      (state.nesting 0).map (·.name) = [innerName, outerName] ∧
      (state.spanEnd UInt64.ofNat 0 9).2 = some (spanRecord outerName 5 9 0) ∧
      ¬ OwnRecords UInt64.ofNat state := by
  obtain ⟨state, reach, ⟨nesting, silent⟩, emitted⟩ :=
    (machine UInt64.ofNat).exists_reachable
      (fun state : Tracing Nat => ((state.nesting 0).map (·.name) = [innerName, outerName] ∧
        (state.nesting 0).head?.map (·.decision) = some none) ∧
        (state.spanEnd UInt64.ofNat 0 9).2 = some (spanRecord outerName 5 9 0))
      [.init 1, .spanBegin 0 outerName 5 0, .shutdown, .spanBegin 0 innerName 6 0, .init 1]
      rfl (by decide +kernel)
  refine ⟨state, reach, nesting, emitted, fun own => ?_⟩
  obtain ⟨span, top, unrecorded⟩ := Option.map_eq_some_iff.mp silent
  obtain ⟨rest, shape⟩ := List.head?_eq_some_iff.mp top
  have silent := own 0 span rest 9 shape
  rw [emitted, ownRecord, if_neg (by simp [unrecorded])] at silent
  cases silent

end Tracing
end Runtime
end TopoLlvm
