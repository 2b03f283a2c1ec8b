import TopoLlvm.Library.Machine
import Mathlib.Data.List.Nodup
import Mathlib.Logic.Function.Basic

/-!
# Events of the dispatch blocks

The blocks `jit_path`, `pe_emit` and `pe_done` that `AdaptiveDispatchPass` puts before a pipeline
function emit a pass event on the first way through them.  The flag is a plain byte.  Any number of
threads call any number of such functions, also from within each other, while slots change at any
time: a thread emits at most one event for a function, and where no two threads are between the load
and the store of its flag, one event is all there is.
-/

namespace TopoLlvm
namespace AdaptiveDispatch
namespace Events

/-- Where a call of an instrumented function stands. -/
inductive Place (Ptr : Type) where
  /-- Before the acquire load of the slot. -/
  | entry
  /-- In `aot_entry` and what follows. -/
  | aotEntry
  /-- In `jit_path`, before the load of the flag. -/
  | jitPath (jitPtr : Ptr)
  /-- In `pe_emit`, before the store to the flag. -/
  | storing (jitPtr : Ptr)
  /-- In `pe_emit`, before the call of `topo_pass_event_emit`. -/
  | emitting (jitPtr : Ptr)
  /-- In `pe_done`, before the tail call. -/
  | done (jitPtr : Ptr)
  /-- In the tail call. -/
  | jitCall (jitPtr : Ptr)

structure Activation (Func Ptr : Type) where
  func : Func
  place : Place Ptr

/-- The memory of the dispatch blocks, the events so far with their threads and the calls of JIT
code, and the calls in progress of each thread, the innermost first. -/
structure State (Thread Func Ptr : Type) where
  jitPtr : Func → Option Ptr
  emitted : Func → Bool
  events : List (Func × Thread)
  jitCalls : List (Func × Thread × Ptr)
  stack : Thread → List (Activation Func Ptr)

inductive Label (Thread Func Ptr : Type) where
  /-- The runtime writes a slot. -/
  | install (func : Func) (ptr : Option Ptr)
  /-- A call, from outside or from the body or the variant that the thread is in. -/
  | call (thread : Thread) (func : Func)
  /-- The next step of the dispatch blocks. -/
  | proceed (thread : Thread)
  /-- The innermost call ends, by a return or an exception. -/
  | leave (thread : Thread)

section Step

variable {Thread Func Ptr : Type} [DecidableEq Thread]

namespace State

variable (state : State Thread Func Ptr)

def push (thread : Thread) (stack : List (Activation Func Ptr)) : State Thread Func Ptr :=
  { state with stack := Function.update state.stack thread stack }

@[simp] theorem stack_push_self (thread : Thread) (stack : List (Activation Func Ptr)) :
    (state.push thread stack).stack thread = stack := Function.update_self ..

theorem stack_push_of_ne {thread other : Thread} (differs : other ≠ thread)
    (stack : List (Activation Func Ptr)) :
    (state.push thread stack).stack other = state.stack other := Function.update_of_ne differs ..

variable [DecidableEq Func]

/-- The dispatch blocks of the innermost call. -/
def proceed (thread : Thread) (func : Func) (below : List (Activation Func Ptr)) :
    Place Ptr → Option (State Thread Func Ptr)
  | .entry =>
      match state.jitPtr func with
      | none => some (state.push thread (⟨func, .aotEntry⟩ :: below))
      | some jitPtr => some (state.push thread (⟨func, .jitPath jitPtr⟩ :: below))
  | .jitPath jitPtr =>
      if state.emitted func then some (state.push thread (⟨func, .done jitPtr⟩ :: below))
      else some (state.push thread (⟨func, .storing jitPtr⟩ :: below))
  | .storing jitPtr =>
      some ({ state with emitted := Function.update state.emitted func true }.push thread
        (⟨func, .emitting jitPtr⟩ :: below))
  | .emitting jitPtr =>
      some ({ state with events := (func, thread) :: state.events }.push thread
        (⟨func, .done jitPtr⟩ :: below))
  | .done jitPtr =>
      some ({ state with jitCalls := (func, thread, jitPtr) :: state.jitCalls }.push thread
        (⟨func, .jitCall jitPtr⟩ :: below))
  | .aotEntry | .jitCall _ => none

end State

/-- Code outside of the dispatch blocks runs, which may call and leave. -/
def Place.outside : Place Ptr → Bool
  | aotEntry | jitCall _ => true
  | entry | jitPath _ | storing _ | emitting _ | done _ => false

variable [DecidableEq Func]

def machine : Transition.Machine (State Thread Func Ptr) (Label Thread Func Ptr) where
  initial state := (∀ func, state.emitted func = false) ∧ state.events = [] ∧
    state.jitCalls = [] ∧ ∀ thread, state.stack thread = []
  step state
    | .install func ptr => some { state with jitPtr := Function.update state.jitPtr func ptr }
    | .call thread func =>
        match state.stack thread with
        | [] => some (state.push thread [⟨func, .entry⟩])
        | top :: below =>
            if top.place.outside then some (state.push thread (⟨func, .entry⟩ :: top :: below))
            else none
    | .proceed thread =>
        match state.stack thread with
        | [] => none
        | top :: below => state.proceed thread top.func below top.place
    | .leave thread =>
        match state.stack thread with
        | [] => none
        | top :: below => if top.place.outside then some (state.push thread below) else none

end Step
/-! ## One event for a thread -/

section Once

variable {Thread Func Ptr : Type}

/-- What holds of the innermost call of a thread. -/
def Fits (state : State Thread Func Ptr) (thread : Thread) (top : Activation Func Ptr) : Prop :=
  match top.place with
  | .storing _ => (top.func, thread) ∉ state.events
  | .emitting _ => state.emitted top.func = true ∧ (top.func, thread) ∉ state.events
  | .done _ => state.emitted top.func = true
  | .entry | .aotEntry | .jitPath _ | .jitCall _ => True

theorem fits_of_outside {state : State Thread Func Ptr} {thread : Thread}
    {top : Activation Func Ptr} (outside : top.place.outside = true) : Fits state thread top := by
  obtain ⟨func, place⟩ := top
  cases place <;> first | exact trivial | cases outside

/-- The innermost call of a thread. -/
def State.top (state : State Thread Func Ptr) (thread : Thread) : Option (Activation Func Ptr) :=
  (state.stack thread).head?

/-- A thread has stored to the flag of a function and is about to emit. -/
def State.Announces (state : State Thread Func Ptr) (func : Func) (thread : Thread) : Prop :=
  ∃ jitPtr, state.top thread = some ⟨func, .emitting jitPtr⟩

structure Once (state : State Thread Func Ptr) : Prop where
  below : ∀ thread, ∀ activation ∈ (state.stack thread).tail, activation.place.outside = true
  nodup : state.events.Nodup
  flagged : ∀ func thread, (func, thread) ∈ state.events → state.emitted func = true
  fits : ∀ thread top, state.top thread = some top → Fits state thread top
  switched : ∀ func thread jitPtr, (func, thread, jitPtr) ∈ state.jitCalls →
    state.emitted func = true
  announced : ∀ func, state.emitted func = true →
    (∃ thread, (func, thread) ∈ state.events) ∨ ∃ thread, state.Announces func thread

/-- What a step of a thread leaves alone: the other threads, the flags and events there are. -/
structure Advances (before after : State Thread Func Ptr) (thread : Thread) : Prop where
  stack : ∀ other ≠ thread, after.stack other = before.stack other
  emitted : ∀ func, before.emitted func = true → after.emitted func = true
  kept : ∀ func other, (func, other) ∈ before.events → (func, other) ∈ after.events
  events : ∀ func other, (func, other) ∈ after.events → (func, other) ∈ before.events ∨ other = thread

theorem Advances.fits {before after : State Thread Func Ptr} {thread other : Thread}
    (advances : Advances before after thread) (once : Once before) (differs : other ≠ thread)
    {top : Activation Func Ptr} (here : after.top other = some top) : Fits after other top := by
  rw [State.top, advances.stack other differs] at here
  have fits := once.fits other top here
  have fresh (absent : (top.func, other) ∉ before.events) : (top.func, other) ∉ after.events :=
    fun present => (advances.events _ _ present).elim absent differs
  obtain ⟨func, place⟩ := top
  cases place with
  | storing => exact fresh fits
  | emitting => exact ⟨advances.emitted func fits.1, fresh fits.2⟩
  | done => exact advances.emitted func fits
  | entry | aotEntry | jitPath | jitCall => trivial

/-- A step keeps the invariant where it suits the thread that makes it. -/
theorem Once.advance {before after : State Thread Func Ptr} {thread : Thread} (once : Once before)
    (advances : Advances before after thread)
    (below : ∀ activation ∈ (after.stack thread).tail, activation.place.outside = true)
    (nodup : after.events.Nodup)
    (flagged : ∀ func, (func, thread) ∈ after.events → after.emitted func = true)
    (fits : ∀ top, after.top thread = some top → Fits after thread top)
    (switched : ∀ func other jitPtr, (func, other, jitPtr) ∈ after.jitCalls →
      after.emitted func = true)
    (announced : ∀ func, after.emitted func = true →
      (before.emitted func = true ∧ ¬ before.Announces func thread) ∨
        (func, thread) ∈ after.events ∨ after.Announces func thread) : Once after where
  below other := by
    by_cases here : other = thread
    · exact here ▸ below
    · rw [advances.stack other here]
      exact once.below other
  nodup := nodup
  flagged func other present := by
    obtain old | rfl := advances.events func other present
    · exact advances.emitted func (once.flagged func other old)
    · exact flagged func present
  fits other top there := by
    by_cases here : other = thread
    · exact here ▸ fits top (here ▸ there)
    · exact advances.fits once here there
  switched := switched
  announced func emitted := by
    obtain ⟨old, silent⟩ | present | announces := announced func emitted
    · obtain ⟨other, present⟩ | ⟨other, announces⟩ := once.announced func old
      · exact .inl ⟨other, advances.kept func other present⟩
      · refine .inr ⟨other, ?_⟩
        have differs : other ≠ thread := fun here => silent (here ▸ announces)
        rwa [State.Announces, State.top, advances.stack other differs]
    · exact .inl ⟨thread, present⟩
    · exact .inr ⟨thread, announces⟩

/-- Only a call in `pe_emit` announces. -/
theorem silent_of_top {state : State Thread Func Ptr} {thread : Thread}
    {top : Option (Activation Func Ptr)} (here : state.top thread = top)
    (outside : ∀ func jitPtr, top ≠ some ⟨func, .emitting jitPtr⟩) (func : Func) :
    ¬ state.Announces func thread := by
  rintro ⟨jitPtr, announces⟩
  exact outside func jitPtr (here.symm.trans announces)

variable [DecidableEq Thread]

theorem advances_push {before state : State Thread Func Ptr} {thread : Thread}
    {stack : List (Activation Func Ptr)} (same : state.stack = before.stack)
    (emitted : ∀ func, before.emitted func = true → state.emitted func = true)
    (kept : ∀ func other, (func, other) ∈ before.events → (func, other) ∈ state.events)
    (events : ∀ func other, (func, other) ∈ state.events →
      (func, other) ∈ before.events ∨ other = thread) :
    Advances before (state.push thread stack) thread :=
  ⟨fun other differs => (state.stack_push_of_ne differs stack).trans (congrFun same other), emitted,
    kept, events⟩

/-- A step that only changes the calls of a thread, which is not about to emit. -/
theorem Once.push {state : State Thread Func Ptr} {thread : Thread} (once : Once state)
    {stack : List (Activation Func Ptr)}
    (below : ∀ activation ∈ stack.tail, activation.place.outside = true)
    (fits : ∀ top, stack.head? = some top → Fits state thread top)
    (silent : ∀ func, ¬ state.Announces func thread) : Once (state.push thread stack) := by
  refine once.advance (advances_push rfl (fun _ => id) (fun _ _ => id) fun _ _ => .inl) ?_ once.nodup
    (fun func => once.flagged func thread) ?_ once.switched
    fun func emitted => .inl ⟨emitted, silent func⟩
  · rwa [State.stack_push_self]
  · rw [State.top, State.stack_push_self]
    exact fits

variable [DecidableEq Func]

theorem update_of_true {emitted : Func → Bool} {func other : Func} (set : emitted other = true) :
    Function.update emitted func true other = true := by
  by_cases here : other = func
  · rw [here, Function.update_self]
  · rwa [Function.update_of_ne here]

theorem Once.proceed {before after : State Thread Func Ptr} {thread : Thread} {func : Func}
    {place : Place Ptr} {below : List (Activation Func Ptr)} (once : Once before)
    (here : before.stack thread = ⟨func, place⟩ :: below)
    (step : before.proceed thread func below place = some after) : Once after := by
  have top : before.top thread = some ⟨func, place⟩ := congrArg List.head? here
  have tail : ∀ activation ∈ below, activation.place.outside = true := by
    have outside := once.below thread
    rwa [here] at outside
  have fits := once.fits thread _ top
  cases place with
  | entry =>
      rw [State.proceed] at step
      have silent := silent_of_top top (by simp)
      split at step <;> cases step
      · exact once.push tail (by rintro _ ⟨⟩; trivial) silent
      · exact once.push tail (by rintro _ ⟨⟩; trivial) silent
  | jitPath jitPtr =>
      rw [State.proceed] at step
      have silent := silent_of_top top (by simp)
      split at step <;> cases step
      · rename_i emitted
        exact once.push tail (by rintro _ ⟨⟩; exact emitted) silent
      · rename_i unset
        exact once.push tail
          (by rintro _ ⟨⟩; exact fun present => unset (once.flagged func thread present)) silent
  | storing jitPtr =>
      cases step
      refine once.advance (advances_push rfl (fun _ => update_of_true) (fun _ _ => id)
          fun _ _ => .inl) ?_ once.nodup
        (fun other present => update_of_true (once.flagged other thread present)) ?_
        (fun other _ _ called => update_of_true (once.switched other _ _ called))
        fun other emitted => ?_
      · rwa [State.stack_push_self]
      · rw [State.top, State.stack_push_self]
        rintro _ ⟨⟩
        exact ⟨Function.update_self .., fits⟩
      · by_cases same : other = func
        · subst same
          refine .inr (.inr ⟨jitPtr, ?_⟩)
          rw [State.top, State.stack_push_self]
          rfl
        · have old : before.emitted other = true :=
            (Function.update_of_ne same ..).symm.trans emitted
          exact .inl ⟨old, silent_of_top top (by simp) other⟩
  | emitting jitPtr =>
      cases step
      have arises {other : Func} {one : Thread} (present : (other, one) ∈ (func, thread) ::
          before.events) : (other, one) ∈ before.events ∨ other = func ∧ one = thread :=
        (List.mem_cons.mp present).symm.imp_right Prod.mk.inj
      refine once.advance (advances_push rfl (fun _ => id) (fun _ _ => List.mem_cons_of_mem _)
          fun _ _ present => (arises present).imp_right And.right) ?_
        (List.nodup_cons.mpr ⟨fits.2, once.nodup⟩) (fun other present => ?_) ?_ once.switched
        fun other emitted => ?_
      · rwa [State.stack_push_self]
      · obtain old | ⟨rfl, -⟩ := arises present
        · exact once.flagged other thread old
        · exact fits.1
      · rw [State.top, State.stack_push_self]
        rintro _ ⟨⟩
        exact fits.1
      · by_cases same : other = func
        · exact .inr (.inl (same ▸ List.mem_cons_self))
        · refine .inl ⟨emitted, ?_⟩
          rintro ⟨_, announces⟩
          cases top.symm.trans announces
          exact same rfl
  | done jitPtr =>
      cases step
      refine once.advance (advances_push rfl (fun _ => id) (fun _ _ => id) fun _ _ => .inl) ?_
        once.nodup (fun other => once.flagged other thread) ?_ (fun other _ _ called => ?_)
        fun other emitted => .inl ⟨emitted, silent_of_top top (by simp) other⟩
      · rwa [State.stack_push_self]
      · rw [State.top, State.stack_push_self]
        rintro _ ⟨⟩
        trivial
      · obtain here | old := List.mem_cons.mp called
        · cases here
          exact fits
        · exact once.switched other _ _ old
  | aotEntry | jitCall => cases step

theorem Once.step {before after : State Thread Func Ptr} {label : Label Thread Func Ptr}
    (once : Once before) (step : machine.step before label = some after) : Once after := by
  cases label with
  | install func ptr =>
      cases step
      exact ⟨once.below, once.nodup, once.flagged, once.fits, once.switched, once.announced⟩
  | call thread func =>
      simp only [machine] at step
      cases here : before.stack thread with
      | nil =>
          rw [here] at step
          cases step
          exact once.push (by rintro _ ⟨⟩) (by rintro _ ⟨⟩; trivial)
            (silent_of_top (congrArg List.head? here) (by simp))
      | cons top below =>
          rw [here] at step
          dsimp only at step
          split at step
          · rename_i outside
            cases step
            have tail := once.below thread
            rw [here] at tail
            refine once.push ?_ (by rintro _ ⟨⟩; trivial)
              (silent_of_top (congrArg List.head? here) ?_)
            · rintro activation member
              obtain rfl | member := List.mem_cons.mp member
              · exact outside
              · exact tail activation member
            · rintro func jitPtr same
              cases Option.some.inj same
              cases outside
          · cases step
  | proceed thread =>
      simp only [machine] at step
      cases here : before.stack thread with
      | nil =>
          rw [here] at step
          cases step
      | cons top below =>
          rw [here] at step
          exact once.proceed here step
  | leave thread =>
      simp only [machine] at step
      cases here : before.stack thread with
      | nil =>
          rw [here] at step
          cases step
      | cons top below =>
          rw [here] at step
          dsimp only at step
          split at step
          · rename_i outside
            cases step
            have tail := once.below thread
            rw [here] at tail
            refine once.push (fun activation member => tail activation (List.mem_of_mem_tail member))
              (fun next first => fits_of_outside (tail next (List.mem_of_head? first)))
              (silent_of_top (congrArg List.head? here) ?_)
            rintro func jitPtr same
            cases Option.some.inj same
            cases outside
          · cases step

theorem once_reachable {guard : State Thread Func Ptr → Label Thread Func Ptr → Prop}
    {state : State Thread Func Ptr} (reach : machine.Reachable guard state) : Once state := by
  refine reach.invariant ?_ fun _ _ _ _ once _ step => once.step step
  rintro state ⟨unset, silent, uncalled, free⟩
  refine ⟨?_, ?_, ?_, ?_, ?_, ?_⟩
  · rintro thread activation member
    rw [free] at member
    cases member
  · rw [silent]
    exact List.nodup_nil
  · rintro func thread present
    rw [silent] at present
    cases present
  · rintro thread top here
    rw [State.top, free] at here
    cases here
  · rintro func thread jitPtr called
    rw [uncalled] at called
    cases called
  · rintro func emitted
    cases (unset func).symm.trans emitted

end Once

/-! ## One event for a function -/

section Single

variable {Thread Func Ptr : Type}

/-- A thread has found the flag of a function unset and is about to set it. -/
def State.Storing (state : State Thread Func Ptr) (func : Func) (thread : Thread) : Prop :=
  ∃ jitPtr, state.top thread = some ⟨func, .storing jitPtr⟩

/-- A thread has emitted the event of a function or is about to. -/
def State.Token (state : State Thread Func Ptr) (func : Func) (thread : Thread) : Prop :=
  state.Announces func thread ∨ (func, thread) ∈ state.events

/-- A flag is not loaded while another thread is about to set it. -/
def Alone (state : State Thread Func Ptr) (label : Label Thread Func Ptr) : Prop :=
  ∀ thread func jitPtr, label = .proceed thread →
    state.top thread = some ⟨func, .jitPath jitPtr⟩ → ∀ other, ¬ state.Storing func other

structure Single (state : State Thread Func Ptr) : Prop where
  storing : ∀ func thread, state.Storing func thread → state.emitted func = false ∧
    ∀ other, state.Storing func other → other = thread
  token : ∀ func thread other, state.Token func thread → state.Token func other → thread = other

theorem Once.emitted_of_token {state : State Thread Func Ptr} {func : Func} {thread : Thread}
    (once : Once state) (token : state.Token func thread) : state.emitted func = true := by
  obtain ⟨jitPtr, announces⟩ | present := token
  · exact (once.fits thread _ announces).1
  · exact once.flagged func thread present

/-- A step keeps the invariant where it suits the thread that makes it. -/
theorem Single.advance {before after : State Thread Func Ptr} {thread : Thread}
    (single : Single before) (once : Once before) (advances : Advances before after thread)
    (claims : ∀ func, after.Storing func thread → after.emitted func = false ∧
      ∀ other ≠ thread, ¬ before.Storing func other)
    (sets : ∀ func, after.emitted func = true →
      before.emitted func = true ∨ before.Storing func thread)
    (tokens : ∀ func, after.Token func thread →
      before.Token func thread ∨ before.emitted func = false) : Single after := by
  have tops {other : Thread} (differs : other ≠ thread) : after.top other = before.top other :=
    congrArg List.head? (advances.stack other differs)
  have older {func : Func} {other : Thread} (differs : other ≠ thread)
      (token : after.Token func other) : before.Token func other := by
    refine token.imp (fun announces => ?_) fun present =>
      (advances.events func other present).resolve_right differs
    rwa [State.Announces, ← tops differs]
  have stays {func : Func} {other : Thread} (differs : other ≠ thread)
      (storing : after.Storing func other) : before.Storing func other := by
    rwa [State.Storing, ← tops differs]
  constructor
  · intro func one storing
    by_cases here : one = thread
    · subst here
      obtain ⟨unset, alone⟩ := claims func storing
      refine ⟨unset, fun other there => ?_⟩
      by_contra differs
      exact alone other differs (stays differs there)
    · obtain ⟨unset, alone⟩ := single.storing func one (stays here storing)
      refine ⟨Bool.eq_false_iff.mpr fun set => ?_, fun other there => ?_⟩
      · obtain old | own := sets func set
        · cases unset.symm.trans old
        · exact here (alone thread own).symm
      · by_cases same : other = thread
        · subst same
          exact absurd (stays here storing) ((claims func there).2 one here)
        · exact alone other (stays same there)
  · intro func one other token there
    -- A token that is new for its thread is the first one of its function.
    have fresh {other : Thread} (differs : other ≠ thread) (mine : after.Token func thread)
        (its : after.Token func other) : thread = other := by
      obtain old | unset := tokens func mine
      · exact single.token func thread other old (older differs its)
      · cases unset.symm.trans (once.emitted_of_token (older differs its))
    by_cases here : one = thread <;> by_cases same : other = thread
    · rw [here, same]
    · subst here
      exact fresh same token there
    · subst same
      exact (fresh here there token).symm
    · exact single.token func one other (older here token) (older same there)

variable [DecidableEq Thread]

theorem top_push_self (state : State Thread Func Ptr) (thread : Thread)
    (stack : List (Activation Func Ptr)) : (state.push thread stack).top thread = stack.head? :=
  congrArg List.head? (state.stack_push_self thread stack)

/-- A step that only changes the calls of a thread, which does not enter `pe_emit`. -/
theorem Single.push {state : State Thread Func Ptr} {thread : Thread} (single : Single state)
    (once : Once state) {stack : List (Activation Func Ptr)}
    (enters : ∀ func jitPtr, stack.head? ≠ some ⟨func, .storing jitPtr⟩ ∧
      stack.head? ≠ some ⟨func, .emitting jitPtr⟩) : Single (state.push thread stack) := by
  refine single.advance once (advances_push rfl (fun _ => id) (fun _ _ => id) fun _ _ => .inl) ?_
    (fun _ => .inl) ?_
  · rintro func ⟨jitPtr, storing⟩
    exact absurd ((top_push_self ..).symm.trans storing) (enters func jitPtr).1
  · rintro func (⟨jitPtr, announces⟩ | present)
    · exact absurd ((top_push_self ..).symm.trans announces) (enters func jitPtr).2
    · exact .inl (.inr present)

variable [DecidableEq Func]

theorem Single.proceed {before after : State Thread Func Ptr} {thread : Thread} {func : Func}
    {place : Place Ptr} {below : List (Activation Func Ptr)} (single : Single before)
    (once : Once before) (here : before.stack thread = ⟨func, place⟩ :: below)
    (alone : Alone before (.proceed thread))
    (step : before.proceed thread func below place = some after) : Single after := by
  have top : before.top thread = some ⟨func, place⟩ := congrArg List.head? here
  cases place with
  | entry =>
      rw [State.proceed] at step
      split at step <;> cases step
      · exact single.push once (by simp)
      · exact single.push once (by simp)
  | jitPath jitPtr =>
      rw [State.proceed] at step
      split at step <;> cases step
      · exact single.push once (by simp)
      · rename_i set
        refine single.advance once
          (advances_push rfl (fun _ => id) (fun _ _ => id) fun _ _ => .inl) ?_ (fun _ => .inl) ?_
        · rintro other ⟨_, storing⟩
          cases (top_push_self ..).symm.trans storing
          exact ⟨Bool.eq_false_iff.mpr set, fun other _ => alone thread func jitPtr rfl top other⟩
        · rintro other (⟨_, announces⟩ | present)
          · cases (top_push_self ..).symm.trans announces
          · exact .inl (.inr present)
  | storing jitPtr =>
      cases step
      have unset := (single.storing func thread ⟨jitPtr, top⟩).1
      refine single.advance once (advances_push rfl (fun _ => update_of_true) (fun _ _ => id)
        fun _ _ => .inl) ?_ ?_ ?_
      · rintro other ⟨_, storing⟩
        cases (top_push_self ..).symm.trans storing
      · intro other set
        by_cases same : other = func
        · exact .inr (same ▸ ⟨jitPtr, top⟩)
        · exact .inl ((Function.update_of_ne same ..).symm.trans set)
      · rintro other (⟨_, announces⟩ | present)
        · cases (top_push_self ..).symm.trans announces
          exact .inr unset
        · exact .inl (.inr present)
  | emitting jitPtr =>
      cases step
      refine single.advance once (advances_push rfl (fun _ => id) (fun _ _ => List.mem_cons_of_mem _)
        fun other one present => (List.mem_cons.mp present).symm.imp_right fun same =>
          (Prod.mk.inj same).2) ?_ (fun _ => .inl) ?_
      · rintro other ⟨_, storing⟩
        cases (top_push_self ..).symm.trans storing
      · rintro other (⟨_, announces⟩ | present)
        · cases (top_push_self ..).symm.trans announces
        · obtain same | old := List.mem_cons.mp present
          · cases same
            exact .inl (.inl ⟨jitPtr, top⟩)
          · exact .inl (.inr old)
  | done jitPtr =>
      cases step
      refine single.advance once (advances_push rfl (fun _ => id) (fun _ _ => id) fun _ _ => .inl) ?_
        (fun _ => .inl) ?_
      · rintro other ⟨_, storing⟩
        cases (top_push_self ..).symm.trans storing
      · rintro other (⟨_, announces⟩ | present)
        · cases (top_push_self ..).symm.trans announces
        · exact .inl (.inr present)
  | aotEntry | jitCall => cases step

theorem Single.step {before after : State Thread Func Ptr} {label : Label Thread Func Ptr}
    (single : Single before) (once : Once before) (alone : Alone before label)
    (step : machine.step before label = some after) : Single after := by
  cases label with
  | install func ptr =>
      cases step
      exact ⟨single.storing, single.token⟩
  | call thread func =>
      simp only [machine] at step
      split at step
      · cases step
        exact single.push once (by simp)
      · split at step <;> cases step
        exact single.push once (by simp)
  | proceed thread =>
      simp only [machine] at step
      cases here : before.stack thread with
      | nil =>
          rw [here] at step
          cases step
      | cons top below =>
          rw [here] at step
          exact single.proceed once here alone step
  | leave thread =>
      simp only [machine] at step
      split at step
      · cases step
      · rename_i top below here
        split at step <;> cases step
        have tail := once.below thread
        rw [here] at tail
        refine single.push once fun func jitPtr => ⟨fun first => ?_, fun first => ?_⟩
        · cases tail _ (List.mem_of_head? first)
        · cases tail _ (List.mem_of_head? first)

theorem single_reachable {state : State Thread Func Ptr} (reach : machine.Reachable Alone state) :
    Single state := by
  induction reach with
  | @start state initial =>
      obtain ⟨unset, silent, -, free⟩ := initial
      have idle (thread : Thread) : state.top thread = none := congrArg List.head? (free thread)
      have none (func : Func) (thread : Thread) : ¬ state.Token func thread := by
        rintro (⟨jitPtr, announces⟩ | present)
        · cases (idle thread).symm.trans announces
        · rw [silent] at present
          cases present
      refine ⟨fun func thread storing => ?_,
        fun func thread _ token => absurd token (none func thread)⟩
      obtain ⟨jitPtr, storing⟩ := storing
      cases (idle thread).symm.trans storing
  | next reach alone step ih => exact ih.step (once_reachable reach) alone step

/-- The events of a function. -/
def State.eventsOf (state : State Thread Func Ptr) (func : Func) : List (Func × Thread) :=
  state.events.filter (·.1 = func)

omit [DecidableEq Thread] in
theorem mem_eventsOf {state : State Thread Func Ptr} {func : Func} {event : Func × Thread} :
    event ∈ state.eventsOf func ↔ event ∈ state.events ∧ event.1 = func := by
  simp [State.eventsOf]

/-- A thread emits at most one event for a function, and some thread has announced the function
before any call of its JIT code.  Where no flag is loaded while another thread is about to set it,
the threads together emit at most one event for a function, and just one once it has been called
and nobody is about to emit. -/
theorem events_of_runs {state : State Thread Func Ptr} :
    (machine.Reachable Transition.Machine.anyStep state → state.events.Nodup ∧
      ∀ call ∈ state.jitCalls, ∃ thread, state.Token call.1 thread) ∧
    (machine.Reachable Alone state → ∀ func, (state.eventsOf func).length ≤ 1 ∧
      ((∃ call ∈ state.jitCalls, call.1 = func) → (∀ thread, ¬ state.Announces func thread) →
        (state.eventsOf func).length = 1)) := by
  constructor
  · intro reach
    have once := once_reachable reach
    refine ⟨once.nodup, ?_⟩
    rintro ⟨func, thread, jitPtr⟩ called
    obtain ⟨other, present⟩ | ⟨other, announces⟩ :=
      once.announced func (once.switched func thread jitPtr called)
    · exact ⟨other, .inr present⟩
    · exact ⟨other, .inl announces⟩
  · intro reach func
    have once := once_reachable reach
    have single := single_reachable reach
    have atMost : (state.eventsOf func).length ≤ 1 := by
      have nodup : (state.eventsOf func).Nodup := once.nodup.filter _
      have same : ∀ event ∈ state.eventsOf func, ∀ other ∈ state.eventsOf func, event = other := by
        rintro ⟨one, thread⟩ member ⟨two, other⟩ there
        obtain ⟨present, rfl⟩ := mem_eventsOf.mp member
        obtain ⟨second, rfl⟩ := mem_eventsOf.mp there
        rw [single.token _ thread other (.inr present) (.inr second)]
      generalize state.eventsOf func = events at nodup same
      match events with
      | [] => exact Nat.zero_le 1
      | [_] => exact Nat.le_refl 1
      | one :: two :: rest =>
          have clash := same one List.mem_cons_self two (List.mem_cons_of_mem _ List.mem_cons_self)
          exact absurd (clash ▸ List.mem_cons_self) (List.nodup_cons.mp nodup).1
    refine ⟨atMost, ?_⟩
    rintro ⟨⟨_, thread, jitPtr⟩, called, here⟩ silent
    obtain ⟨other, present⟩ | ⟨other, announces⟩ :=
      once.announced func (once.switched func thread jitPtr (here ▸ called))
    · have positive : 0 < (state.eventsOf func).length :=
        List.length_pos_of_mem (mem_eventsOf.mpr ⟨present, rfl⟩)
      omega
    · exact absurd announces (silent other)

omit [DecidableEq Thread] [DecidableEq Func] in
theorem alone_of_unit (state : State Unit Func Ptr) (label : Label Unit Func Ptr) :
    Alone state label := by
  rintro thread func jitPtr - here other ⟨_, storing⟩
  cases here.symm.trans storing

def freshDispatch : State Unit Unit Unit where
  jitPtr := fun _ => none
  emitted := fun _ => false
  events := []
  jitCalls := []
  stack := fun _ => []

/-- A variant is installed and called two times. -/
def twoCalls : List (Label Unit Unit Unit) :=
  .install () (some ()) :: (.call () () :: List.replicate 5 (.proceed ())) ++
    .leave () :: .call () () :: List.replicate 3 (.proceed ())

/-- The second call emits no event. -/
theorem twoCalls_events : ∃ state, machine.exec freshDispatch twoCalls = some state ∧
    state.jitCalls.length = 2 ∧ (state.eventsOf ()).length = 1 := by
  obtain ⟨state, run, calls, silent⟩ : ∃ state, machine.exec freshDispatch twoCalls = some state ∧
      state.jitCalls = [((), (), ()), ((), (), ())] ∧ state.top () = some ⟨(), .jitCall ()⟩ :=
    ⟨_, rfl, rfl, rfl⟩
  have fresh : machine.initial freshDispatch := ⟨fun _ => rfl, rfl, rfl, fun _ => rfl⟩
  have reach := (Transition.Machine.reachable_exec twoCalls (.start fresh) run).mono
    fun state label _ => alone_of_unit state label
  have called : ∃ call ∈ state.jitCalls, call.1 = () := by
    rw [calls]
    exact ⟨_, List.mem_cons_self, rfl⟩
  refine ⟨state, run, by rw [calls]; rfl, ((events_of_runs.2 reach) ()).2 called ?_⟩
  rintro thread ⟨_, announces⟩
  cases silent.symm.trans announces

end Single

end Events
end AdaptiveDispatch
end TopoLlvm
