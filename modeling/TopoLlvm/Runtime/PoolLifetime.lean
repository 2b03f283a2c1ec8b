import TopoLlvm.Library.Machine
import Mathlib.Data.Fintype.Basic
import Mathlib.Logic.Function.Basic

/-!
# Lifetime of the pool object

One thread calls `init` and `shutdown` while any other threads, pool workers or not, are inside
`topo_task_spawn*` and `topo_task_await`.  A label is one access to `g_pool`, one operation on
`g_lifecycle_mutex` or one use of a pool through a loaded pointer.  The spawn entry points differ
only in the task they build, so they share their positions.
-/

namespace TopoLlvm
namespace Runtime

/-- A `ThreadPool` object: its index in order of construction. -/
abbrev PoolId := Nat

/-- What has become of a constructed pool. -/
inductive PoolPhase where
  | running
  /-- `stop` has joined the workers. -/
  | stopped
  | deleted
  deriving DecidableEq

/-- Where a calling thread stands. -/
inductive CallPosition where
  | outside
  /-- The lock-free test of `topo_parallel_ensure_init`. -/
  | ensureLoad
  | ensureLock
  | ensureRecheck
  /-- `do_init` has started the pool and not published it. -/
  | ensurePublish (pool : PoolId)
  | ensureUnlock
  /-- `ensure_init` has returned; `g_pool` is not loaded yet. -/
  | spawnLoad
  | spawnCall (snapshot : Option PoolId)
  /-- Inside `submit`. -/
  | submitting (pool : PoolId)
  /-- The loop condition of `topo_task_await`. -/
  | awaitTest
  | awaitLoad
  | awaitCall (snapshot : Option PoolId)
  /-- Inside `try_steal_any`. -/
  | stealing (pool : PoolId)
  /-- A helper task was found and `run_stolen` is not called yet. -/
  | runStolen (pool : PoolId)
  deriving DecidableEq

/-- The pool that a thread at a position is about to use, or in the middle of using. -/
def CallPosition.pending : CallPosition → Option PoolId
  | .spawnCall snapshot | .awaitCall snapshot => snapshot
  | .submitting pool | .stealing pool | .runStolen pool => some pool
  | _ => none

/-- The two calls of the lifecycle thread. -/
inductive LifecycleCall where
  | init
  | shutdown
  deriving DecidableEq

/-- Where the lifecycle thread stands. -/
inductive LifecyclePosition where
  | outside
  | loading (call : LifecycleCall)
  | nulling (call : LifecycleCall) (old : PoolId)
  | stopping (call : LifecycleCall) (old : PoolId)
  | deleting (call : LifecycleCall) (old : PoolId)
  | starting
  | publishing (fresh : PoolId)
  | unlocking
  deriving DecidableEq

/-- The pool that the next step of the lifecycle thread deletes. -/
def LifecyclePosition.deletes : LifecyclePosition → Option PoolId
  | .deleting _ old => some old
  | _ => none

/-- Holders of `g_lifecycle_mutex`. -/
inductive LockOwner (Caller : Type) where
  | lifecycle
  | caller (caller : Caller)
  deriving DecidableEq

/-- The shared variables, the positions of all threads and the uses that went wrong. -/
structure Lifetime (Caller : Type) where
  gPool : Option PoolId
  mutex : Option (LockOwner Caller)
  pools : List PoolPhase
  lifecycle : LifecyclePosition
  position : Caller → CallPosition
  /-- Await loops of the thread that are suspended beneath a helper task's body. -/
  suspended : Caller → Nat
  /-- Ghost: a method was called on a deleted pool. -/
  usedDeleted : Bool
  /-- Ghost: a method was called through a null pointer. -/
  usedNull : Bool

/-- Steps of the lifecycle thread and of the callers. -/
inductive LifetimeLabel (Caller : Type) where
  /-- Enter `init` or `shutdown`. -/
  | begin (call : LifecycleCall)
  /-- The lifecycle thread moves on inside its call. -/
  | lifecycle
  | spawn (caller : Caller)
  | await (caller : Caller)
  /-- A caller moves on; `outcome` is what it observes where that is not decided by the state. -/
  | proceed (caller : Caller) (outcome : Bool)

namespace Lifetime

variable {Caller : Type} [DecidableEq Caller]

/-- Move a caller to another position. -/
def goto (state : Lifetime Caller) (caller : Caller) (position : CallPosition) : Lifetime Caller :=
  { state with position := Function.update state.position caller position }

/-- Use a pool object through a pointer. -/
def touch (state : Lifetime Caller) (pool : PoolId) : Lifetime Caller :=
  { state with usedDeleted := state.usedDeleted || state.pools[pool]? == some .deleted }

/-- The next position of the lifecycle thread once no old pool is left. -/
def afterTeardown : LifecycleCall → LifecyclePosition
  | .init => .starting
  | .shutdown => .unlocking

/-- One step of the lifecycle thread; `home` tells which pool a caller is a worker of. -/
def advance [Fintype Caller] (home : Caller → Option PoolId) (state : Lifetime Caller) :
    Option (Lifetime Caller) :=
  match state.lifecycle with
  | .outside => none
  | .loading call =>
      match state.gPool with
      | some old => some { state with lifecycle := .nulling call old }
      | none => some { state with lifecycle := afterTeardown call }
  | .nulling call old => some { state with gPool := none, lifecycle := .stopping call old }
  | .stopping call old =>
      -- `join` waits until the bodies on the pool's own threads are over.
      if ∀ caller, home caller = some old →
          state.position caller = .outside ∧ state.suspended caller = 0 then
        some { state with
          pools := state.pools.set old .stopped
          lifecycle := .deleting call old }
      else none
  | .deleting call old =>
      some { state with
        pools := state.pools.set old .deleted
        lifecycle := afterTeardown call }
  | .starting =>
      some { state with
        pools := state.pools ++ [.running]
        lifecycle := .publishing state.pools.length }
  | .publishing fresh => some { state with gPool := some fresh, lifecycle := .unlocking }
  | .unlocking => some { state with mutex := none, lifecycle := .outside }

/-- One step of a caller. -/
def proceed (state : Lifetime Caller) (caller : Caller) (outcome : Bool) :
    Option (Lifetime Caller) :=
  match state.position caller with
  | .outside =>
      -- The body of a helper task is over.
      match state.suspended caller with
      | 0 => none
      | depth + 1 =>
          some { state.goto caller .awaitTest with
            suspended := Function.update state.suspended caller depth }
  | .ensureLoad =>
      some (state.goto caller (if state.gPool.isSome then .spawnLoad else .ensureLock))
  | .ensureLock =>
      match state.mutex with
      | some _ => none
      | none => some { state.goto caller .ensureRecheck with mutex := some (.caller caller) }
  | .ensureRecheck =>
      if state.gPool.isSome then some (state.goto caller .ensureUnlock)
      else some { state.goto caller (.ensurePublish state.pools.length) with
        pools := state.pools ++ [.running] }
  | .ensurePublish pool => some { state.goto caller .ensureUnlock with gPool := some pool }
  | .ensureUnlock => some { state.goto caller .spawnLoad with mutex := none }
  | .spawnLoad => some (state.goto caller (.spawnCall state.gPool))
  | .spawnCall none => some { state.goto caller .outside with usedNull := true }
  | .spawnCall (some pool) => some ((state.touch pool).goto caller (.submitting pool))
  | .submitting pool => some ((state.touch pool).goto caller .outside)
  | .awaitTest => some (state.goto caller (if outcome then .outside else .awaitLoad))
  | .awaitLoad => some (state.goto caller (.awaitCall state.gPool))
  | .awaitCall none => some (state.goto caller .awaitTest)
  | .awaitCall (some pool) => some ((state.touch pool).goto caller (.stealing pool))
  | .stealing pool =>
      some ((state.touch pool).goto caller (if outcome then .runStolen pool else .awaitTest))
  | .runStolen pool =>
      some { (state.touch pool).goto caller .outside with
        suspended := Function.update state.suspended caller (state.suspended caller + 1) }

/-- Whether a thread can run a body; a worker thread ends when its pool is joined. -/
def mayCall (home : Caller → Option PoolId) (state : Lifetime Caller) (caller : Caller) : Bool :=
  state.position caller == .outside &&
    (home caller).all fun pool => state.pools[pool]? == some .running

/-- One step of the lifecycle thread or of a caller. -/
def step [Fintype Caller] (home : Caller → Option PoolId) (state : Lifetime Caller) :
    LifetimeLabel Caller → Option (Lifetime Caller)
  | .begin call =>
      if state.lifecycle = .outside ∧ state.mutex = none then
        some { state with mutex := some .lifecycle, lifecycle := .loading call }
      else none
  | .lifecycle => state.advance home
  | .spawn caller =>
      if state.mayCall home caller then some (state.goto caller .ensureLoad) else none
  | .await caller =>
      if state.mayCall home caller then some (state.goto caller .awaitTest) else none
  | .proceed caller outcome => state.proceed caller outcome

/-- No pool was ever constructed and no thread is inside a call. -/
def boot : Lifetime Caller where
  gPool := none
  mutex := none
  pools := []
  lifecycle := .outside
  position _ := .outside
  suspended _ := 0
  usedDeleted := false
  usedNull := false

/-- Pool lifetimes as a machine. -/
def machine [Fintype Caller] (home : Caller → Option PoolId) :
    Transition.Machine (Lifetime Caller) (LifetimeLabel Caller) where
  initial state := state = boot
  step := step home

/-- A spawn loads the pointer while it is not null, and a pool is deleted while no thread has a
use of it ahead. -/
def Timely (state : Lifetime Caller) : LifetimeLabel Caller → Prop
  | .proceed caller _ => state.position caller = .spawnLoad → state.gPool ≠ none
  | .lifecycle => ∀ old ∈ state.lifecycle.deletes,
      ∀ caller, (state.position caller).pending ≠ some old
  | .begin _ | .spawn _ | .await _ => True

instance decidableTimely [Fintype Caller] (state : Lifetime Caller) :
    ∀ label, Decidable (Timely state label)
  | .proceed _ _ => inferInstanceAs (Decidable (_ → _))
  | .lifecycle => inferInstanceAs (Decidable (∀ old ∈ state.lifecycle.deletes, _))
  | .begin _ | .spawn _ | .await _ => inferInstanceAs (Decidable True)

/-! ## The lifecycle lock -/

/-- What a caller's position says about the lock and the pool it is about to publish. -/
def CallerOk (state : Lifetime Caller) (caller : Caller) : CallPosition → Prop
  | .ensureRecheck | .ensureUnlock => state.mutex = some (.caller caller)
  | .ensurePublish pool =>
      state.mutex = some (.caller caller) ∧ state.pools[pool]? = some .running
  | _ => True

/-- What the lifecycle thread's position says about the lock, `g_pool` and the pool it works on. -/
def LifecycleOk (state : Lifetime Caller) : LifecyclePosition → Prop
  | .outside => state.mutex ≠ some .lifecycle
  | .loading _ | .unlocking => state.mutex = some .lifecycle
  | .nulling _ old => state.mutex = some .lifecycle ∧ state.gPool = some old
  | .stopping _ old | .deleting _ old =>
      state.mutex = some .lifecycle ∧ state.gPool = none ∧ old < state.pools.length
  | .starting => state.mutex = some .lifecycle ∧ state.gPool = none
  | .publishing fresh =>
      state.mutex = some .lifecycle ∧ state.gPool = none ∧ state.pools[fresh]? = some .running

/-- Who holds the lock, and that a published pool is running. -/
structure Sound (state : Lifetime Caller) : Prop where
  published : ∀ pool, state.gPool = some pool → state.pools[pool]? = some .running
  lifecycle : state.LifecycleOk state.lifecycle
  callers : ∀ caller, state.CallerOk caller (state.position caller)

theorem getElem?_append_of_some {pools : List PoolPhase} {pool : PoolId} {phase fresh : PoolPhase}
    (found : pools[pool]? = some phase) : (pools ++ [fresh])[pool]? = some phase := by
  rw [List.getElem?_append_left (List.getElem?_eq_some_iff.mp found).1, found]

omit [DecidableEq Caller] in
theorem sound_boot : Sound (boot : Lifetime Caller) where
  published _ published := by cases published
  lifecycle := by simp [LifecycleOk, boot]
  callers _ := trivial

omit [DecidableEq Caller] in
/-- A caller that needs the lock holds it. -/
theorem CallerOk.of_mutex_ne {state after : Lifetime Caller} {caller : Caller}
    {position : CallPosition} (ok : state.CallerOk caller position)
    (ne : state.mutex ≠ some (.caller caller)) : after.CallerOk caller position := by
  cases position with
  | ensureRecheck | ensureUnlock => exact absurd ok ne
  | ensurePublish pool => exact absurd ok.1 ne
  | _ => trivial

/-- A step of one caller that leaves the shared variables alone. -/
theorem Sound.local_step {state after : Lifetime Caller} (sound : Sound state) {caller : Caller}
    {position : CallPosition} (gPool : after.gPool = state.gPool)
    (mutex : after.mutex = state.mutex) (pools : after.pools = state.pools)
    (lifecycle : after.lifecycle = state.lifecycle)
    (moved : after.position = Function.update state.position caller position)
    (ok : state.CallerOk caller position) : Sound after := by
  have same : ∀ other target, state.CallerOk other target → after.CallerOk other target := by
    intro other target
    cases target <;> simp only [CallerOk, mutex, pools] <;> exact id
  refine ⟨by simpa only [gPool, pools] using sound.published, ?_, fun other => ?_⟩
  · rw [lifecycle]
    have old := sound.lifecycle
    cases place : state.lifecycle <;>
      simpa only [LifecycleOk, place, mutex, gPool, pools] using old
  · rw [moved]
    by_cases own : other = caller
    · subst own
      simpa using same other position ok
    · simpa [own] using same other _ (sound.callers other)

omit [DecidableEq Caller] in
/-- The lifecycle thread holds the lock during its calls. -/
theorem Sound.lifecycle_outside {state : Lifetime Caller} (sound : Sound state)
    (ne : state.mutex ≠ some .lifecycle) : state.lifecycle = .outside := by
  have ok := sound.lifecycle
  cases place : state.lifecycle with
  | outside => rfl
  | loading | unlocking => exact absurd (by simpa [LifecycleOk, place] using ok) ne
  | nulling | stopping | deleting | starting | publishing =>
      simp only [place, LifecycleOk] at ok
      exact absurd ok.1 ne

/-- A step of a caller that holds the lock or takes it. -/
theorem Sound.caller_step {state after : Lifetime Caller} (sound : Sound state) {caller : Caller}
    {position : CallPosition} (mutex : state.mutex = none ∨ state.mutex = some (.caller caller))
    (moved : after.position = Function.update state.position caller position)
    (published : ∀ pool, after.gPool = some pool → after.pools[pool]? = some .running)
    (lifecycle : after.lifecycle = state.lifecycle) (stays : after.mutex ≠ some .lifecycle)
    (ok : after.CallerOk caller position) : Sound after := by
  refine ⟨published, ?_, fun other => ?_⟩
  · rw [lifecycle, sound.lifecycle_outside (by obtain free | held := mutex <;> simp [*])]
    exact stays
  · rw [moved]
    by_cases own : other = caller
    · subst own
      simpa using ok
    · simp only [Function.update_of_ne own]
      refine (sound.callers other).of_mutex_ne ?_
      rcases mutex with free | held
      · simp [free]
      · simpa [held] using Ne.symm own

omit [DecidableEq Caller] in
/-- A step of the lifecycle thread while it holds the lock or takes it. -/
theorem Sound.lifecycle_step {state after : Lifetime Caller} (sound : Sound state)
    (mutex : state.mutex = none ∨ state.mutex = some .lifecycle)
    (frame : after.position = state.position)
    (published : ∀ pool, after.gPool = some pool → after.pools[pool]? = some .running)
    (ok : after.LifecycleOk after.lifecycle) : Sound after := by
  refine ⟨published, ok, fun caller => ?_⟩
  rw [frame]
  refine (sound.callers caller).of_mutex_ne ?_
  rcases mutex with free | held <;> simp [*]

/-- Every step of a caller keeps the lock discipline. -/
theorem Sound.proceed {state after : Lifetime Caller} {caller : Caller} {outcome : Bool}
    (sound : Sound state) (step : state.proceed caller outcome = some after) : Sound after := by
  have ok := sound.callers caller
  cases place : state.position caller with
  | outside =>
      simp only [Lifetime.proceed, place] at step
      split at step <;> cases step
      exact sound.local_step rfl rfl rfl rfl rfl trivial
  | ensureLoad =>
      simp only [Lifetime.proceed, place, Option.some.injEq] at step
      subst step
      refine sound.local_step rfl rfl rfl rfl rfl ?_
      split <;> trivial
  | ensureLock =>
      simp only [Lifetime.proceed, place] at step
      split at step <;> cases step
      rename_i free
      exact sound.caller_step (.inl free) rfl sound.published rfl (by simp) rfl
  | ensureRecheck =>
      simp only [place, CallerOk] at ok
      simp only [Lifetime.proceed, place] at step
      split at step <;> cases step
      · exact sound.local_step rfl rfl rfl rfl rfl ok
      · refine sound.caller_step (.inr ok) rfl (fun pool published => ?_) rfl (by simp [goto, ok])
          ⟨ok, by simp⟩
        exact getElem?_append_of_some (sound.published pool published)
  | ensurePublish pool =>
      simp only [place, CallerOk] at ok
      simp only [Lifetime.proceed, place, Option.some.injEq] at step
      subst step
      refine sound.caller_step (.inr ok.1) rfl (fun other published => ?_) rfl
        (by simp [goto, ok.1]) ok.1
      obtain rfl : pool = other := by simpa using published
      exact ok.2
  | ensureUnlock =>
      simp only [place, CallerOk] at ok
      simp only [Lifetime.proceed, place, Option.some.injEq] at step
      subst step
      exact sound.caller_step (.inr ok) rfl sound.published rfl (by simp) trivial
  | spawnCall snapshot | awaitCall snapshot =>
      cases snapshot <;>
      · simp only [Lifetime.proceed, place, Option.some.injEq] at step
        subst step
        exact sound.local_step rfl rfl rfl rfl rfl trivial
  | spawnLoad | submitting pool | awaitLoad | runStolen pool =>
      simp only [Lifetime.proceed, place, Option.some.injEq] at step
      subst step
      exact sound.local_step rfl rfl rfl rfl rfl trivial
  | awaitTest | stealing pool =>
      simp only [Lifetime.proceed, place, Option.some.injEq] at step
      subst step
      refine sound.local_step rfl rfl rfl rfl rfl ?_
      split <;> trivial

omit [DecidableEq Caller] in
/-- Every step of the lifecycle thread keeps the lock discipline. -/
theorem Sound.advance [Fintype Caller] {home : Caller → Option PoolId}
    {state after : Lifetime Caller} (sound : Sound state) (step : state.advance home = some after) :
    Sound after := by
  have ok := sound.lifecycle
  cases place : state.lifecycle with
  | outside => simp [Lifetime.advance, place] at step
  | loading call =>
      simp only [place, LifecycleOk] at ok
      simp only [Lifetime.advance, place] at step
      split at step <;> cases step
      · rename_i old loaded
        exact sound.lifecycle_step (.inr ok) rfl sound.published ⟨ok, loaded⟩
      · rename_i unloaded
        refine sound.lifecycle_step (.inr ok) rfl sound.published ?_
        cases call
        · exact ⟨ok, unloaded⟩
        · exact ok
  | nulling call old =>
      simp only [place, LifecycleOk] at ok
      simp only [Lifetime.advance, place, Option.some.injEq] at step
      subst step
      have bound := (List.getElem?_eq_some_iff.mp (sound.published old ok.2)).1
      exact sound.lifecycle_step (.inr ok.1) rfl (by simp) ⟨ok.1, rfl, bound⟩
  | stopping call old =>
      simp only [place, LifecycleOk] at ok
      simp only [Lifetime.advance, place] at step
      split at step <;> cases step
      exact sound.lifecycle_step (.inr ok.1) rfl (by simp [ok.2.1])
        ⟨ok.1, ok.2.1, by simpa using ok.2.2⟩
  | deleting call old =>
      simp only [place, LifecycleOk] at ok
      simp only [Lifetime.advance, place, Option.some.injEq] at step
      subst step
      refine sound.lifecycle_step (.inr ok.1) rfl (by simp [ok.2.1]) ?_
      cases call
      · exact ⟨ok.1, ok.2.1⟩
      · exact ok.1
  | starting =>
      simp only [place, LifecycleOk] at ok
      simp only [Lifetime.advance, place, Option.some.injEq] at step
      subst step
      exact sound.lifecycle_step (.inr ok.1) rfl (by simp [ok.2]) ⟨ok.1, ok.2, by simp⟩
  | publishing fresh =>
      simp only [place, LifecycleOk] at ok
      simp only [Lifetime.advance, place, Option.some.injEq] at step
      subst step
      refine sound.lifecycle_step (.inr ok.1) rfl (fun pool published => ?_) ok.1
      obtain rfl : fresh = pool := by simpa using published
      exact ok.2.2
  | unlocking =>
      simp only [place, LifecycleOk] at ok
      simp only [Lifetime.advance, place, Option.some.injEq] at step
      subst step
      exact sound.lifecycle_step (.inr ok) rfl sound.published (by simp [LifecycleOk])

theorem Sound.step [Fintype Caller] {home : Caller → Option PoolId}
    {state after : Lifetime Caller} {label : LifetimeLabel Caller} (sound : Sound state)
    (step : state.step home label = some after) : Sound after := by
  cases label with
  | begin call =>
      simp only [Lifetime.step] at step
      split at step <;> cases step
      rename_i free
      exact sound.lifecycle_step (.inl free.2) rfl sound.published rfl
  | lifecycle => exact sound.advance step
  | spawn caller | await caller =>
      simp only [Lifetime.step] at step
      split at step <;> cases step
      exact sound.local_step rfl rfl rfl rfl rfl trivial
  | proceed caller outcome => exact sound.proceed step

/-- The lock discipline holds in every run. -/
theorem sound_of_reachable [Fintype Caller] {home : Caller → Option PoolId}
    {guard : Lifetime Caller → LifetimeLabel Caller → Prop} {state : Lifetime Caller}
    (reach : (machine home).Reachable guard state) : Sound state := by
  refine reach.invariant ?_ fun before label after _ sound _ step => sound.step step
  rintro _ rfl
  exact sound_boot

/-! ## Uses of the pool -/

/-- No use of a deleted pool or of a null pointer has happened or is about to happen. -/
structure Clean (state : Lifetime Caller) : Prop where
  usable : ∀ caller pool, (state.position caller).pending = some pool →
    state.pools[pool]? ≠ some .deleted
  pointed : ∀ caller, state.position caller ≠ .spawnCall none
  unharmed : state.usedDeleted = false ∧ state.usedNull = false

theorem not_deleted_of_append {pools : List PoolPhase} {pool : PoolId}
    (gone : (pools ++ [.running])[pool]? = some .deleted) : pools[pool]? = some .deleted := by
  rw [List.getElem?_append] at gone
  split at gone
  · exact gone
  · rw [List.getElem?_singleton] at gone
    split at gone <;> simp at gone

/-- What one step of a caller does to the uses: pending pools come from `g_pool`, and a misuse is
one of the pool or null pointer pending before the step. -/
theorem proceed_uses {state after : Lifetime Caller} {caller : Caller} {outcome : Bool}
    (step : state.proceed caller outcome = some after) :
    ∃ position, after.position = Function.update state.position caller position ∧
      (∀ pool : PoolId, after.pools[pool]? = some .deleted → state.pools[pool]? = some .deleted) ∧
      (∀ pool, position.pending = some pool →
        state.gPool = some pool ∨ (state.position caller).pending = some pool) ∧
      (position = .spawnCall none → state.position caller = .spawnLoad ∧ state.gPool = none) ∧
      (after.usedDeleted = true → state.usedDeleted = true ∨ ∃ pool,
        (state.position caller).pending = some pool ∧ state.pools[pool]? = some .deleted) ∧
      (after.usedNull = true →
        state.usedNull = true ∨ state.position caller = .spawnCall none) := by
  cases place : state.position caller with
  | outside | ensureLock =>
      simp only [Lifetime.proceed, place] at step
      split at step <;> cases step
      exact ⟨_, rfl, by simp [goto, CallPosition.pending]⟩
  | ensureRecheck =>
      simp only [Lifetime.proceed, place] at step
      split at step <;> cases step
      · exact ⟨_, rfl, by simp [goto, CallPosition.pending]⟩
      · exact ⟨_, rfl, fun _ => not_deleted_of_append, by simp [goto, CallPosition.pending]⟩
  | ensureLoad =>
      simp only [Lifetime.proceed, place, Option.some.injEq] at step
      subst step
      refine ⟨_, rfl, ?_⟩
      split <;> simp [goto, CallPosition.pending]
  | spawnCall snapshot | awaitCall snapshot =>
      cases snapshot <;>
      · simp only [Lifetime.proceed, place, Option.some.injEq] at step
        subst step
        exact ⟨_, rfl, by simp [goto, touch, CallPosition.pending]⟩
  | awaitTest | stealing pool =>
      simp only [Lifetime.proceed, place, Option.some.injEq] at step
      subst step
      refine ⟨_, rfl, ?_⟩
      split <;> simp [goto, touch, CallPosition.pending]
  | ensurePublish pool | ensureUnlock | spawnLoad | submitting pool | awaitLoad | runStolen pool =>
      simp only [Lifetime.proceed, place, Option.some.injEq] at step
      subst step
      exact ⟨_, rfl, by simp [goto, touch, CallPosition.pending]⟩

/-- A caller that loads the pointer in time stays clean. -/
theorem Clean.proceed {state after : Lifetime Caller} {caller : Caller} {outcome : Bool}
    (clean : Clean state) (sound : Sound state) (timely : Timely state (.proceed caller outcome))
    (step : state.proceed caller outcome = some after) : Clean after := by
  obtain ⟨position, moved, pools, ahead, null, usedDeleted, usedNull⟩ := proceed_uses step
  have usable : ∀ pool, position.pending = some pool → state.pools[pool]? ≠ some .deleted := by
    intro pool pending
    rcases ahead pool pending with loaded | before
    · simp [sound.published pool loaded]
    · exact clean.usable caller pool before
  have pointed : position ≠ .spawnCall none := fun isNull =>
    timely (null isNull).1 (null isNull).2
  refine ⟨fun other pool => ?_, fun other => ?_, ?_, ?_⟩
  · rw [moved]
    by_cases own : other = caller
    · subst own
      simpa using fun pending gone => usable pool pending (pools pool gone)
    · simpa [own] using fun pending gone => clean.usable other pool pending (pools pool gone)
  · rw [moved]
    by_cases own : other = caller
    · subst own
      simpa using pointed
    · simpa [own] using clean.pointed other
  · by_contra used
    rcases usedDeleted (by simpa using used) with old | ⟨pool, pending, gone⟩
    · simp [clean.unharmed.1] at old
    · exact clean.usable caller pool pending gone
  · by_contra used
    rcases usedNull (by simpa using used) with old | isNull
    · simp [clean.unharmed.2] at old
    · exact clean.pointed caller isNull

omit [DecidableEq Caller] in
/-- A lifecycle step that deletes no pool in use keeps the callers clean. -/
theorem Clean.advance [Fintype Caller] {home : Caller → Option PoolId}
    {state after : Lifetime Caller} (clean : Clean state) (timely : Timely state .lifecycle)
    (step : state.advance home = some after) : Clean after := by
  -- Only the deletion can turn a pool that is ahead of a caller into a deleted one.
  have keep (position : after.position = state.position)
      (deleted : after.usedDeleted = state.usedDeleted) (null : after.usedNull = state.usedNull)
      (pools : ∀ caller pool, (state.position caller).pending = some pool →
        after.pools[pool]? = some .deleted → state.pools[pool]? = some .deleted) : Clean after := by
    refine ⟨fun caller pool pending gone => ?_, position ▸ clean.pointed,
      by rw [deleted, null]; exact clean.unharmed⟩
    rw [position] at pending
    exact clean.usable caller pool pending (pools caller pool pending gone)
  cases place : state.lifecycle with
  | outside => simp [Lifetime.advance, place] at step
  | loading call =>
      simp only [Lifetime.advance, place] at step
      split at step <;> cases step <;> exact keep rfl rfl rfl fun _ _ _ => id
  | stopping call old =>
      simp only [Lifetime.advance, place] at step
      split at step <;> cases step
      refine keep rfl rfl rfl fun _ pool _ gone => ?_
      simp only [List.getElem?_set] at gone
      split at gone
      · split at gone <;> simp at gone
      · exact gone
  | deleting call old =>
      simp only [Lifetime.advance, place, Option.some.injEq] at step
      subst step
      refine keep rfl rfl rfl fun caller pool pending gone => ?_
      have other : old ≠ pool := fun same =>
        timely old (by simp [place, LifecyclePosition.deletes]) caller (same ▸ pending)
      simpa [List.getElem?_set, other] using gone
  | starting =>
      simp only [Lifetime.advance, place, Option.some.injEq] at step
      subst step
      exact keep rfl rfl rfl fun _ _ _ => not_deleted_of_append
  | nulling | publishing | unlocking =>
      simp only [Lifetime.advance, place, Option.some.injEq] at step
      subst step
      exact keep rfl rfl rfl fun _ _ _ => id

/-- In runs of timely steps no use of a deleted pool or of a null pointer comes up. -/
theorem clean_of_reachable [Fintype Caller] {home : Caller → Option PoolId}
    {state : Lifetime Caller} (reach : (machine home).Reachable Timely state) : Clean state := by
  refine reach.invariant ?_ ?_
  · rintro _ rfl
    exact ⟨nofun, nofun, rfl, rfl⟩
  · intro before label after reached clean timely step
    have sound := sound_of_reachable reached
    change before.step home label = some after at step
    cases label with
    | begin call =>
        simp only [Lifetime.step] at step
        split at step <;> cases step
        exact ⟨clean.usable, clean.pointed, clean.unharmed⟩
    | lifecycle => exact clean.advance timely step
    | proceed caller outcome => exact clean.proceed sound timely step
    | spawn caller | await caller =>
        simp only [Lifetime.step] at step
        split at step <;> cases step
        refine ⟨fun other pool => ?_, fun other => ?_, clean.unharmed⟩
        · by_cases own : other = caller
          · simp [goto, own, CallPosition.pending]
          · simpa [goto, own] using clean.usable other pool
        · by_cases own : other = caller
          · simp [goto, own]
          · simpa [goto, own] using clean.pointed other

/-- A caller with a use of a deleted pool ahead makes it in its next step. -/
theorem proceed_of_deleted {state : Lifetime Caller} {caller : Caller} {pool : PoolId}
    (pending : (state.position caller).pending = some pool)
    (gone : state.pools[pool]? = some .deleted) :
    ∃ last, state.proceed caller false = some last ∧ last.usedDeleted = true := by
  cases place : state.position caller with
  | spawnCall snapshot | awaitCall snapshot =>
      obtain rfl : snapshot = some pool := by simpa [place, CallPosition.pending] using pending
      simp [Lifetime.proceed, place, goto, touch, gone]
  | submitting other | stealing other | runStolen other =>
      obtain rfl : other = pool := by simpa [place, CallPosition.pending] using pending
      simp [Lifetime.proceed, place, goto, touch, gone]
  | _ => simp [place, CallPosition.pending] at pending

/-- In runs of timely steps no method is called on a deleted pool or through a null pointer; after
a step that is not timely some caller's next step makes such a call. -/
theorem lifetime_safe [Fintype Caller] (home : Caller → Option PoolId) :
    (∀ state, (machine home).Reachable Timely state →
      state.usedDeleted = false ∧ state.usedNull = false) ∧
      ∀ state label after, (machine home).Reachable Transition.Machine.anyStep state →
        state.step home label = some after → ¬ Timely state label →
          ∃ caller last, after.proceed caller false = some last ∧
            (last.usedDeleted = true ∨ last.usedNull = true) := by
  refine ⟨fun state reach => (clean_of_reachable reach).unharmed, ?_⟩
  intro state label after reach step late
  have sound := sound_of_reachable reach
  cases label with
  | proceed caller outcome =>
      obtain ⟨place, null⟩ : state.position caller = .spawnLoad ∧ state.gPool = none := by
        simpa [Timely] using late
      have loaded : state.goto caller (.spawnCall none) = after := by
        simpa [Lifetime.step, Lifetime.proceed, place, null] using step
      subst loaded
      exact ⟨caller, by simp [Lifetime.proceed, goto]⟩
  | lifecycle =>
      simp only [Timely, not_forall, not_not] at late
      obtain ⟨old, deletes, caller, pending⟩ := late
      have ok := sound.lifecycle
      cases place : state.lifecycle with
      | deleting call pool =>
          obtain rfl : pool = old := by simpa [place, LifecyclePosition.deletes] using deletes
          simp only [place, LifecycleOk] at ok
          simp only [Lifetime.step, Lifetime.advance, place, Option.some.injEq] at step
          have gone : after.pools[pool]? = some .deleted := by
            simp [← step, ok.2.2]
          have ahead : (after.position caller).pending = some pool := step ▸ pending
          obtain ⟨last, moves, used⟩ := proceed_of_deleted ahead gone
          exact ⟨caller, last, moves, .inl used⟩
      | _ => simp [place, LifecyclePosition.deletes] at deletes
  | begin call => exact absurd trivial late
  | spawn caller => exact absurd trivial late
  | await caller => exact absurd trivial late

/-- A client whose thread is no worker of any pool. -/
def clientOnly : Fin 1 → Option PoolId := fun _ => none

/-- The pool is started, the client spawns, and the pool is shut down. -/
def timelyRun : List (LifetimeLabel (Fin 1)) :=
  [.begin .init, .lifecycle, .lifecycle, .lifecycle, .lifecycle, .spawn 0, .proceed 0 false,
    .proceed 0 false, .proceed 0 false, .proceed 0 false, .begin .shutdown, .lifecycle, .lifecycle,
    .lifecycle, .lifecycle, .lifecycle]

theorem lifetime_safe_client :
    ∃ state : Lifetime (Fin 1), (machine clientOnly).Reachable Timely state ∧
      state.pools = [.deleted] ∧ state.usedDeleted = false ∧ state.usedNull = false := by
  obtain ⟨state, reach, deleted⟩ := ((machine clientOnly).restrict Timely).exists_reachable
    (fun state => state.pools = [.deleted]) timelyRun rfl (by decide)
  exact ⟨state, reach.of_restrict, deleted, (lifetime_safe clientOnly).1 state reach.of_restrict⟩

/-- `shutdown` nulls the pointer between the client's `ensure_init` and its load. -/
def nullSpawnRun : List (LifetimeLabel (Fin 1)) :=
  [.begin .init, .lifecycle, .lifecycle, .lifecycle, .lifecycle, .spawn 0, .proceed 0 false,
    .begin .shutdown, .lifecycle, .lifecycle, .proceed 0 false, .proceed 0 false]

/-- `shutdown` deletes the pool between the load of an await loop and its `try_steal_any`. -/
def staleAwaitRun : List (LifetimeLabel (Fin 1)) :=
  [.begin .init, .lifecycle, .lifecycle, .lifecycle, .lifecycle, .await 0, .proceed 0 false,
    .proceed 0 false, .begin .shutdown, .lifecycle, .lifecycle, .lifecycle, .lifecycle,
    .proceed 0 false]

theorem lifetime_unsafe_client :
    (∃ state : Lifetime (Fin 1),
      (machine clientOnly).Reachable Transition.Machine.anyStep state ∧ state.usedNull = true) ∧
      ∃ state : Lifetime (Fin 1),
        (machine clientOnly).Reachable Transition.Machine.anyStep state ∧
          state.usedDeleted = true :=
  ⟨(machine clientOnly).exists_reachable (fun state => state.usedNull = true) nullSpawnRun rfl
    (by decide),
  (machine clientOnly).exists_reachable (fun state => state.usedDeleted = true) staleAwaitRun rfl
    (by decide)⟩

end Lifetime
end Runtime
end TopoLlvm
