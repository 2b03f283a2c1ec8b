import TopoLlvm.Library.Machine
import TopoLlvm.Runtime.Pool

/-!
# Ownership of a task object

`run_task_safely` completes a task while one consuming call waits for it or gives it up.  A label
is one access to the object: a lock operation, a flag, the exception, the condition variable or
`delete`.  An access to a freed object and a second `delete` are recorded, never prevented.
-/

namespace TopoLlvm
namespace Runtime

/-- The two parties that may lock `mtx`. -/
inductive Side where
  | runner
  | consumer
  deriving DecidableEq

/-- Where `run_task_safely` stands; `pending` is the captured exception. -/
inductive RunnerPosition where
  /-- The task is queued or in hand, and `work` is not entered. -/
  | queued
  | body
  | locking (pending : Option ExceptionPtr)
  | storing (pending : Option ExceptionPtr)
  | publishing
  | notifying
  | deciding
  | unlocking (freeHere : Bool)
  | freeing
  | finished
  deriving DecidableEq

/-- Where the consuming call stands. -/
inductive ConsumerPosition where
  /-- Nobody consumes the handle yet. -/
  | pending
  /-- The loop condition of `topo_task_await`. -/
  | awaitTest
  /-- `try_steal_any` and, if it finds a task, `run_stolen`. -/
  | awaitTurn
  | parkLock
  /-- The predicate of `wait_for`, under the lock. -/
  | parkTest (timedOut : Bool)
  | parkWait
  | parkUnlock
  | barrierLock
  | moveException
  | barrierUnlock (captured : Option ExceptionPtr)
  | deleting (captured : Option ExceptionPtr)
  /-- `topo_task_await` is left, by rethrowing a captured exception. -/
  | awaited (captured : Option ExceptionPtr)
  | detachLock
  | detachTest
  | detachUnlock (freeNow : Bool)
  | detachFree
  | released
  deriving DecidableEq

/-- A task object with the parties that use it. -/
structure Handle where
  done : Bool
  detached : Bool
  exception : Option ExceptionPtr
  mtx : Option Side
  runner : RunnerPosition
  consumer : ConsumerPosition
  /-- Ghost: how the body ended. -/
  outcome : Option (Option ExceptionPtr)
  /-- Ghost: the number of `delete`s. -/
  frees : Nat
  /-- Ghost: the object was accessed after a `delete`, or deleted while locked. -/
  misused : Bool

/-- Steps of the two parties. -/
inductive HandleLabel where
  /-- `run_task_safely` moves on; `raised` is how the body ends. -/
  | run (raised : Option ExceptionPtr)
  | await
  | detach
  /-- The consuming call moves on; `choice` resolves a helping turn or a timeout. -/
  | consume (choice : Bool)

namespace Handle

/-- An access to the object. -/
def touch (handle : Handle) : Handle :=
  { handle with misused := handle.misused || 0 < handle.frees }

/-- `delete task`. -/
def free (handle : Handle) : Handle :=
  { handle.touch with
    frees := handle.frees + 1
    misused := handle.touch.misused || handle.mtx.isSome }

/-- Acquire `mtx`, waiting while it is held. -/
def lock (handle : Handle) (side : Side) : Option Handle :=
  if handle.mtx = none then some { handle.touch with mtx := some side } else none

/-- Release `mtx`. -/
def unlock (handle : Handle) : Handle :=
  { handle.touch with mtx := none }

/-- One step of `run_task_safely`. -/
def run (handle : Handle) (raised : Option ExceptionPtr) : Option Handle :=
  match handle.runner with
  | .queued => some { handle.touch with runner := .body }
  | .body => some { handle.touch with runner := .locking raised, outcome := some raised }
  | .locking pending => (handle.lock .runner).map ({ · with runner := .storing pending })
  | .storing pending =>
      some { handle.touch with
        exception := if pending.isSome then pending else handle.exception
        runner := .publishing }
  | .publishing => some { handle.touch with done := true, runner := .notifying }
  | .notifying => some { handle.touch with runner := .deciding }
  | .deciding => some { handle.touch with runner := .unlocking handle.detached }
  | .unlocking freeHere =>
      some { handle.unlock with runner := if freeHere then .freeing else .finished }
  | .freeing => some { handle.free with runner := .finished }
  | .finished => none

/-- One step of the consuming call. -/
def consume (handle : Handle) (choice : Bool) : Option Handle :=
  match handle.consumer with
  | .pending | .awaited _ | .released => none
  | .awaitTest =>
      some { handle.touch with consumer := if handle.done then .barrierLock else .awaitTurn }
  | .awaitTurn => some { handle with consumer := if choice then .awaitTest else .parkLock }
  | .parkLock => (handle.lock .consumer).map ({ · with consumer := .parkTest false })
  | .parkTest timedOut =>
      if handle.done || timedOut then some { handle.touch with consumer := .parkUnlock }
      else some { handle.unlock with consumer := .parkWait }
  | .parkWait => (handle.lock .consumer).map ({ · with consumer := .parkTest choice })
  | .parkUnlock => some { handle.unlock with consumer := .awaitTest }
  | .barrierLock => (handle.lock .consumer).map ({ · with consumer := .moveException })
  | .moveException =>
      some { handle.touch with
        exception := none
        consumer := .barrierUnlock handle.exception }
  | .barrierUnlock captured => some { handle.unlock with consumer := .deleting captured }
  | .deleting captured => some { handle.free with consumer := .awaited captured }
  | .detachLock => (handle.lock .consumer).map ({ · with consumer := .detachTest })
  | .detachTest =>
      if handle.done then some { handle.touch with consumer := .detachUnlock true }
      else some { handle.touch with detached := true, consumer := .detachUnlock false }
  | .detachUnlock freeNow =>
      some { handle.unlock with consumer := if freeNow then .detachFree else .released }
  | .detachFree => some { handle.free with consumer := .released }

/-- Start the one consuming call. -/
def begin (handle : Handle) (position : ConsumerPosition) : Option Handle :=
  if handle.consumer = .pending then some { handle with consumer := position } else none

/-- One step of a party. -/
def step (handle : Handle) : HandleLabel → Option Handle
  | .run raised => handle.run raised
  | .await => handle.begin .awaitTest
  | .detach => handle.begin .detachLock
  | .consume choice => handle.consume choice

/-- A spawned task whose handle nobody has consumed. -/
def spawned : Handle where
  done := false
  detached := false
  exception := none
  mtx := none
  runner := .queued
  consumer := .pending
  outcome := none
  frees := 0
  misused := false

/-- A task object as a machine. -/
def machine : Transition.Machine Handle HandleLabel where
  initial handle := handle = spawned
  step := step

/-! ## Who may use the object -/

/-- What the runner's position says about the lock, the flags and the exception. -/
def RunnerOk (handle : Handle) : RunnerPosition → Prop
  | .queued | .body =>
      handle.mtx ≠ some .runner ∧ handle.done = false ∧ handle.exception = none ∧
        handle.outcome = none
  | .locking pending =>
      handle.mtx ≠ some .runner ∧ handle.done = false ∧ handle.exception = none ∧
        handle.outcome = some pending
  | .storing pending =>
      handle.mtx = some .runner ∧ handle.done = false ∧ handle.exception = none ∧
        handle.outcome = some pending
  | .publishing =>
      handle.mtx = some .runner ∧ handle.done = false ∧ handle.outcome = some handle.exception
  | .notifying | .deciding =>
      handle.mtx = some .runner ∧ handle.done = true ∧ handle.outcome = some handle.exception
  | .unlocking freeHere =>
      handle.mtx = some .runner ∧ handle.done = true ∧ handle.outcome = some handle.exception ∧
        freeHere = handle.detached
  | .freeing => handle.mtx ≠ some .runner ∧ handle.done = true ∧ handle.detached = true
  | .finished => handle.mtx ≠ some .runner ∧ handle.done = true

/-- The exception is still in the task. -/
def Kept (handle : Handle) : Prop :=
  handle.runner = .finished → handle.outcome = some handle.exception

/-- What the consumer's position says about the lock, the flags and the runner. -/
def ConsumerOk (handle : Handle) : ConsumerPosition → Prop
  | .pending | .awaitTest | .awaitTurn | .parkLock | .parkWait | .detachLock =>
      handle.mtx ≠ some .consumer ∧ handle.detached = false ∧ handle.Kept
  | .parkTest _ | .parkUnlock | .detachTest =>
      handle.mtx = some .consumer ∧ handle.detached = false ∧ handle.Kept
  | .barrierLock =>
      handle.mtx ≠ some .consumer ∧ handle.detached = false ∧ handle.Kept ∧ handle.done = true
  | .moveException =>
      handle.mtx = some .consumer ∧ handle.detached = false ∧ handle.Kept ∧
        handle.runner = .finished
  | .barrierUnlock captured =>
      handle.mtx = some .consumer ∧ handle.detached = false ∧ handle.runner = .finished ∧
        handle.outcome = some captured
  | .deleting captured | .awaited captured =>
      handle.mtx ≠ some .consumer ∧ handle.detached = false ∧ handle.runner = .finished ∧
        handle.outcome = some captured
  | .detachUnlock true =>
      handle.mtx = some .consumer ∧ handle.detached = false ∧ handle.runner = .finished
  | .detachUnlock false =>
      handle.mtx = some .consumer ∧ handle.detached = true ∧ handle.done = false
  | .detachFree =>
      handle.mtx ≠ some .consumer ∧ handle.detached = false ∧ handle.runner = .finished
  | .released =>
      handle.mtx ≠ some .consumer ∧ (handle.detached = false → handle.runner = .finished)

/-- The side that has freed the object, if any. -/
def freed (handle : Handle) : Nat :=
  (if handle.runner = .finished ∧ handle.detached = true then 1 else 0) +
    match handle.consumer with
    | .awaited _ => 1
    | .released => if handle.detached then 0 else 1
    | _ => 0

/-- The ownership protocol of a task object. -/
structure Owned (handle : Handle) : Prop where
  runner : handle.RunnerOk handle.runner
  consumer : handle.ConsumerOk handle.consumer
  frees : handle.frees = handle.freed
  unharmed : handle.misused = false

theorem owned_spawned : Owned spawned where
  runner := by simp [RunnerOk, spawned]
  consumer := by simp [ConsumerOk, Kept, spawned]
  frees := rfl
  unharmed := rfl

/-- A consuming call that is on its way. -/
def Busy : ConsumerPosition → Prop
  | .pending | .awaited _ | .released => False
  | _ => True

/-- Nothing is freed while `run_task_safely` is on its way. -/
theorem Owned.runner_unfreed {handle : Handle} (owned : Owned handle)
    (busy : handle.runner ≠ .finished) : handle.frees = 0 := by
  have ok := owned.consumer
  rw [owned.frees]
  cases place : handle.consumer with
  | awaited captured => simp [place, ConsumerOk, busy] at ok
  | released => simp_all [ConsumerOk, freed]
  | _ => simp [freed, place, busy]

/-- Nothing is freed while the consuming call is on its way. -/
theorem Owned.consumer_unfreed {handle : Handle} (owned : Owned handle)
    (busy : Busy handle.consumer) : handle.frees = 0 := by
  have ok := owned.consumer
  have runner := owned.runner
  rw [owned.frees]
  cases place : handle.consumer with
  | pending | awaited captured | released => simp [place, Busy] at busy
  | detachUnlock freeNow =>
      cases freeNow with
      | true => simp_all [ConsumerOk, freed]
      | false =>
          have running : handle.runner ≠ .finished := by
            intro finished
            simp_all [ConsumerOk, RunnerOk]
          simp [freed, place, running]
  | _ => simp_all [ConsumerOk, freed]

/-- The consumer's view survives a step of the runner that does not end the task unpublished. -/
theorem ConsumerOk.of_run {handle after : Handle} {position : ConsumerPosition}
    (ok : handle.ConsumerOk position) (busy : handle.runner ≠ .finished)
    (mtx : after.mtx = some .consumer ↔ handle.mtx = some .consumer)
    (detached : after.detached = handle.detached) (kept : handle.detached = false → after.Kept)
    (done : after.done = handle.done ∨ after.done = true ∧ handle.mtx ≠ some .consumer) :
    after.ConsumerOk position := by
  cases position with
  | detachUnlock freeNow => cases freeNow <;> simp_all [ConsumerOk]
  | barrierLock =>
      rcases done with same | ⟨set, -⟩ <;> simp_all [ConsumerOk]
  | _ => simp_all [ConsumerOk]

/-- The runner's view survives a step of the consumer. -/
theorem RunnerOk.of_consume {handle after : Handle} {position : RunnerPosition}
    (ok : handle.RunnerOk position)
    (mtx : after.mtx = some .runner ↔ handle.mtx = some .runner)
    (done : after.done = handle.done) (outcome : after.outcome = handle.outcome)
    (exception : position = .finished ∨ after.exception = handle.exception)
    (detached : after.detached = handle.detached ∨
      handle.done = false ∧ after.detached = true) : after.RunnerOk position := by
  cases position <;> simp_all [RunnerOk]

/-- A step of the runner before its last one, which touches the object. -/
theorem Owned.running {handle after : Handle} (owned : Owned handle)
    (busy : handle.runner ≠ .finished) (stays : after.runner ≠ .finished)
    (consumer : after.consumer = handle.consumer) (ok : after.RunnerOk after.runner)
    (mtx : after.mtx = some .consumer ↔ handle.mtx = some .consumer)
    (detached : after.detached = handle.detached)
    (done : after.done = handle.done ∨ after.done = true ∧ handle.mtx ≠ some .consumer)
    (frees : after.frees = handle.frees) (misused : after.misused = handle.touch.misused) :
    Owned after := by
  have unfreed := owned.runner_unfreed busy
  refine ⟨ok, ?_, ?_, ?_⟩
  · rw [consumer]
    exact owned.consumer.of_run busy mtx detached (fun _ finished => absurd finished stays) done
  · have law := owned.frees
    simpa [frees, freed, consumer, detached, stays, busy] using law
  · rw [misused, touch, owned.unharmed, unfreed]
    rfl

/-- Every step of `run_task_safely` keeps the ownership protocol. -/
theorem Owned.run {handle after : Handle} {raised : Option ExceptionPtr} (owned : Owned handle)
    (step : handle.run raised = some after) : Owned after := by
  have ok := owned.runner
  cases place : handle.runner with
  | finished => simp [Handle.run, place] at step
  | queued | body | storing pending | notifying | deciding =>
      simp only [Handle.run, place, Option.some.injEq] at step
      subst step
      exact owned.running (by simp [place]) (by simp) rfl (by simp_all [RunnerOk, touch])
        Iff.rfl rfl (.inl rfl) rfl rfl
  | publishing =>
      simp only [Handle.run, place, Option.some.injEq] at step
      subst step
      exact owned.running (by simp [place]) (by simp) rfl (by simp_all [RunnerOk, touch])
        Iff.rfl rfl (.inr ⟨rfl, by simp_all [RunnerOk]⟩) rfl rfl
  | locking pending =>
      simp only [Handle.run, place, lock] at step
      split at step
      · rename_i free
        simp only [Option.map_some, Option.some.injEq] at step
        subst step
        exact owned.running (by simp [place]) (by simp) rfl (by simp_all [RunnerOk, touch])
          (by simp [free]) rfl (.inl rfl) rfl rfl
      · cases step
  | unlocking freeHere =>
      simp only [Handle.run, place, Option.some.injEq] at step
      simp only [place, RunnerOk] at ok
      obtain ⟨held, done, outcome, rfl⟩ := ok
      subst step
      cases detached : handle.detached with
      | true =>
          exact owned.running (by simp [place]) (by simp) rfl
            (by simp [RunnerOk, unlock, touch, done, detached]) (by simp [unlock, held]) rfl
            (.inl rfl) rfl rfl
      | false =>
          have unfreed := owned.runner_unfreed (by simp [place])
          refine ⟨by simp [RunnerOk, unlock, touch, done], ?_, ?_, ?_⟩
          · exact owned.consumer.of_run (by simp [place]) (by simp [unlock, held]) rfl
              (fun _ _ => outcome) (.inl rfl)
          · have law := owned.frees
            simpa [freed, place, detached, unlock, touch] using law
          · simp [unlock, touch, owned.unharmed, unfreed]
  | freeing =>
      have unfreed := owned.runner_unfreed (by simp [place])
      have consumer := owned.consumer
      simp only [place, RunnerOk] at ok
      obtain ⟨held, done, detached⟩ := ok
      -- The consumer has set `detached` and released the handle.
      have released : handle.consumer = .released := by
        cases position : handle.consumer with
        | released => rfl
        | detachUnlock freeNow => cases freeNow <;> simp_all [ConsumerOk]
        | _ => simp_all [ConsumerOk]
      have free : handle.mtx = none := by
        have unlocked : handle.mtx ≠ some .consumer := by simp_all [ConsumerOk]
        rcases owner : handle.mtx with _ | _ | _
        · rfl
        · exact absurd owner held
        · exact absurd owner unlocked
      simp only [Handle.run, place, Option.some.injEq] at step
      subst step
      refine ⟨by simp [RunnerOk, Handle.free, touch, free, done], ?_, ?_, ?_⟩
      · simp [ConsumerOk, Handle.free, touch, released, free]
      · simp [freed, Handle.free, touch, released, detached, unfreed]
      · simp [Handle.free, touch, owned.unharmed, unfreed, free]

/-- A step of the consuming call before its last one. -/
theorem Owned.consuming {handle after : Handle} (owned : Owned handle)
    (busy : Busy handle.consumer) (stays : Busy after.consumer)
    (runner : after.runner = handle.runner) (ok : after.ConsumerOk after.consumer)
    (mtx : after.mtx = some .runner ↔ handle.mtx = some .runner)
    (done : after.done = handle.done) (outcome : after.outcome = handle.outcome)
    (exception : handle.runner = .finished ∨ after.exception = handle.exception)
    (detached : after.detached = handle.detached ∨
      handle.done = false ∧ after.detached = true)
    (frees : after.frees = handle.frees)
    (misused : after.misused = handle.misused ∨ after.misused = handle.touch.misused) :
    Owned after := by
  have unfreed := owned.consumer_unfreed busy
  have runnerOk := owned.runner
  refine ⟨?_, ok, ?_, ?_⟩
  · rw [runner]
    exact runnerOk.of_consume mtx done outcome exception detached
  · -- The flag is set only before the runner's last step.
    have running : ¬ (handle.runner = .finished ∧ after.detached = true) := by
      rintro ⟨finished, set⟩
      rcases detached with same | ⟨undone, -⟩
      · have law := owned.frees
        simp only [freed, unfreed, finished, same ▸ set, and_self, if_true] at law
        omega
      · simp [finished, RunnerOk, undone] at runnerOk
    rw [frees, unfreed, freed, runner, if_neg running]
    cases place : after.consumer <;> simp_all [Busy]
  · rcases misused with same | same
    · rw [same, owned.unharmed]
    · rw [same, touch, owned.unharmed, unfreed]
      rfl

/-- The consuming call deletes the object while nobody else can use it. -/
theorem Owned.deleting {handle : Handle} (owned : Owned handle) (busy : Busy handle.consumer)
    {position : ConsumerPosition} (unlocked : handle.mtx ≠ some .consumer)
    (detached : handle.detached = false) (finished : handle.runner = .finished)
    (last : position = .released ∨
      ∃ captured, position = .awaited captured ∧ handle.outcome = some captured) :
    Owned { handle.free with consumer := position } := by
  have unfreed := owned.consumer_unfreed busy
  have ok := owned.runner
  simp only [finished, RunnerOk] at ok
  have free : handle.mtx = none := by
    rcases owner : handle.mtx with _ | _ | _
    · rfl
    · exact absurd owner ok.1
    · exact absurd owner unlocked
  refine ⟨by simp [RunnerOk, Handle.free, touch, finished, ok], ?_, ?_, ?_⟩
  · obtain rfl | ⟨captured, rfl, outcome⟩ := last <;>
      simp [ConsumerOk, Handle.free, touch, *]
  · rcases last with rfl | ⟨captured, rfl, outcome⟩ <;> simp [freed, Handle.free, touch, *]
  · simp [Handle.free, touch, owned.unharmed, unfreed, free]

/-- Every step of the consuming call keeps the ownership protocol. -/
theorem Owned.consume {handle after : Handle} {choice : Bool} (owned : Owned handle)
    (step : handle.consume choice = some after) : Owned after := by
  have ok := owned.consumer
  have runner := owned.runner
  cases place : handle.consumer with
  | pending | awaited captured | released => simp [Handle.consume, place] at step
  | awaitTest =>
      simp only [place, ConsumerOk] at ok
      simp only [Handle.consume, place, Option.some.injEq] at step
      subst step
      refine owned.consuming (by simp [place, Busy]) ?_ rfl ?_ Iff.rfl rfl rfl (.inr rfl)
        (.inl rfl) rfl (.inr rfl)
      · simp only; split <;> trivial
      · simp only
        split
        · rename_i done
          exact ⟨ok.1, ok.2.1, ok.2.2, done⟩
        · exact ok
  | awaitTurn =>
      simp only [place, ConsumerOk] at ok
      simp only [Handle.consume, place, Option.some.injEq] at step
      subst step
      refine owned.consuming (by simp [place, Busy]) ?_ rfl ?_ Iff.rfl rfl rfl (.inr rfl)
        (.inl rfl) rfl (.inl rfl)
      · simp only; split <;> trivial
      · simp only; split <;> exact ok
  | parkTest timedOut =>
      simp only [place, ConsumerOk] at ok
      simp only [Handle.consume, place] at step
      split at step
      · simp only [Option.some.injEq] at step
        subst step
        exact owned.consuming (by simp [place, Busy]) trivial rfl ok Iff.rfl rfl rfl (.inr rfl)
          (.inl rfl) rfl (.inr rfl)
      · simp only [Option.some.injEq] at step
        subst step
        exact owned.consuming (by simp [place, Busy]) trivial rfl
          ⟨by simp [unlock], ok.2.1, ok.2.2⟩ (by simp [unlock, ok.1]) rfl rfl (.inr rfl)
          (.inl rfl) rfl (.inr rfl)
  | parkUnlock =>
      simp only [place, ConsumerOk] at ok
      simp only [Handle.consume, place, Option.some.injEq] at step
      subst step
      exact owned.consuming (by simp [place, Busy]) trivial rfl
        ⟨by simp [unlock], ok.2.1, ok.2.2⟩ (by simp [unlock, ok.1]) rfl rfl (.inr rfl)
        (.inl rfl) rfl (.inr rfl)
  | parkLock | parkWait | detachLock =>
      simp only [place, ConsumerOk] at ok
      simp only [Handle.consume, place, lock] at step
      split at step
      · rename_i free
        simp only [Option.map_some, Option.some.injEq] at step
        subst step
        exact owned.consuming (by simp [place, Busy]) trivial rfl ⟨rfl, ok.2.1, ok.2.2⟩
          (by simp [free]) rfl rfl (.inr rfl) (.inl rfl) rfl (.inr rfl)
      · cases step
  | barrierLock =>
      simp only [place, ConsumerOk] at ok
      simp only [Handle.consume, place, lock] at step
      split at step
      · rename_i free
        -- `done` is set, the lock is free and the task is not detached: the runner is finished.
        have finished : handle.runner = .finished := by
          cases position : handle.runner <;> simp_all [RunnerOk]
        simp only [Option.map_some, Option.some.injEq] at step
        subst step
        exact owned.consuming (by simp [place, Busy]) trivial rfl ⟨rfl, ok.2.1, ok.2.2.1, finished⟩
          (by simp [free]) rfl rfl (.inr rfl) (.inl rfl) rfl (.inr rfl)
      · cases step
  | moveException =>
      simp only [place, ConsumerOk] at ok
      simp only [Handle.consume, place, Option.some.injEq] at step
      subst step
      exact owned.consuming (by simp [place, Busy]) trivial rfl
        ⟨ok.1, ok.2.1, ok.2.2.2, ok.2.2.1 ok.2.2.2⟩ Iff.rfl rfl rfl (.inl ok.2.2.2) (.inl rfl) rfl
        (.inr rfl)
  | barrierUnlock captured =>
      simp only [place, ConsumerOk] at ok
      simp only [Handle.consume, place, Option.some.injEq] at step
      subst step
      exact owned.consuming (by simp [place, Busy]) trivial rfl ⟨by simp [unlock], ok.2⟩
        (by simp [unlock, ok.1]) rfl rfl (.inr rfl) (.inl rfl) rfl (.inr rfl)
  | deleting captured =>
      simp only [place, ConsumerOk] at ok
      simp only [Handle.consume, place, Option.some.injEq] at step
      subst step
      exact owned.deleting (by simp [place, Busy]) ok.1 ok.2.1 ok.2.2.1 (.inr ⟨_, rfl, ok.2.2.2⟩)
  | detachTest =>
      simp only [place, ConsumerOk] at ok
      simp only [Handle.consume, place] at step
      split at step
      · rename_i done
        have finished : handle.runner = .finished := by
          cases position : handle.runner <;> simp_all [RunnerOk]
        simp only [Option.some.injEq] at step
        subst step
        exact owned.consuming (by simp [place, Busy]) trivial rfl ⟨ok.1, ok.2.1, finished⟩ Iff.rfl
          rfl rfl (.inr rfl) (.inl rfl) rfl (.inr rfl)
      · rename_i undone
        simp only [Option.some.injEq] at step
        subst step
        exact owned.consuming (by simp [place, Busy]) trivial rfl
          ⟨ok.1, rfl, by simpa [touch] using undone⟩ Iff.rfl rfl rfl (.inr rfl)
          (.inr ⟨by simpa using undone, rfl⟩) rfl (.inr rfl)
  | detachUnlock freeNow =>
      cases freeNow with
      | true =>
          simp only [place, ConsumerOk] at ok
          simp only [Handle.consume, place, Option.some.injEq] at step
          subst step
          exact owned.consuming (by simp [place, Busy]) trivial rfl ⟨by simp [unlock], ok.2⟩
            (by simp [unlock, ok.1]) rfl rfl (.inr rfl) (.inl rfl) rfl (.inr rfl)
      | false =>
          have unfreed := owned.consumer_unfreed (by simp [place, Busy])
          simp only [place, ConsumerOk] at ok
          simp only [Handle.consume, place, Option.some.injEq] at step
          subst step
          refine ⟨?_, ?_, ?_, ?_⟩
          · exact runner.of_consume (by simp [unlock, ok.1]) rfl rfl (.inr rfl) (.inl rfl)
          · simp [ConsumerOk, unlock, touch, ok.2.1]
          · have law := owned.frees
            simpa [freed, place, unlock, touch, ok.2.1] using law
          · simp [unlock, touch, owned.unharmed, unfreed]
  | detachFree =>
      simp only [place, ConsumerOk] at ok
      simp only [Handle.consume, place, Option.some.injEq] at step
      subst step
      exact owned.deleting (by simp [place, Busy]) ok.1 ok.2.1 ok.2.2 (.inl rfl)

theorem Owned.begin {handle after : Handle} {position : ConsumerPosition} (owned : Owned handle)
    (first : position = .awaitTest ∨ position = .detachLock)
    (step : handle.begin position = some after) : Owned after := by
  have ok := owned.consumer
  have law := owned.frees
  simp only [Handle.begin] at step
  split at step <;> cases step
  rename_i pending
  simp only [pending, ConsumerOk] at ok
  refine ⟨owned.runner.of_consume Iff.rfl rfl rfl (.inr rfl) (.inl rfl), ?_, ?_, owned.unharmed⟩
  · rcases first with rfl | rfl <;> exact ok
  · rcases first with rfl | rfl <;> simpa [freed, pending] using law

theorem Owned.step {handle after : Handle} {label : HandleLabel} (owned : Owned handle)
    (step : handle.step label = some after) : Owned after := by
  cases label with
  | run raised => exact owned.run step
  | consume choice => exact owned.consume step
  | await => exact owned.begin (.inl rfl) step
  | detach => exact owned.begin (.inr rfl) step

/-- The ownership protocol holds in every run of a task object. -/
theorem owned_of_reachable {guard : Handle → HandleLabel → Prop} {handle : Handle}
    (reach : machine.Reachable guard handle) : Owned handle := by
  refine reach.invariant ?_ fun before label after _ owned _ step => owned.step step
  rintro _ rfl
  exact owned_spawned

/-! ## After the consuming call -/

/-- The consuming call has returned. -/
def Consumed (handle : Handle) : Prop :=
  match handle.consumer with
  | .awaited _ | .released => True
  | _ => False

/-- Steps of `run_task_safely` after a position. -/
def remaining : RunnerPosition → Nat
  | .queued => 9
  | .body => 8
  | .locking _ => 7
  | .storing _ => 6
  | .publishing => 5
  | .notifying => 4
  | .deciding => 3
  | .unlocking _ => 2
  | .freeing => 1
  | .finished => 0

theorem Owned.freed_of_finished {handle : Handle} (owned : Owned handle)
    (finished : handle.runner = .finished) (consumed : handle.Consumed) : handle.frees = 1 := by
  have ok := owned.consumer
  rw [owned.frees]
  cases place : handle.consumer with
  | awaited captured => simp_all [ConsumerOk, freed]
  | released => cases detached : handle.detached <;> simp [freed, place, finished, detached]
  | _ => simp [Consumed, place] at consumed

/-- No lock keeps `run_task_safely` from its next step once the consuming call has returned. -/
theorem Owned.run_enabled {handle : Handle} (owned : Owned handle) (consumed : handle.Consumed)
    (busy : handle.runner ≠ .finished) :
    ∃ after, handle.run none = some after ∧ after.Consumed ∧
      remaining after.runner < remaining handle.runner := by
  have ok := owned.consumer
  have runner := owned.runner
  have released : handle.consumer = .released := by
    cases place : handle.consumer with
    | released => rfl
    | awaited captured => simp_all [ConsumerOk]
    | _ => simp [Consumed, place] at consumed
  cases place : handle.runner with
  | finished => exact absurd place busy
  | locking pending =>
      have free : handle.mtx = none := by
        rcases owner : handle.mtx with _ | _ | _ <;> simp_all [ConsumerOk, RunnerOk]
      simp [Handle.run, place, lock, free, touch, Consumed, released, remaining]
  | unlocking freeHere =>
      cases freeHere <;> simp [Handle.run, place, unlock, touch, Consumed, released, remaining]
  | freeing => simp [Handle.run, place, Handle.free, touch, Consumed, released, remaining]
  | _ => simp [Handle.run, place, touch, Consumed, released, remaining]

/-- Once the consuming call has returned, `run_task_safely` alone brings the object to its one
`delete`. -/
theorem Owned.frees_alone {handle : Handle} (owned : Owned handle) (consumed : handle.Consumed) :
    ∃ steps ≤ remaining handle.runner, ∃ last,
      machine.exec handle (List.replicate steps (.run none)) = some last ∧ last.frees = 1 := by
  induction left : remaining handle.runner using Nat.strong_induction_on generalizing handle with
  | _ left ih =>
      by_cases finished : handle.runner = .finished
      · exact ⟨0, Nat.zero_le _, handle, rfl, owned.freed_of_finished finished consumed⟩
      · obtain ⟨after, step, still, fewer⟩ := owned.run_enabled consumed finished
        obtain ⟨steps, bound, last, run, freed⟩ := ih _ (left ▸ fewer) (owned.run step) still rfl
        refine ⟨steps + 1, by omega, last, ?_, freed⟩
        rw [List.replicate_succ]
        exact Option.bind_eq_some_iff.mpr ⟨after, step, run⟩

theorem Owned.frees_le_one {handle : Handle} (owned : Owned handle) : handle.frees ≤ 1 := by
  have ok := owned.consumer
  rw [owned.frees]
  cases place : handle.consumer with
  | awaited captured =>
      simp only [place, ConsumerOk] at ok
      simp [freed, place, ok.2.1]
  | released =>
      simp only [freed, place]
      cases detached : handle.detached
      · simp
      · simp only [and_true, if_true]
        split <;> omega
  | _ =>
      simp only [freed, place]
      split <;> omega

/-- After the end of the body at most seven steps of `run_task_safely` are left. -/
theorem Owned.remaining_le {handle : Handle} (owned : Owned handle)
    (ended : handle.outcome.isSome) : remaining handle.runner ≤ 7 := by
  have ok := owned.runner
  cases place : handle.runner <;> simp_all [RunnerOk, remaining]

/-- An awaited handle stays awaited. -/
theorem awaited_of_step {handle after : Handle} {label : HandleLabel}
    {captured : Option ExceptionPtr} (step : handle.step label = some after)
    (awaited : handle.consumer = .awaited captured) : after.consumer = .awaited captured := by
  cases label with
  | await | detach => simp [Handle.step, Handle.begin, awaited] at step
  | consume choice => simp [Handle.step, Handle.consume, awaited] at step
  | run raised =>
      rw [← awaited]
      cases place : handle.runner with
      | finished => simp [Handle.step, Handle.run, place] at step
      | locking pending =>
          simp only [Handle.step, Handle.run, place, lock] at step
          split at step <;> cases step
          rfl
      | _ =>
          simp only [Handle.step, Handle.run, place, Option.some.injEq] at step
          subst step
          rfl

end Handle
end Runtime
end TopoLlvm
