import TopoLlvm.Runtime.AwaitAll

/-!
# Exceptions out of `topo_task_await_all`

When the loop over the handles is left, the kept exception is the one of the first task in the
array whose body has thrown, and all tasks of the array are freed.  Once the bodies have ended,
the loop needs no steps but its own to get there.
-/

namespace TopoLlvm
namespace Runtime

/-- The exception that the body has thrown. -/
def Handle.thrown (handle : Handle) : Option ExceptionPtr := handle.outcome.join

/-- What is awaited is finished, and what it has thrown was captured. -/
theorem Handle.Owned.of_awaited {handle : Handle} {captured : Option ExceptionPtr}
    (owned : Handle.Owned handle) (awaited : handle.consumer = .awaited captured) :
    handle.runner = .finished ∧ handle.outcome = some captured := by
  have ok := owned.consumer
  rw [awaited] at ok
  exact ok.2.2

namespace Batch

variable {count : Nat}

/-- The exception of the first of the tasks that has thrown. -/
def lowest (tasks : List (Option (Fin count))) (batch : Batch count) : Option ExceptionPtr :=
  tasks.findSome? fun task => task.bind fun task => (batch.handles task).thrown

/-! ## The first exception -/

variable {tasks : HandleArray count} {batch after : Batch count}

/-- Tasks that the loop has passed have ended for good. -/
theorem lowest_take_of_step (before : (machine tasks).Reachable Transition.Machine.anyStep batch)
    (reached : (machine tasks).Reachable Transition.Machine.anyStep after)
    (later : ∀ task captured, (batch.handles task).consumer = .awaited captured →
      (after.handles task).consumer = .awaited captured) :
    lowest (tasks.1.take batch.index) after = lowest (tasks.1.take batch.index) batch := by
  have walked := walked_of_reachable before
  have same (entry : Option (Fin count)) (member : entry ∈ tasks.1.take batch.index) :
      (entry.bind fun task => (after.handles task).thrown) =
        entry.bind fun task => (batch.handles task).thrown := by
    cases entry with
    | none => rfl
    | some task =>
        obtain ⟨index, found⟩ := List.mem_iff_getElem?.mp member
        rw [List.getElem?_take] at found
        split at found
        · rename_i passed
          obtain ⟨captured, awaited⟩ := walked.passed index passed task found
          have ended := ((owned_of_reachable before task).of_awaited awaited).2
          have owned := owned_of_reachable reached task
          have still := (owned.of_awaited (later task captured awaited)).2
          simp only [Option.bind_some, Handle.thrown, ended, still]
        · cases found
  have mapped (state : Batch count) : lowest (tasks.1.take batch.index) state =
      ((tasks.1.take batch.index).map fun entry =>
        entry.bind fun task => (state.handles task).thrown).findSome? id := by
    rw [List.findSome?_map]
    rfl
  rw [mapped, mapped, List.map_congr_left same]

/-- Awaited handles stay awaited. -/
theorem awaited_of_step {label : BatchLabel count}
    (step : batch.step tasks label = some after) {task : Fin count}
    {captured : Option ExceptionPtr} (awaited : (batch.handles task).consumer = .awaited captured) :
    (after.handles task).consumer = .awaited captured := by
  rcases handles_of_step step with same | ⟨other, action, handle, moves, updated⟩
  · rw [same]
    exact awaited
  · rw [updated]
    by_cases own : task = other
    · subst own
      rw [Function.update_self]
      exact Handle.awaited_of_step moves awaited
    · rw [Function.update_of_ne own]
      exact awaited

/-- The loop moves on to the next handle, or stays. -/
theorem index_of_step {label : BatchLabel count} (step : batch.step tasks label = some after) :
    (after.index = batch.index ∧ after.first = batch.first) ∨
      after.handles = batch.handles ∧ after.index = batch.index + 1 ∧
        ((tasks.1[batch.index]? = some none ∧ after.first = batch.first) ∨
          ∃ task captured, tasks.1[batch.index]? = some (some task) ∧
            (batch.handles task).consumer = .awaited captured ∧
              after.first = batch.first.or captured) := by
  have updated {task : Fin count} {action : HandleLabel}
      (moved : batch.update task action = some after) :
      after.index = batch.index ∧ after.first = batch.first := by
    obtain ⟨handle, -, rfl⟩ := update_eq_some_iff.mp moved
    exact ⟨rfl, rfl⟩
  cases label with
  | own task action =>
      simp only [Batch.step] at step
      split at step
      · split at step
        · cases step
        · exact .inl (updated step)
      · split at step
        · cases step
        · exact .inl (updated step)
      · exact .inl (updated step)
  | awaitAll =>
      simp only [Batch.step, awaitAll] at step
      split at step
      · split at step <;> cases step
        exact .inl ⟨rfl, rfl⟩
      · rename_i null
        cases step
        exact .inr ⟨rfl, rfl, .inl ⟨null, rfl⟩⟩
      · rename_i task found
        split at step
        · rename_i captured awaited
          cases step
          refine .inr ⟨rfl, rfl, .inr ⟨task, captured, found, awaited, ?_⟩⟩
          cases batch.first <;> rfl
        · exact .inl (updated step)

/-- The loop keeps the exception of the first thrower that it has passed. -/
theorem first_of_reachable (reach : (machine tasks).Reachable Transition.Machine.anyStep batch) :
    batch.first = lowest (tasks.1.take batch.index) batch := by
  induction reach with
  | start initial =>
      cases initial
      rfl
  | @next batch after label before allowed step ih =>
      have reached := Transition.Machine.Reachable.next before allowed step
      have kept := lowest_take_of_step before reached fun _ _ => awaited_of_step step
      rcases index_of_step step with ⟨index, first⟩ | ⟨-, index, current⟩
      · rw [index, first, ih, kept]
      · have take (entry : Option (Fin count)) (found : tasks.1[batch.index]? = some entry) :
            tasks.1.take after.index = tasks.1.take batch.index ++ [entry] := by
          rw [index, List.take_add_one, found, Option.toList_some]
        rcases current with ⟨null, first⟩ | ⟨task, captured, found, awaited, first⟩
        · rw [take none null, first, ih, ← kept]
          simp [lowest, List.findSome?_append]
        · have ended := ((owned_of_reachable reached task).of_awaited
            (awaited_of_step step awaited)).2
          rw [take (some task) found, first, ih, ← kept]
          simp [lowest, List.findSome?_append, Handle.thrown, ended]

/-! ## The way out -/

end Batch

namespace Handle

/-- Steps of `topo_task_await` from a position on, once the body has ended. -/
def leftToAwait : ConsumerPosition → Nat
  | .pending => 10
  | .awaitTurn => 9
  | .parkLock | .parkWait => 8
  | .parkTest _ => 7
  | .parkUnlock => 6
  | .awaitTest => 5
  | .barrierLock => 4
  | .moveException => 3
  | .barrierUnlock _ => 2
  | .deleting _ => 1
  | _ => 0

/-- The call waits for the task or has not begun. -/
def Awaits : ConsumerPosition → Prop
  | .detachLock | .detachTest | .detachUnlock _ | .detachFree | .released => False
  | _ => True

/-- Where the body has ended, `topo_task_await` goes on whatever its turns find. -/
theorem Owned.consume_enabled {handle : Handle} (owned : Owned handle)
    (ended : handle.runner = .finished) (awaits : Awaits handle.consumer)
    (begun : handle.consumer ≠ .pending) (waits : ∀ captured, handle.consumer ≠ .awaited captured)
    (choice : Bool) :
    ∃ after, handle.consume choice = some after ∧ after.runner = .finished ∧
      Awaits after.consumer ∧ leftToAwait after.consumer < leftToAwait handle.consumer := by
  have runner := owned.runner
  have ok := owned.consumer
  rw [ended] at runner
  obtain ⟨apart, done⟩ := runner
  have unlocked (away : handle.mtx ≠ some .consumer) : handle.mtx = none := by
    rcases owner : handle.mtx with _ | _ | _
    · rfl
    · exact absurd owner apart
    · exact absurd owner away
  cases place : handle.consumer with
  | pending => exact absurd place begun
  | awaited captured => exact absurd place (waits captured)
  | detachLock | detachTest | detachUnlock _ | detachFree | released =>
      rw [place] at awaits
      exact awaits.elim
  | awaitTest =>
      simp [Handle.consume, place, done, touch, ended, Awaits, leftToAwait]
  | awaitTurn =>
      cases choice <;> simp [Handle.consume, place, ended, Awaits, leftToAwait]
  | parkLock | parkWait | barrierLock =>
      rw [place] at ok
      simp [Handle.consume, place, lock, unlocked ok.1, touch, ended, Awaits, leftToAwait]
  | parkTest timedOut =>
      simp [Handle.consume, place, done, touch, ended, Awaits, leftToAwait]
  | parkUnlock | moveException | barrierUnlock _ | deleting _ =>
      simp [Handle.consume, place, unlock, Handle.free, touch, ended, Awaits, leftToAwait]

/-- Only `topo_task_detach` turns to detaching. -/
theorem awaits_of_step {handle after : Handle} {label : HandleLabel}
    (awaits : Awaits handle.consumer) (other : label ≠ .detach)
    (step : handle.step label = some after) : Awaits after.consumer := by
  cases label with
  | detach => exact absurd rfl other
  | await =>
      simp only [Handle.step, Handle.begin] at step
      split at step <;> cases step
      trivial
  | run raised =>
      have same : after.consumer = handle.consumer := by
        cases place : handle.runner with
        | finished => simp [Handle.step, Handle.run, place] at step
        | locking pending =>
            simp only [Handle.step, Handle.run, place, lock] at step
            split at step <;> cases step
            rfl
        | _ =>
            simp only [Handle.step, Handle.run, place, Option.some.injEq] at step
            subst step
            rfl
      rw [same]
      exact awaits
  | consume choice =>
      cases place : handle.consumer with
      | pending | awaited _ => simp [Handle.step, Handle.consume, place] at step
      | detachLock | detachTest | detachUnlock _ | detachFree | released =>
          rw [place] at awaits
          exact awaits.elim
      | parkLock | parkWait | barrierLock =>
          simp only [Handle.step, Handle.consume, place, lock] at step
          split at step <;> cases step
          trivial
      | awaitTest | awaitTurn =>
          simp only [Handle.step, Handle.consume, place, Option.some.injEq] at step
          subst step
          dsimp only
          split <;> trivial
      | parkTest timedOut =>
          simp only [Handle.step, Handle.consume, place] at step
          split at step <;> cases step <;> trivial
      | _ =>
          simp only [Handle.step, Handle.consume, place, Option.some.injEq] at step
          subst step
          trivial

end Handle

namespace Batch

variable {count : Nat} {tasks : HandleArray count} {batch after : Batch count}

open Handle (Awaits leftToAwait)

theorem awaits_of_update {task : Fin count} {label : HandleLabel}
    (awaits : ∀ task, some task ∈ tasks.1 → Awaits (batch.handles task).consumer)
    (other : some task ∈ tasks.1 → label ≠ .detach) (step : batch.update task label = some after) :
    ∀ task, some task ∈ tasks.1 → Awaits (after.handles task).consumer := by
  obtain ⟨handle, moves, rfl⟩ := update_eq_some_iff.mp step
  intro entry member
  dsimp only
  by_cases own : entry = task
  · subst own
    rw [Function.update_self]
    exact Handle.awaits_of_step (awaits entry member) (other member) moves
  · rw [Function.update_of_ne own]
    exact awaits entry member

/-- Handles of the array are only awaited. -/
theorem awaits_of_reachable (reach : (machine tasks).Reachable Transition.Machine.anyStep batch) :
    ∀ task, some task ∈ tasks.1 → Awaits (batch.handles task).consumer := by
  induction reach with
  | start initial =>
      cases initial
      exact fun _ _ => trivial
  | @next batch after label _ _ step ih =>
      cases label with
      | own task action =>
          change batch.step tasks (.own task action) = some after at step
          simp only [Batch.step] at step
          split at step
          · split at step
            · cases step
            · refine awaits_of_update ih (fun _ => ?_) step
              intro same
              cases same
          · split at step
            · cases step
            · rename_i outside
              exact awaits_of_update ih (fun member => absurd member outside) step
          · rename_i other
            exact awaits_of_update ih (fun _ => other) step
      | awaitAll =>
          change batch.awaitAll tasks.1 = some after at step
          simp only [awaitAll] at step
          split at step
          · split at step <;> cases step
            exact ih
          · cases step
            exact ih
          · split at step
            · cases step
              exact ih
            · refine awaits_of_update ih (fun _ => ?_) step
              intro same
              cases same

/-- A step of the thread that is in `topo_task_await_all`. -/
def OfAwaitAll (tasks : HandleArray count) : BatchLabel count → Prop
  | .awaitAll => True
  | .own task (.consume _) => some task ∈ tasks.1
  | .own _ _ => False

/-- Steps that the loop has left once the bodies have ended. -/
def left (tasks : HandleArray count) (batch : Batch count) : Nat :=
  match tasks.1[batch.index]? with
  | none => if batch.returned then 0 else 1
  | some entry => 11 * (tasks.1.length - (batch.index + 1)) +
      (entry.elim 0 fun task => leftToAwait (batch.handles task).consumer) + 2

theorem left_le (entry : Option (Fin count)) (handles : Fin count → Handle) :
    (entry.elim 0 fun task => leftToAwait (handles task).consumer) ≤ 10 := by
  cases entry with
  | none => exact Nat.zero_le _
  | some task =>
      rw [Option.elim_some]
      unfold leftToAwait
      split <;> omega

/-- Bodies that have ended do not keep the loop from going on. -/
theorem loop_enabled (reach : (machine tasks).Reachable Transition.Machine.anyStep batch)
    (ended : ∀ task, some task ∈ tasks.1 → (batch.handles task).runner = .finished)
    (inside : batch.returned = false) :
    ∃ label, OfAwaitAll tasks label ∧ ∃ after, batch.step tasks label = some after ∧
      (∀ task, some task ∈ tasks.1 → (after.handles task).runner = .finished) ∧
        left tasks after < left tasks batch := by
  have moved {task : Fin count} {handle : Handle} (still : handle.runner = .finished)
      (entry : Fin count) (member : some entry ∈ tasks.1) :
      (Function.update batch.handles task handle entry).runner = .finished := by
    by_cases own : entry = task
    · subst own
      rwa [Function.update_self]
    · rw [Function.update_of_ne own]
      exact ended entry member
  cases found : tasks.1[batch.index]? with
  | none =>
      refine ⟨.awaitAll, trivial, { batch with returned := true }, ?_, ended, ?_⟩
      · simp [Batch.step, awaitAll, found, inside]
      · simp [left, found, inside]
  | some entry =>
      have small := (List.getElem?_eq_some_iff.mp found).1
      -- The next handle costs less than this one.
      have onwards (first : Option ExceptionPtr) :
          left tasks { batch with index := batch.index + 1, first := first } <
            left tasks batch := by
        unfold left
        dsimp only
        rw [found, inside]
        dsimp only
        split
        · simp only [Bool.false_eq_true, if_false]
          omega
        · rename_i next there
          have := (List.getElem?_eq_some_iff.mp there).1
          have := left_le next batch.handles
          omega
      cases entry with
      | none =>
          refine ⟨.awaitAll, trivial, { batch with index := batch.index + 1 }, ?_, ended,
            onwards batch.first⟩
          simp only [Batch.step, awaitAll, found]
      | some task =>
          have member := List.mem_of_getElem? found
          have owned := owned_of_reachable reach task
          have awaits := awaits_of_reachable reach task member
          have goes {handle : Handle} (still : handle.runner = .finished)
              (fewer : leftToAwait handle.consumer < leftToAwait (batch.handles task).consumer) :
              (∀ other, some other ∈ tasks.1 →
                (Function.update batch.handles task handle other).runner = .finished) ∧
              left tasks { batch with handles := Function.update batch.handles task handle } <
                left tasks batch := by
            refine ⟨moved still, ?_⟩
            simpa [left, found] using fewer
          by_cases pending : (batch.handles task).consumer = .pending
          · have begin : (batch.handles task).step .await =
                some { batch.handles task with consumer := .awaitTest } := by
              simp [Handle.step, Handle.begin, pending]
            refine ⟨.awaitAll, trivial, { batch with
              handles := Function.update batch.handles task
                { batch.handles task with consumer := .awaitTest } }, ?_,
              goes (ended task member) ?_⟩
            · simp only [Batch.step, awaitAll, found, pending]
              exact update_eq_some_iff.mpr ⟨_, begin, rfl⟩
            · simp [pending, leftToAwait]
          · by_cases awaited : ∃ captured, (batch.handles task).consumer = .awaited captured
            · obtain ⟨captured, awaited⟩ := awaited
              refine ⟨.awaitAll, trivial, { batch with
                index := batch.index + 1
                first := if batch.first.isNone then captured else batch.first }, ?_, ended,
                onwards _⟩
              simp only [Batch.step, awaitAll, found, awaited]
            · obtain ⟨after, step, still, -, fewer⟩ := owned.consume_enabled (ended task member)
                awaits pending (not_exists.mp awaited) false
              exact ⟨.own task (.consume false), member, _,
                update_eq_some_iff.mpr ⟨after, step, rfl⟩, goes still fewer⟩

/-- So the loop is left. -/
theorem returns_of_ended (reach : (machine tasks).Reachable Transition.Machine.anyStep batch)
    (ended : ∀ task, some task ∈ tasks.1 → (batch.handles task).runner = .finished) :
    ∃ labels : List (BatchLabel count), labels.length ≤ left tasks batch ∧
      (∀ label ∈ labels, OfAwaitAll tasks label) ∧
        ∃ last, (machine tasks).exec batch labels = some last ∧ last.returned = true := by
  induction steps : left tasks batch using Nat.strong_induction_on generalizing batch with
  | _ steps ih =>
      cases inside : batch.returned with
      | true => exact ⟨[], Nat.zero_le _, by simp, batch, rfl, inside⟩
      | false =>
          obtain ⟨label, own, after, step, still, fewer⟩ := loop_enabled reach ended inside
          obtain ⟨labels, bound, owns, last, run, returned⟩ :=
            ih _ (steps ▸ fewer) (.next reach trivial step) still rfl
          refine ⟨label :: labels, ?_, List.forall_mem_cons.mpr ⟨own, owns⟩, last, ?_, returned⟩
          · rw [List.length_cons]
            omega
          · exact Option.bind_eq_some_iff.mpr ⟨after, step, run⟩

/-- When the call is left, every task of the array has ended and is freed once, and the exception
that is rethrown is the one of the first of them that has thrown; and once the bodies have ended,
the call is left. -/
theorem rethrows_lowest (tasks : HandleArray count) {batch : Batch count}
    (reach : (machine tasks).Reachable Transition.Machine.anyStep batch) :
    (batch.returned = true →
      (∀ task, some task ∈ tasks.1 → (batch.handles task).runner = .finished ∧
        (batch.handles task).frees = 1 ∧ (batch.handles task).misused = false) ∧
          batch.first = lowest tasks.1 batch) ∧
    ((∀ task, some task ∈ tasks.1 → (batch.handles task).runner = .finished) →
      ∃ labels : List (BatchLabel count), labels.length ≤ 11 * tasks.1.length + 1 ∧
        (∀ label ∈ labels, OfAwaitAll tasks label) ∧
          ∃ last, (machine tasks).exec batch labels = some last ∧ last.returned = true) := by
  have walked := walked_of_reachable reach
  refine ⟨fun returned => ⟨fun task member => ?_, ?_⟩, fun ended => ?_⟩
  · obtain ⟨index, found⟩ := List.mem_iff_getElem?.mp member
    have bound := (List.getElem?_eq_some_iff.mp found).1
    obtain ⟨captured, awaited⟩ :=
      walked.passed index (bound.trans_le (walked.complete returned)) task found
    have owned := owned_of_reachable reach task
    have finished := (owned.of_awaited awaited).1
    have consumed : (batch.handles task).Consumed := by
      rw [Handle.Consumed, awaited]
      trivial
    exact ⟨finished, owned.freed_of_finished finished consumed, owned.unharmed⟩
  · rw [first_of_reachable reach, List.take_of_length_le (walked.complete returned)]
  · obtain ⟨labels, bound, run⟩ := returns_of_ended reach ended
    refine ⟨labels, bound.trans ?_, run⟩
    unfold left
    split
    · split <;> omega
    · rename_i entry found
      have small := (List.getElem?_eq_some_iff.mp found).1
      have := left_le entry batch.handles
      omega

def lateTask : Fin 2 := Fin.last 1

def earlyTask : Fin 2 := Fin.castSucc (Fin.last 0)

/-- Both tasks throw, the one that is awaited last before the other. -/
def throwingArray : HandleArray 2 := ⟨[none, some lateTask, some earlyTask], by decide⟩

def throwingRun : List (BatchLabel 2) :=
  List.replicate 8 (.own earlyTask (.run (some 7))) ++ List.replicate 2 .awaitAll ++
    List.replicate 8 (.own lateTask (.run (some 5))) ++
    List.replicate 5 (.own lateTask (.consume false)) ++ List.replicate 2 .awaitAll ++
    List.replicate 5 (.own earlyTask (.consume false)) ++ List.replicate 2 .awaitAll

theorem rethrows_lowest_throwing :
    ∃ batch : Batch 2, (machine throwingArray).Reachable Transition.Machine.anyStep batch ∧
      batch.first = some 5 ∧ batch.first = lowest throwingArray.1 batch ∧
        (batch.handles earlyTask).frees = 1 := by
  obtain ⟨batch, reach, returned, first⟩ :=
    (machine throwingArray).exists_reachable
      (fun batch => batch.returned = true ∧ batch.first = some 5) throwingRun rfl (by decide)
  obtain ⟨freed, lowest⟩ := (rethrows_lowest throwingArray reach).1 returned
  exact ⟨batch, reach, first, lowest, (freed earlyTask (by decide)).2.1⟩

end Batch
end Runtime
end TopoLlvm
