import TopoLlvm.Runtime.TaskHandle
import Mathlib.Data.Fintype.Basic
import Mathlib.Data.List.ReduceOption
import Mathlib.Logic.Function.Basic

/-!
# Consuming calls over many handles

`topo_task_await_all` walks an array of handles and awaits each in turn, keeping the first
exception.  The other handles are awaited or detached by calls of their own.  Seen from one task
every run is a run of its object.
-/

namespace TopoLlvm
namespace Runtime

/-- The argument of `topo_task_await_all`: each handle is consumed once, a null handle is `none`. -/
abbrev HandleArray (count : Nat) :=
  { tasks : List (Option (Fin count)) // tasks.reduceOption.Nodup }

/-- All task objects and the progress of `topo_task_await_all`. -/
structure Batch (count : Nat) where
  handles : Fin count → Handle
  index : Nat
  first : Option ExceptionPtr
  returned : Bool

/-- Steps of the tasks' parties and of `topo_task_await_all`. -/
inductive BatchLabel (count : Nat) where
  /-- A step of `run_task_safely` or of the consuming call of one task. -/
  | own (task : Fin count) (label : HandleLabel)
  /-- `topo_task_await_all` calls `topo_task_await` or takes its result. -/
  | awaitAll

namespace Batch

variable {count : Nat}

/-- A step of one task's object. -/
def update (batch : Batch count) (task : Fin count) (label : HandleLabel) : Option (Batch count) :=
  ((batch.handles task).step label).map fun handle =>
    { batch with handles := Function.update batch.handles task handle }

/-- One step of the loop of `topo_task_await_all`. -/
def awaitAll (tasks : List (Option (Fin count))) (batch : Batch count) : Option (Batch count) :=
  match tasks[batch.index]? with
  | none => if batch.returned then none else some { batch with returned := true }
  | some none => some { batch with index := batch.index + 1 }
  | some (some task) =>
      match (batch.handles task).consumer with
      | .awaited captured =>
          some { batch with
            index := batch.index + 1
            first := if batch.first.isNone then captured else batch.first }
      | _ => batch.update task .await

/-- One step of a batch of tasks. -/
def step (tasks : HandleArray count) (batch : Batch count) : BatchLabel count → Option (Batch count)
  | .own task label =>
      match label with
      -- A handle of the array has no other consuming call.
      | .await | .detach => if some task ∈ tasks.1 then none else batch.update task label
      | _ => batch.update task label
  | .awaitAll => batch.awaitAll tasks.1

/-- All tasks spawned, no handle consumed. -/
def spawned (count : Nat) : Batch count where
  handles _ := Handle.spawned
  index := 0
  first := none
  returned := false

/-- A batch of tasks as a machine. -/
def machine (tasks : HandleArray count) : Transition.Machine (Batch count) (BatchLabel count) where
  initial batch := batch = spawned count
  step := step tasks

theorem update_eq_some_iff {batch after : Batch count} {task : Fin count} {label : HandleLabel} :
    batch.update task label = some after ↔ ∃ handle, (batch.handles task).step label = some handle ∧
      { batch with handles := Function.update batch.handles task handle } = after := by
  simp [update]

/-- What one step does to the objects. -/
theorem handles_of_step {tasks : HandleArray count} {batch after : Batch count}
    {label : BatchLabel count} (step : batch.step tasks label = some after) :
    after.handles = batch.handles ∨ ∃ task action handle,
      (batch.handles task).step action = some handle ∧
        after.handles = Function.update batch.handles task handle := by
  have updated {task : Fin count} {action : HandleLabel}
      (moved : batch.update task action = some after) : ∃ task action handle,
      (batch.handles task).step action = some handle ∧
        after.handles = Function.update batch.handles task handle := by
    obtain ⟨handle, moves, rfl⟩ := update_eq_some_iff.mp moved
    exact ⟨task, action, handle, moves, rfl⟩
  cases label with
  | own task action =>
      simp only [Batch.step] at step
      split at step
      · split at step
        · cases step
        · exact .inr (updated step)
      · split at step
        · cases step
        · exact .inr (updated step)
      · exact .inr (updated step)
  | awaitAll =>
      simp only [Batch.step, awaitAll] at step
      split at step
      · split at step <;> cases step
        exact .inl rfl
      · cases step
        exact .inl rfl
      · split at step
        · cases step
          exact .inl rfl
        · exact .inr (updated step)

/-- Seen from one task, a run of the batch is a run of its object. -/
def project (tasks : HandleArray count) (task : Fin count) :
    Transition.Simulation (machine tasks) Handle.machine where
  view batch := batch.handles task
  initial := by
    rintro _ rfl
    rfl
  step batch label after _ step := by
    rcases handles_of_step step with same | ⟨other, action, handle, moves, updated⟩
    · exact .inl (congrFun same task)
    · by_cases own : task = other
      · subst own
        refine .inr ⟨action, ?_⟩
        rw [updated, Function.update_self]
        exact moves
      · exact .inl (by simp [updated, own])

theorem owned_of_reachable {tasks : HandleArray count}
    {guard : Batch count → BatchLabel count → Prop} {batch : Batch count}
    (reach : (machine tasks).Reachable guard batch) (task : Fin count) :
    Handle.Owned (batch.handles task) :=
  Handle.owned_of_reachable ((project tasks task).reachable reach)

/-! ## The walk over the array -/

/-- The handles that the loop has passed are awaited, and the loop returns at the end of the array
only. -/
structure Walked (tasks : HandleArray count) (batch : Batch count) : Prop where
  passed : ∀ index < batch.index, ∀ task, tasks.1[index]? = some (some task) →
    ∃ captured, (batch.handles task).consumer = .awaited captured
  complete : batch.returned = true → tasks.1.length ≤ batch.index

theorem Walked.step {tasks : HandleArray count} {batch after : Batch count}
    {label : BatchLabel count} (walked : Walked tasks batch)
    (step : batch.step tasks label = some after) : Walked tasks after := by
  -- Steps of single objects keep the awaited handles awaited.
  have updated {task : Fin count} {action : HandleLabel}
      (moved : batch.update task action = some after) : Walked tasks after := by
    obtain ⟨handle, moves, rfl⟩ := update_eq_some_iff.mp moved
    refine ⟨fun index before other found => ?_, walked.complete⟩
    obtain ⟨captured, awaited⟩ := walked.passed index before other found
    by_cases own : other = task
    · subst own
      exact ⟨captured, by simpa using Handle.awaited_of_step moves awaited⟩
    · exact ⟨captured, by simpa [own] using awaited⟩
  cases label with
  | own task action =>
      simp only [Batch.step] at step
      split at step
      · split at step
        · cases step
        · exact updated step
      · split at step
        · cases step
        · exact updated step
      · exact updated step
  | awaitAll =>
      simp only [Batch.step, awaitAll] at step
      split at step
      · rename_i past
        split at step <;> cases step
        exact ⟨walked.passed, fun _ => List.getElem?_eq_none_iff.mp past⟩
      · rename_i null
        cases step
        refine ⟨fun index before task found => ?_, fun returned => ?_⟩
        · rcases Nat.lt_succ_iff_lt_or_eq.mp before with earlier | rfl
          · exact walked.passed index earlier task found
          · simp [null] at found
        · exact (walked.complete returned).trans (Nat.le_succ _)
      · rename_i current found
        split at step
        · rename_i captured awaited
          cases step
          refine ⟨fun index before task there => ?_, fun returned => ?_⟩
          · rcases Nat.lt_succ_iff_lt_or_eq.mp before with earlier | rfl
            · exact walked.passed index earlier task there
            · obtain rfl : current = task := by simpa [found] using there
              exact ⟨captured, awaited⟩
          · exact (walked.complete returned).trans (Nat.le_succ _)
        · exact updated step

theorem walked_of_reachable {tasks : HandleArray count}
    {guard : Batch count → BatchLabel count → Prop} {batch : Batch count}
    (reach : (machine tasks).Reachable guard batch) : Walked tasks batch := by
  refine reach.invariant ?_ fun before label after _ walked _ step => walked.step step
  rintro _ rfl
  exact ⟨fun _ before => absurd before (Nat.not_lt_zero _), nofun⟩

/-- The call that consumes a task's handle has returned: its own call, or `topo_task_await_all`
for a handle of the array. -/
def Consumed (tasks : HandleArray count) (batch : Batch count) (task : Fin count) : Prop :=
  if some task ∈ tasks.1 then batch.returned = true else (batch.handles task).Consumed

theorem Walked.consumed {tasks : HandleArray count} {batch : Batch count}
    (walked : Walked tasks batch) {task : Fin count} (consumed : Consumed tasks batch task) :
    (batch.handles task).Consumed := by
  unfold Consumed at consumed
  split at consumed
  · rename_i member
    obtain ⟨index, found⟩ := List.mem_iff_getElem?.mp member
    have bound := (List.getElem?_eq_some_iff.mp found).1
    obtain ⟨captured, awaited⟩ :=
      walked.passed index (bound.trans_le (walked.complete consumed)) task found
    simp [Handle.Consumed, awaited]
  · exact consumed

/-- In every interleaving a task object is freed at most once and never used after that; once its
consuming call has returned it is freed when `run_task_safely` is finished, and after the end of
the body nothing but the steps of `run_task_safely` itself is needed for that. -/
theorem freed_once (tasks : HandleArray count) {batch : Batch count}
    (reach : (machine tasks).Reachable Transition.Machine.anyStep batch) (task : Fin count) :
    (batch.handles task).frees ≤ 1 ∧ (batch.handles task).misused = false ∧
      (Consumed tasks batch task →
        ((batch.handles task).runner = .finished → (batch.handles task).frees = 1) ∧
          ((batch.handles task).outcome.isSome → ∃ steps ≤ 7, ∃ last,
            Handle.machine.exec (batch.handles task) (List.replicate steps (.run none)) =
              some last ∧ last.frees = 1)) := by
  have owned := owned_of_reachable reach task
  refine ⟨owned.frees_le_one, owned.unharmed, fun consumed => ⟨fun finished => ?_, fun ended => ?_⟩⟩
  · exact owned.freed_of_finished finished ((walked_of_reachable reach).consumed consumed)
  · obtain ⟨steps, bound, last, run, freed⟩ :=
      owned.frees_alone ((walked_of_reachable reach).consumed consumed)
    exact ⟨steps, bound.trans (owned.remaining_le ended), last, run, freed⟩

/-- Two tasks, the first one of which is awaited through an array with a null handle. -/
def pairArray : HandleArray 2 := ⟨[none, some 0], by decide⟩

/-- Task 0 throws while it is awaited; task 1 is detached before its body returns. -/
def pairRun : List (BatchLabel 2) :=
  [.awaitAll, .awaitAll, .own 1 .detach] ++
    List.replicate 3 (.own 1 (.consume false)) ++
    List.replicate 8 (.own 0 (.run (some 5))) ++ List.replicate 9 (.own 1 (.run none)) ++
    List.replicate 5 (.own 0 (.consume false)) ++ [.awaitAll, .awaitAll]

theorem freed_once_pair :
    ∃ batch : Batch 2, (machine pairArray).Reachable Transition.Machine.anyStep batch ∧
      (batch.returned = true ∧ batch.first = some 5) ∧
      (batch.handles 0).frees = 1 ∧ (batch.handles 1).frees = 1 := by
  obtain ⟨batch, reach, ⟨returned, first⟩, released, zero, one⟩ :=
    (machine pairArray).exists_reachable (fun batch =>
      (batch.returned = true ∧ batch.first = some 5) ∧ (batch.handles 1).consumer = .released ∧
        (batch.handles 0).runner = .finished ∧ (batch.handles 1).runner = .finished)
      pairRun rfl (by decide)
  have inArray : Consumed pairArray batch 0 := returned
  have alone : Consumed pairArray batch 1 := by
    rw [Consumed, if_neg (by decide), Handle.Consumed, released]
    trivial
  exact ⟨batch, reach, ⟨returned, first⟩, ((freed_once pairArray reach 0).2.2 inArray).1 zero,
    ((freed_once pairArray reach 1).2.2 alone).1 one⟩

end Batch
end Runtime
end TopoLlvm
