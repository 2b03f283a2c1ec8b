import TopoLlvm.Library.Boxes
import Mathlib.Algebra.Ring.Nat
import Mathlib.Data.Fin.Basic

/-!
# Worker queues of the thread pool

One deque per worker, with the two insertion ends of `ThreadPool::submit`, the front removal of
the owner in `worker_loop` and the back removal shared by the stealing loops.
-/

namespace TopoLlvm
namespace Runtime

/-- A task handle: the index of the task in spawn order. -/
abbrev TaskId := Nat

/-- Pool sizes; `do_init` never starts an empty pool. -/
abbrev WorkerCount := { count : Nat // 0 < count }

instance WorkerCount.neZero (workers : WorkerCount) : NeZero workers.1 := ⟨workers.2.ne'⟩

/-- The pool size chosen by `do_init` from the configuration and the hardware. -/
def doInitWorkers (numThreads hardwareConcurrency : Int) : WorkerCount :=
  let requested := if numThreads ≤ 0 then hardwareConcurrency else numThreads
  if positive : 0 < requested then ⟨requested.toNat, by omega⟩ else ⟨2, by omega⟩

/-- The deques of all workers. -/
abbrev Queues (workers : WorkerCount) := Fin workers.1 → List TaskId

/-- Round-robin target of a submission that drew `index` from `submit_counter`. -/
def submitTarget (workers : WorkerCount) (index : UInt64) : Fin workers.1 :=
  Fin.ofNat workers.1 index.toNat

variable {workers : WorkerCount}

/-- The locked insertion of `ThreadPool::submit`. -/
def pushTask (queues : Queues workers) (target : Fin workers.1) (priority : Int) (task : TaskId) :
    Queues workers :=
  -- Critical and High go to the front, Normal and below to the back.
  if priority < 2 then Function.update queues target (task :: queues target)
  else Function.update queues target (queues target ++ [task])

/-- The owner's locked removal from the front of its own queue. -/
def popFront (queues : Queues workers) (worker : Fin workers.1) :
    Option (TaskId × Queues workers) :=
  match queues worker with
  | [] => none
  | task :: rest => some (task, Function.update queues worker rest)

/-- A thief's locked removal from the back of a victim's queue. -/
def popBack (queues : Queues workers) (victim : Fin workers.1) :
    Option (TaskId × Queues workers) :=
  match (queues victim).getLast? with
  | none => none
  | some task => some (task, Function.update queues victim (queues victim).dropLast)

/-- A removal took exactly one occurrence of `task` out of the queues. -/
def Removes (before : Queues workers) (task : TaskId) (after : Queues workers) : Prop :=
  (∀ token, Boxes.total before token = Boxes.total after token + [task].count token) ∧
    ∀ queue, ∀ token ∈ after queue, token ∈ before queue

@[simp]
theorem total_pushTask (queues : Queues workers) (target : Fin workers.1) (priority : Int)
    (task token : TaskId) :
    Boxes.total (pushTask queues target priority task) token =
      Boxes.total queues token + [task].count token := by
  unfold pushTask
  split
  · have moved := Boxes.total_update queues target (task :: queues target) token
    rw [show task :: queues target = [task] ++ queues target from rfl, List.count_append] at moved
    simp only [List.singleton_append] at moved
    omega
  · have moved := Boxes.total_update queues target (queues target ++ [task]) token
    rw [List.count_append] at moved
    omega

theorem mem_pushTask {queues : Queues workers} {target queue : Fin workers.1} {priority : Int}
    {task token : TaskId} (member : token ∈ pushTask queues target priority task queue) :
    token = task ∨ token ∈ queues queue := by
  unfold pushTask at member
  by_cases same : queue = target
  · subst same
    split at member <;> simp at member <;> tauto
  · split at member <;> simp [Function.update_of_ne same] at member <;> exact Or.inr member

theorem mem_pushTask_of_mem {queues : Queues workers} {target queue : Fin workers.1}
    {priority : Int} {task token : TaskId} (member : token ∈ queues queue) :
    token ∈ pushTask queues target priority task queue := by
  unfold pushTask
  by_cases same : queue = target
  · subst same
    split <;> simp [member]
  · split <;> simp [Function.update_of_ne same, member]

theorem popFront_removes {before after : Queues workers} {worker : Fin workers.1} {task : TaskId}
    (popped : popFront before worker = some (task, after)) : Removes before task after := by
  unfold popFront at popped
  split at popped
  · cases popped
  · rename_i head rest content
    obtain ⟨rfl, rfl⟩ : head = task ∧ Function.update before worker rest = after := by
      simpa using popped
    refine ⟨fun token => ?_, fun queue token member => ?_⟩
    · have moved := Boxes.total_update before worker rest token
      rw [content, ← List.singleton_append, List.count_append] at moved
      omega
    · by_cases same : queue = worker
      · subst same
        rw [content]
        exact List.mem_cons_of_mem _ (by simpa using member)
      · simpa [Function.update_of_ne same] using member

theorem popBack_removes {before after : Queues workers} {victim : Fin workers.1} {task : TaskId}
    (popped : popBack before victim = some (task, after)) : Removes before task after := by
  unfold popBack at popped
  split at popped
  · cases popped
  · rename_i last content
    obtain ⟨rfl, rfl⟩ :
        last = task ∧ Function.update before victim (before victim).dropLast = after := by
      simpa using popped
    have split : (before victim).dropLast ++ [last] = before victim := by
      obtain ⟨front, whole⟩ := List.getLast?_eq_some_iff.mp content
      simp [whole]
    refine ⟨fun token => ?_, fun queue token member => ?_⟩
    · have moved := Boxes.total_update before victim (before victim).dropLast token
      have counted := congrArg (List.count token) split
      rw [List.count_append] at counted
      omega
    · by_cases same : queue = victim
      · subst same
        exact List.mem_of_mem_dropLast (by simpa using member)
      · simpa [Function.update_of_ne same] using member

/-- The owner finds a task exactly when its queue is not empty. -/
theorem popFront_isSome_iff (queues : Queues workers) (worker : Fin workers.1) :
    (popFront queues worker).isSome ↔ queues worker ≠ [] := by
  unfold popFront
  split <;> simp_all

/-- A thief finds a task exactly when the victim's queue is not empty. -/
theorem popBack_isSome_iff (queues : Queues workers) (victim : Fin workers.1) :
    (popBack queues victim).isSome ↔ queues victim ≠ [] := by
  rw [← List.getLast?_isSome]
  unfold popBack
  split <;> simp_all

theorem popFront_eq_none_iff (queues : Queues workers) (worker : Fin workers.1) :
    popFront queues worker = none ↔ queues worker = [] := by
  rw [← Option.not_isSome_iff_eq_none, popFront_isSome_iff, not_not]

theorem popBack_eq_none_iff (queues : Queues workers) (victim : Fin workers.1) :
    popBack queues victim = none ↔ queues victim = [] := by
  rw [← Option.not_isSome_iff_eq_none, popBack_isSome_iff, not_not]

end Runtime
end TopoLlvm
