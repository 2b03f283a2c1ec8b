import TopoLlvm.Library.Machine
import TopoLlvm.Runtime.WorkQueue
import Mathlib.Data.Fintype.Sum
import Mathlib.Data.List.ReduceOption

/-!
# The work-stealing pool while it is up

Threads carry stacks of task bodies: a worker starts a body from its own queue or by stealing, and
a thread inside `topo_task_await` runs any queued task on top of the waiting body.  One label is
one critical section of the source, or one step of a body between two of them.  The invariants
here count the occurrences of a task over queues and stacks; every result about single tasks
reads them off.
-/

namespace TopoLlvm
namespace Runtime

/-- A captured `std::exception_ptr`. -/
abbrev ExceptionPtr := Nat

/-- What a task body does next; `P` is the type of its control states. -/
inductive Action (P : Type) where
  | ret
  | throw (exception : ExceptionPtr)
  /-- A computation of the body's own, continuing according to the value it observes. -/
  | work (next : Nat → P)
  /-- `topo_task_spawn_ret_pri`; the other spawn entry points use priority 2. -/
  | spawn (priority : Int) (child next : P)
  /-- `topo_task_await` on the handle of the body's own spawn number `handle`. -/
  | await (handle : Nat) (next : Option ExceptionPtr → P)

/-- The fields of `topo_task` that scheduling reads and writes. -/
structure Task (P : Type) where
  work : P
  priority : Int
  done : Bool
  exception : Option ExceptionPtr

/-- Position of one body on a thread's stack. -/
inductive Control (P : Type) where
  /-- `run_task_safely` was called and `work` is not entered yet. -/
  | fresh
  | running (position : P)
  /-- Inside `submit`, between drawing the round-robin index and the locked insertion. -/
  | submitting (task : TaskId) (index : UInt64) (next : P)
  /-- Inside the work-helping loop of `topo_task_await`. -/
  | awaiting (task : TaskId) (next : Option ExceptionPtr → P)
  /-- The body is over; `done` is not published yet. -/
  | leaving (pending : Option ExceptionPtr)

/-- One body on a thread's stack; `task` is absent for a client's own code. -/
structure Frame (P : Type) where
  task : Option TaskId
  control : Control P
  /-- Handles of the body's spawns; a consumed handle is null. -/
  handles : List (Option TaskId)
  /-- Ghost: the moment the frame was pushed. -/
  started : Nat

namespace Frame

variable {P : Type}

/-- The task a frame is submitting. -/
def submits (frame : Frame P) : List TaskId :=
  match frame.control with
  | .submitting task _ _ => [task]
  | _ => []

/-- Tasks in the hands of a frame: its own, and one it is submitting. -/
def held (frame : Frame P) : List TaskId :=
  frame.task.toList ++ frame.submits

/-- The task whose body a frame has entered. -/
def inside (frame : Frame P) : List TaskId :=
  match frame.control with
  | .fresh => []
  | _ => frame.task.toList

/-- The task whose body has ended but is not yet published as done. -/
def finished (frame : Frame P) : List TaskId :=
  match frame.control with
  | .leaving _ => frame.task.toList
  | _ => []

/-- The task a frame waits for. -/
def awaited (frame : Frame P) : Option TaskId :=
  match frame.control with
  | .awaiting task _ => some task
  | _ => none

/-- Tasks a frame spawned and whose handles it has not consumed. -/
def children (frame : Frame P) : List TaskId :=
  frame.handles.reduceOption ++ match frame.control with
    | .awaiting task _ | .submitting task _ _ => [task]
    | _ => []

end Frame

/-- Pool workers, then any number of other threads that call into the runtime. -/
abbrev Thread (workers : WorkerCount) (clients : Nat) := Fin workers.1 ⊕ Fin clients

/-- State of the pool and of every thread that uses it. -/
structure Pool (P : Type) (workers : WorkerCount) (clients : Nat) where
  queues : Queues workers
  submitCounter : UInt64
  /-- All spawned tasks in spawn order. -/
  tasks : List (Task P)
  /-- Stacks with the topmost frame first; an idle worker's stack is empty. -/
  stackOf : Thread workers clients → List (Frame P)
  /-- Ghost: the number of frames pushed so far. -/
  clock : Nat
  /-- Ghost: every completed submission, in order. -/
  submitted : List TaskId
  /-- Ghost: every entry into a task body. -/
  entered : List TaskId
  /-- Ghost: every end of a task body, by return or by exception. -/
  ended : List TaskId

/-- Critical sections and body steps, with the scheduler's choices. -/
inductive PoolLabel (workers : WorkerCount) (clients : Nat) where
  /-- The topmost body of a thread moves on; `observed` is what a `work` step reads. -/
  | act (thread : Thread workers clients) (observed : Nat)
  /-- A turn of the await loop whose `try_steal_any` comes back empty and which parks again. -/
  | repark (thread : Thread workers clients)
  /-- `try_steal_any` of an awaiting thread finds a task at `victim`. -/
  | help (thread : Thread workers clients) (victim : Fin workers.1)
  /-- `worker_loop` pops the front of the worker's own queue. -/
  | popOwn (worker : Fin workers.1)
  /-- `worker_loop` steals from the back of another queue. -/
  | steal (worker victim : Fin workers.1)

namespace Pool

variable {P : Type} {workers : WorkerCount} {clients : Nat}

/-- The `done` flag of a task. -/
def isDone (pool : Pool P workers clients) (task : TaskId) : Bool :=
  pool.tasks[task]?.any (·.done)

/-- Replace a thread's stack. -/
def setStack (pool : Pool P workers clients) (thread : Thread workers clients)
    (stack : List (Frame P)) : Pool P workers clients :=
  { pool with stackOf := Function.update pool.stackOf thread stack }

/-- Start `run_task_safely` for a task just taken from the queues. -/
def runTask (pool : Pool P workers clients) (thread : Thread workers clients) (task : TaskId)
    (queues : Queues workers) : Pool P workers clients :=
  { pool with
    queues
    stackOf := Function.update pool.stackOf thread
      ({ task := some task, control := .fresh, handles := [], started := pool.clock } ::
        pool.stackOf thread)
    clock := pool.clock + 1 }

/-- The locked completion section of `run_task_safely`. -/
def publish (tasks : List (Task P)) (task : TaskId) (pending : Option ExceptionPtr) :
    List (Task P) :=
  tasks.modify task fun record =>
    { record with
      exception := if pending.isSome then pending else record.exception
      done := true }

/-- One move of the topmost body of a thread. -/
def act (program : P → Action P) (pool : Pool P workers clients)
    (thread : Thread workers clients) (observed : Nat) (top : Frame P) (rest : List (Frame P)) :
    Option (Pool P workers clients) :=
  let become (control : Control P) := pool.setStack thread ({ top with control } :: rest)
  match top.control with
  | .fresh =>
      top.task.bind fun task => pool.tasks[task]?.map fun record =>
        { become (.running record.work) with entered := task :: pool.entered }
  | .running position =>
      match program position with
      | .ret => some { become (.leaving none) with ended := top.task.toList ++ pool.ended }
      | .throw exception =>
          some { become (.leaving (some exception)) with ended := top.task.toList ++ pool.ended }
      | .work next => some (become (.running (next observed)))
      | .spawn priority child next =>
          some { become (.submitting pool.tasks.length pool.submitCounter next) with
            submitCounter := pool.submitCounter + 1
            tasks := pool.tasks ++ [{ work := child, priority, done := false, exception := none }] }
      | .await handle next =>
          match top.handles[handle]?.join with
          -- A null handle returns at once.
          | none => some (become (.running (next none)))
          | some task =>
              some (pool.setStack thread
                ({ top with
                  control := .awaiting task next
                  handles := top.handles.set handle none } :: rest))
  | .submitting task index next =>
      pool.tasks[task]?.map fun record =>
        { pool.setStack thread
            ({ top with control := .running next, handles := top.handles ++ [some task] } :: rest)
          with
            queues := pushTask pool.queues (submitTarget workers index) record.priority task
            submitted := pool.submitted ++ [task] }
  | .awaiting task next =>
      if pool.isDone task then
        some (become (.running (next (pool.tasks[task]?.bind (·.exception)))))
      else none
  | .leaving pending =>
      some { pool.setStack thread rest with
        tasks := match top.task with
          | none => pool.tasks
          | some task => publish pool.tasks task pending }

/-- Whether a frame is in the work-helping loop. -/
def isAwaiting : Control P → Bool
  | .awaiting _ _ => true
  | _ => false

/-- One step of the pool. -/
def step (program : P → Action P) (pool : Pool P workers clients) :
    PoolLabel workers clients → Option (Pool P workers clients)
  | .act thread observed =>
      match pool.stackOf thread with
      | [] => none
      | top :: rest => pool.act program thread observed top rest
  | .repark thread =>
      match pool.stackOf thread with
      | [] => none
      | top :: _ =>
          if isAwaiting top.control then
            some { pool with submitCounter := pool.submitCounter + 1 }
          else none
  | .help thread victim =>
      match pool.stackOf thread with
      | [] => none
      | top :: _ =>
          if isAwaiting top.control then
            (popBack pool.queues victim).map fun (task, queues) =>
              { pool.runTask thread task queues with submitCounter := pool.submitCounter + 1 }
          else none
  | .popOwn worker =>
      match pool.stackOf (.inl worker) with
      | [] => (popFront pool.queues worker).map fun (task, queues) =>
          pool.runTask (.inl worker) task queues
      | _ :: _ => none
  | .steal worker victim =>
      match pool.stackOf (.inl worker) with
      | [] =>
          if victim = worker then none
          else (popBack pool.queues victim).map fun (task, queues) =>
            pool.runTask (.inl worker) task queues
      | _ :: _ => none

/-- A freshly started pool whose clients are about to run the given code. -/
def boot (workers : WorkerCount) (roots : Fin clients → P) : Pool P workers clients where
  queues _ := []
  submitCounter := 0
  tasks := []
  stackOf
    | .inl _ => []
    | .inr client =>
        [{ task := none, control := .running (roots client), handles := [], started := 0 }]
  clock := 1
  submitted := []
  entered := []
  ended := []

/-- The pool as a machine, for a program and any code of the clients. -/
def machine (program : P → Action P) (workers : WorkerCount) (clients : Nat) :
    Transition.Machine (Pool P workers clients) (PoolLabel workers clients) where
  initial pool := ∃ roots, pool = boot workers roots
  step := step program

/-- The states of all interleavings of a program on the pool. -/
abbrev Reachable (program : P → Action P) (pool : Pool P workers clients) : Prop :=
  (machine program workers clients).Reachable Transition.Machine.anyStep pool

/-! ## What one step can do -/

/-- Controls of a body that is neither starting, submitting nor over. -/
def IsSteady : Control P → Prop
  | .running _ | .awaiting _ _ => True
  | _ => False

/-- The possible effects of one step, with the guards of each. -/
inductive Move (pool : Pool P workers clients) : Pool P workers clients → Prop
  | enter {thread : Thread workers clients} {top : Frame P} {rest : List (Frame P)}
      {task : TaskId} {record : Task P} :
      pool.stackOf thread = top :: rest → top.control = .fresh → top.task = some task →
      pool.tasks[task]? = some record →
      Move pool { pool.setStack thread ({ top with control := .running record.work } :: rest) with
        entered := task :: pool.entered }
  | proceed {thread : Thread workers clients} {top : Frame P} {rest : List (Frame P)}
      {control : Control P} {handles : List (Option TaskId)} :
      pool.stackOf thread = top :: rest → IsSteady top.control → IsSteady control →
      (∀ task ∈ Frame.children { top with control, handles }, task ∈ top.children) →
      Move pool (pool.setStack thread ({ top with control, handles } :: rest))
  | finish {thread : Thread workers clients} {top : Frame P} {rest : List (Frame P)}
      {position : P} {pending : Option ExceptionPtr} :
      pool.stackOf thread = top :: rest → top.control = .running position →
      Move pool { pool.setStack thread ({ top with control := .leaving pending } :: rest) with
        ended := top.task.toList ++ pool.ended }
  | spawn {thread : Thread workers clients} {top : Frame P} {rest : List (Frame P)}
      {position next : P} {record : Task P} :
      pool.stackOf thread = top :: rest → top.control = .running position → record.done = false →
      Move pool { pool.setStack thread
          ({ top with control := .submitting pool.tasks.length pool.submitCounter next } :: rest)
        with
          submitCounter := pool.submitCounter + 1
          tasks := pool.tasks ++ [record] }
  | push {thread : Thread workers clients} {top : Frame P} {rest : List (Frame P)}
      {task : TaskId} {index : UInt64} {next : P} {record : Task P} :
      pool.stackOf thread = top :: rest → top.control = .submitting task index next →
      pool.tasks[task]? = some record →
      Move pool { pool.setStack thread
          ({ top with control := .running next, handles := top.handles ++ [some task] } :: rest)
        with
          queues := pushTask pool.queues (submitTarget workers index) record.priority task
          submitted := pool.submitted ++ [task] }
  | complete {thread : Thread workers clients} {top : Frame P} {rest : List (Frame P)}
      {pending : Option ExceptionPtr} :
      pool.stackOf thread = top :: rest → top.control = .leaving pending →
      Move pool { pool.setStack thread rest with
        tasks := match top.task with
          | none => pool.tasks
          | some task => publish pool.tasks task pending }
  | repark : Move pool { pool with submitCounter := pool.submitCounter + 1 }
  | take {thread : Thread workers clients} {task : TaskId} {queues : Queues workers} :
      (∀ top rest, pool.stackOf thread = top :: rest → isAwaiting top.control = true) →
      Removes pool.queues task queues → (counter : UInt64) →
      Move pool { pool.runTask thread task queues with submitCounter := counter }

theorem act_move {program : P → Action P} {pool after : Pool P workers clients}
    {thread : Thread workers clients} {observed : Nat} {top : Frame P} {rest : List (Frame P)}
    (stack : pool.stackOf thread = top :: rest)
    (step : pool.act program thread observed top rest = some after) : Move pool after := by
  have keepRunning {next : P} (steady : IsSteady top.control) :
      Move pool (pool.setStack thread ({ top with control := .running next } :: rest)) := by
    have move : Move pool (pool.setStack thread
        ({ top with control := .running next, handles := top.handles } :: rest)) := by
      refine .proceed stack steady trivial fun task member => ?_
      exact List.mem_append_left _ (by simpa [Frame.children] using member)
    exact move
  cases position : top.control with
  | fresh =>
      simp only [act, position, Option.bind_eq_some_iff, Option.map_eq_some_iff] at step
      obtain ⟨task, taskEq, record, lookup, rfl⟩ := step
      exact .enter stack position taskEq lookup
  | running state =>
      have steady : IsSteady top.control := by rw [position]; trivial
      simp only [act, position] at step
      cases action : program state with
      | ret =>
          simp only [action, Option.some.injEq] at step
          exact step ▸ .finish stack position
      | throw exception =>
          simp only [action, Option.some.injEq] at step
          exact step ▸ .finish stack position
      | work next =>
          simp only [action, Option.some.injEq] at step
          exact step ▸ keepRunning steady
      | spawn priority child next =>
          simp only [action, Option.some.injEq] at step
          exact step ▸ .spawn stack position rfl
      | await handle next =>
          simp only [action] at step
          cases found : top.handles[handle]?.join with
          | none =>
              simp only [found, Option.some.injEq] at step
              exact step ▸ keepRunning steady
          | some task =>
              simp only [found, Option.some.injEq] at step
              refine step ▸ .proceed stack steady trivial fun other member => ?_
              have slot : some task ∈ top.handles :=
                List.mem_of_getElem? (Option.join_eq_some_iff.mp found)
              simp only [Frame.children, position, List.append_nil, List.mem_append,
                List.reduceOption_mem_iff, List.mem_singleton] at member ⊢
              rcases member with kept | rfl
              · exact (List.mem_or_eq_of_mem_set kept).resolve_right (by simp)
              · exact slot
  | submitting task index next =>
      simp only [act, position, Option.map_eq_some_iff] at step
      obtain ⟨record, lookup, rfl⟩ := step
      exact .push stack position lookup
  | awaiting task next =>
      have steady : IsSteady top.control := by rw [position]; trivial
      simp only [act, position] at step
      split at step
      · simp only [Option.some.injEq] at step
        exact step ▸ keepRunning steady
      · cases step
  | leaving pending =>
      simp only [act, position, Option.some.injEq] at step
      exact step ▸ .complete stack position

/-- Every enabled label performs one of the moves. -/
theorem step_move {program : P → Action P} {pool after : Pool P workers clients}
    {label : PoolLabel workers clients} (step : pool.step program label = some after) :
    Move pool after := by
  cases label with
  | act thread observed =>
      simp only [Pool.step] at step
      cases stack : pool.stackOf thread with
      | nil => simp [stack] at step
      | cons top rest =>
          simp only [stack] at step
          exact act_move stack step
  | repark thread =>
      simp only [Pool.step] at step
      split at step
      · cases step
      · split at step
        · simp only [Option.some.injEq] at step
          exact step ▸ .repark
        · cases step
  | help thread victim =>
      simp only [Pool.step] at step
      cases stack : pool.stackOf thread with
      | nil => simp [stack] at step
      | cons top rest =>
          simp only [stack] at step
          split at step
          · rename_i waiting
            obtain ⟨⟨task, queues⟩, popped, rfl⟩ := Option.map_eq_some_iff.mp step
            refine .take (fun other below same => ?_) (popBack_removes popped) _
            obtain ⟨rfl, -⟩ : top = other ∧ rest = below := by simpa [stack] using same
            exact waiting
          · cases step
  | popOwn worker =>
      simp only [Pool.step] at step
      split at step
      · rename_i idle
        obtain ⟨⟨task, queues⟩, popped, rfl⟩ := Option.map_eq_some_iff.mp step
        exact .take (by simp [idle]) (popFront_removes popped) pool.submitCounter
      · cases step
  | steal worker victim =>
      simp only [Pool.step] at step
      split at step
      · rename_i idle
        split at step
        · cases step
        · obtain ⟨⟨task, queues⟩, popped, rfl⟩ := Option.map_eq_some_iff.mp step
          exact .take (by simp [idle]) (popBack_removes popped) pool.submitCounter
      · cases step

end Pool
end Runtime
end TopoLlvm
