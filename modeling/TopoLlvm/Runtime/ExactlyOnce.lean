import TopoLlvm.Runtime.Pool

/-!
# Every spawned task is in exactly one place

Three conservation laws count a task over the queues, the stacks and the `done` flags.  They give
the placement of tasks, the single entry into each body and the order of the end of a body and its
`done` flag, for every interleaving.
-/

namespace TopoLlvm
namespace Runtime
namespace Pool

variable {P : Type} {workers : WorkerCount} {clients : Nat}

/-! ## Counting over stacks -/

/-- Occurrences of a task in the chosen part of all frames of all threads. -/
def onStacks (part : Frame P → List TaskId) (stackOf : Thread workers clients → List (Frame P))
    (token : TaskId) : Nat :=
  Boxes.total (fun thread => (stackOf thread).flatMap part) token

theorem onStacks_update (part : Frame P → List TaskId)
    (stackOf : Thread workers clients → List (Frame P)) (thread : Thread workers clients)
    (stack : List (Frame P)) (token : TaskId) :
    onStacks part (Function.update stackOf thread stack) token +
        ((stackOf thread).flatMap part).count token =
      onStacks part stackOf token + (stack.flatMap part).count token := by
  have boxes : (fun other => (Function.update stackOf thread stack other).flatMap part) =
      Function.update (fun other => (stackOf other).flatMap part) thread (stack.flatMap part) := by
    funext other
    exact Function.apply_update (fun _ frames => frames.flatMap part) stackOf thread stack other
  rw [onStacks, boxes]
  exact Boxes.total_update _ _ _ _

theorem onStacks_mono {small large : Frame P → List TaskId} {token : TaskId}
    (le : ∀ frame, (small frame).count token ≤ (large frame).count token)
    (stackOf : Thread workers clients → List (Frame P)) :
    onStacks small stackOf token ≤ onStacks large stackOf token := by
  apply Boxes.total_mono
  intro thread
  induction stackOf thread with
  | nil => simp
  | cons frame frames ih =>
      simp only [List.flatMap_cons, List.count_append]
      exact Nat.add_le_add (le frame) ih

theorem inside_le_held (frame : Frame P) (token : TaskId) :
    frame.inside.count token ≤ frame.held.count token := by
  cases position : frame.control <;> simp [Frame.inside, Frame.held, Frame.submits, position]

theorem finished_le_held (frame : Frame P) (token : TaskId) :
    frame.finished.count token ≤ frame.held.count token := by
  cases position : frame.control <;> simp [Frame.finished, Frame.held, Frame.submits, position]

/-! ## Counting `done` flags and spawned tasks -/

/-- One for a task that is done, zero otherwise. -/
def doneCount (tasks : List (Task P)) (token : TaskId) : Nat :=
  if tasks[token]?.any (·.done) then 1 else 0

/-- One for a spawned task, zero for an index not yet used. -/
def spawnedCount (tasks : List (Task P)) (token : TaskId) : Nat :=
  if token < tasks.length then 1 else 0

theorem doneCount_append (tasks : List (Task P)) {record : Task P} (fresh : record.done = false)
    (token : TaskId) : doneCount (tasks ++ [record]) token = doneCount tasks token := by
  rcases Nat.lt_trichotomy token tasks.length with before | rfl | beyond
  · simp [doneCount, List.getElem?_append_left before]
  · simp [doneCount, fresh]
  · simp [doneCount, List.getElem?_eq_none (by simp; omega : (tasks ++ [record]).length ≤ token),
      List.getElem?_eq_none (Nat.le_of_lt beyond)]

theorem spawnedCount_append (tasks : List (Task P)) (record : Task P) (token : TaskId) :
    spawnedCount (tasks ++ [record]) token =
      spawnedCount tasks token + [tasks.length].count token := by
  rcases Nat.lt_trichotomy token tasks.length with before | rfl | beyond
  · simp [spawnedCount, before, Nat.lt_succ_of_lt before, Nat.ne_of_gt before]
  · simp [spawnedCount]
  · simp [spawnedCount, Nat.not_lt_of_lt beyond, Nat.not_lt.mpr beyond, Nat.ne_of_lt beyond]

@[simp]
theorem spawnedCount_publish (tasks : List (Task P)) (task : TaskId)
    (pending : Option ExceptionPtr) (token : TaskId) :
    spawnedCount (publish tasks task pending) token = spawnedCount tasks token := by
  simp [spawnedCount, publish]

theorem spawnedCount_le_one (tasks : List (Task P)) (token : TaskId) :
    spawnedCount tasks token ≤ 1 := by
  unfold spawnedCount
  split <;> omega

/-- Publishing a spawned task that was not done adds exactly its own flag. -/
theorem doneCount_publish (tasks : List (Task P)) (task : TaskId)
    (pending : Option ExceptionPtr) (spawned : spawnedCount tasks task = 1)
    (pendingTask : doneCount tasks task = 0) (token : TaskId) :
    doneCount (publish tasks task pending) token = doneCount tasks token + [task].count token := by
  by_cases same : task = token
  · subst same
    have bound : task < tasks.length := by
      by_contra beyond
      simp [spawnedCount, beyond] at spawned
    rw [pendingTask]
    simp [doneCount, publish, List.getElem?_eq_getElem bound]
  · simp [doneCount, publish, same]

/-! ## Conservation -/

/-- The conservation laws of tasks, of submissions, of entries into bodies and of their ends. -/
structure Conserved (pool : Pool P workers clients) : Prop where
  placed : ∀ token, Boxes.total pool.queues token + onStacks Frame.held pool.stackOf token +
    doneCount pool.tasks token = spawnedCount pool.tasks token
  submissions : ∀ token, pool.submitted.count token +
    onStacks Frame.submits pool.stackOf token = spawnedCount pool.tasks token
  entries : ∀ token, pool.entered.count token =
    onStacks Frame.inside pool.stackOf token + doneCount pool.tasks token
  endings : ∀ token, pool.ended.count token =
    onStacks Frame.finished pool.stackOf token + doneCount pool.tasks token

theorem onStacks_boot (part : Frame P → List TaskId) (roots : Fin clients → P) (token : TaskId)
    (rootless : ∀ position, part
      { task := none, control := .running position, handles := [], started := 0 } = []) :
    onStacks part (boot workers roots).stackOf token = 0 := by
  simp [onStacks, Boxes.total, boot, rootless]

theorem conserved_boot (roots : Fin clients → P) : Conserved (boot workers roots) where
  placed token := by
    rw [onStacks_boot _ roots token fun _ => rfl]
    simp [Boxes.total, boot, doneCount, spawnedCount]
  submissions token := by
    rw [onStacks_boot _ roots token fun _ => rfl]
    simp [boot, spawnedCount]
  entries token := by
    rw [onStacks_boot _ roots token fun _ => rfl]
    simp [boot, doneCount]
  endings token := by
    rw [onStacks_boot _ roots token fun _ => rfl]
    simp [boot, doneCount]

/-- A steady body holds and has entered its own task only. -/
theorem steady_parts {frame : Frame P} (steady : IsSteady frame.control) :
    frame.held = frame.task.toList ∧ frame.submits = [] ∧
      frame.inside = frame.task.toList ∧ frame.finished = [] := by
  cases position : frame.control <;>
    simp_all [IsSteady, Frame.held, Frame.submits, Frame.inside, Frame.finished]

/-- A step that replaces one stack keeps the laws if it keeps what they say of that stack. -/
theorem Conserved.update {pool after : Pool P workers clients} (conserved : Conserved pool)
    {thread : Thread workers clients} {stack : List (Frame P)}
    (moved : after.stackOf = Function.update pool.stackOf thread stack)
    (placed : ∀ token, Boxes.total after.queues token + (stack.flatMap Frame.held).count token +
        doneCount after.tasks token + spawnedCount pool.tasks token =
      Boxes.total pool.queues token + ((pool.stackOf thread).flatMap Frame.held).count token +
        doneCount pool.tasks token + spawnedCount after.tasks token)
    (submissions : ∀ token, after.submitted.count token +
        (stack.flatMap Frame.submits).count token + spawnedCount pool.tasks token =
      pool.submitted.count token + ((pool.stackOf thread).flatMap Frame.submits).count token +
        spawnedCount after.tasks token)
    (entries : ∀ token, after.entered.count token +
        ((pool.stackOf thread).flatMap Frame.inside).count token + doneCount pool.tasks token =
      pool.entered.count token + (stack.flatMap Frame.inside).count token +
        doneCount after.tasks token)
    (endings : ∀ token, after.ended.count token +
        ((pool.stackOf thread).flatMap Frame.finished).count token + doneCount pool.tasks token =
      pool.ended.count token + (stack.flatMap Frame.finished).count token +
        doneCount after.tasks token) : Conserved after := by
  have change := fun part => onStacks_update part pool.stackOf thread stack
  refine ⟨fun token => ?_, fun token => ?_, fun token => ?_, fun token => ?_⟩
  · have law := conserved.placed token
    have balance := placed token
    have change := change Frame.held token
    rw [moved]
    omega
  · have law := conserved.submissions token
    have balance := submissions token
    have change := change Frame.submits token
    rw [moved]
    omega
  · have law := conserved.entries token
    have balance := entries token
    have change := change Frame.inside token
    rw [moved]
    omega
  · have law := conserved.endings token
    have balance := endings token
    have change := change Frame.finished token
    rw [moved]
    omega

/-- The completing frame is the one place of its task, which was therefore not done before. -/
theorem Conserved.doneCount_publish {pool : Pool P workers clients} (conserved : Conserved pool)
    {thread : Thread workers clients} {top : Frame P} {rest : List (Frame P)} {task : TaskId}
    (stack : pool.stackOf thread = top :: rest) (holds : top.task = some task)
    (pending : Option ExceptionPtr) (token : TaskId) :
    doneCount (publish pool.tasks task pending) token =
      doneCount pool.tasks token + [task].count token := by
  have law := conserved.placed task
  have change := onStacks_update Frame.held pool.stackOf thread [] task
  have held : 0 < ((pool.stackOf thread).flatMap Frame.held).count task := by
    simp [stack, Frame.held, holds]
  have bound := spawnedCount_le_one pool.tasks task
  simp only [List.flatMap_nil, List.count_nil] at change
  exact Pool.doneCount_publish pool.tasks task pending (by omega) (by omega) token

/-- Every move keeps the conservation laws. -/
theorem Conserved.move {pool after : Pool P workers clients} (conserved : Conserved pool)
    (move : Move pool after) : Conserved after := by
  cases move with
  | @enter thread top rest task record stack position taskEq lookup =>
      refine conserved.update rfl (fun token => ?_) (fun token => ?_) (fun token => ?_)
        fun token => ?_
      · simp [stack, setStack, Frame.held, Frame.submits, position]
      · simp [stack, setStack, Frame.submits, position]
      · simp [stack, setStack, Frame.inside, position, taskEq, List.count_cons]
        omega
      · simp [stack, setStack, Frame.finished, position]
  | @proceed thread top rest control handles stack steady becomes _ =>
      obtain ⟨heldTop, submitsTop, insideTop, finishedTop⟩ := steady_parts steady
      have becomes : IsSteady (P := P) { top with control, handles }.control := becomes
      obtain ⟨heldNew, submitsNew, insideNew, finishedNew⟩ := steady_parts becomes
      refine conserved.update rfl (fun token => ?_) (fun token => ?_) (fun token => ?_)
        fun token => ?_
      · simp [stack, setStack, heldTop, heldNew]
      · simp [stack, setStack, submitsTop, submitsNew]
      · simp [stack, setStack, insideTop, insideNew]
      · simp [stack, setStack, finishedTop, finishedNew]
  | @finish thread top rest state pending stack position =>
      refine conserved.update rfl (fun token => ?_) (fun token => ?_) (fun token => ?_)
        fun token => ?_
      · simp [stack, setStack, Frame.held, Frame.submits, position]
      · simp [stack, setStack, Frame.submits, position]
      · simp [stack, setStack, Frame.inside, position]
      · simp [stack, setStack, Frame.finished, position]
        omega
  | @spawn thread top rest state next record stack position fresh =>
      refine conserved.update rfl (fun token => ?_) (fun token => ?_) (fun token => ?_)
        fun token => ?_
      · simp [stack, setStack, Frame.held, Frame.submits, position, doneCount_append _ fresh,
          spawnedCount_append, List.count_cons]
        omega
      · simp [stack, setStack, Frame.submits, position, spawnedCount_append, List.count_cons]
        omega
      · simp [stack, setStack, Frame.inside, position, doneCount_append _ fresh]
      · simp [stack, setStack, Frame.finished, position, doneCount_append _ fresh]
  | @push thread top rest task index next record stack position lookup =>
      refine conserved.update rfl (fun token => ?_) (fun token => ?_) (fun token => ?_)
        fun token => ?_
      · simp [stack, setStack, Frame.held, Frame.submits, position, total_pushTask, List.count_cons]
        omega
      · simp [stack, setStack, Frame.submits, position, List.count_cons]
        omega
      · simp [stack, setStack, Frame.inside, position]
      · simp [stack, setStack, Frame.finished, position]
  | @complete thread top rest pending stack position =>
      cases own : top.task with
      | none =>
          refine conserved.update rfl (fun token => ?_) (fun token => ?_) (fun token => ?_)
            fun token => ?_
          · simp [stack, setStack, Frame.held, Frame.submits, position, own]
          · simp [stack, setStack, Frame.submits, position]
          · simp [stack, setStack, Frame.inside, position, own]
          · simp [stack, setStack, Frame.finished, position, own]
      | some task =>
          have flags := conserved.doneCount_publish stack own pending
          refine conserved.update rfl (fun token => ?_) (fun token => ?_) (fun token => ?_)
            fun token => ?_
          · simp [stack, setStack, Frame.held, Frame.submits, position, own, flags, List.count_cons]
            omega
          · simp [stack, setStack, Frame.submits, position]
          · simp [stack, setStack, Frame.inside, position, own, flags, List.count_cons]
            omega
          · simp [stack, setStack, Frame.finished, position, own, flags, List.count_cons]
            omega
  | repark => exact ⟨conserved.placed, conserved.submissions, conserved.entries, conserved.endings⟩
  | @take thread task queues _ removed counter =>
      refine conserved.update rfl (fun token => ?_) (fun token => ?_) (fun token => ?_)
        fun token => ?_
      · have taken := removed.1 token
        simp [runTask, Frame.held, Frame.submits, List.count_cons] at taken ⊢
        omega
      · simp [runTask, Frame.submits]
      · simp [runTask, Frame.inside]
      · simp [runTask, Frame.finished]

/-- The conservation laws hold in every run. -/
theorem Reachable.conserved {program : P → Action P} {pool : Pool P workers clients}
    (reach : Reachable program pool) : Conserved pool := by
  refine reach.invariant ?_ ?_
  · rintro _ ⟨roots, rfl⟩
    exact conserved_boot roots
  · intro before label after _ conserved _ step
    exact conserved.move (step_move step)

/-! ## Places -/

/-- Where a task can be: in a queue slot, in the hands of a thread, or done. -/
inductive Place (workers : WorkerCount) (clients : Nat) where
  | queued (queue : Fin workers.1) (slot : Nat)
  | inHand (thread : Thread workers clients) (slot : Nat)
  | done

/-- The task is at the place. -/
def At (pool : Pool P workers clients) (task : TaskId) : Place workers clients → Prop
  | .queued queue slot => (pool.queues queue)[slot]? = some task
  | .inHand thread slot => ((pool.stackOf thread).flatMap Frame.held)[slot]? = some task
  | .done => pool.isDone task = true

theorem doneCount_eq_one_iff (pool : Pool P workers clients) (task : TaskId) :
    doneCount pool.tasks task = 1 ↔ pool.isDone task = true := by
  unfold doneCount isDone
  split <;> simp_all

/-- A task at a place weighs on the count of that kind of place. -/
theorem At.counted {pool : Pool P workers clients} {task : TaskId} {place : Place workers clients}
    (found : pool.At task place) :
    match place with
    | .queued _ _ => 0 < Boxes.total pool.queues task
    | .inHand _ _ => 0 < onStacks Frame.held pool.stackOf task
    | .done => doneCount pool.tasks task = 1 := by
  cases place with
  | queued queue slot =>
      exact (Boxes.total_pos_iff _ _).mpr ⟨queue, List.mem_of_getElem? found⟩
  | inHand thread slot =>
      exact (Boxes.total_pos_iff _ _).mpr ⟨thread, List.mem_of_getElem? found⟩
  | done => exact (doneCount_eq_one_iff pool task).mpr found

theorem Conserved.spawned_of_at {pool : Pool P workers clients} (conserved : Conserved pool)
    {task : TaskId} (place : Place workers clients) (found : pool.At task place) :
    task < pool.tasks.length := by
  have law := conserved.placed task
  have weight := found.counted
  by_contra beyond
  simp only [spawnedCount, beyond, if_false] at law
  cases place <;> simp only at weight <;> omega

theorem Conserved.place_unique {pool : Pool P workers clients} (conserved : Conserved pool)
    {task : TaskId} (left right : Place workers clients) (atLeft : pool.At task left)
    (atRight : pool.At task right) : left = right := by
  have law := conserved.placed task
  have leftWeight := atLeft.counted
  have rightWeight := atRight.counted
  have bound := spawnedCount_le_one pool.tasks task
  cases left with
  | queued queue slot =>
      cases right with
      | queued other otherSlot =>
          obtain ⟨rfl, rfl⟩ :=
            Boxes.slot_of_total_le_one pool.queues (by omega) atLeft atRight
          rfl
      | inHand | done => simp only at leftWeight rightWeight; omega
  | inHand thread slot =>
      cases right with
      | inHand other otherSlot =>
          have once : onStacks Frame.held pool.stackOf task ≤ 1 := by omega
          obtain ⟨rfl, rfl⟩ := Boxes.slot_of_total_le_one _ once atLeft atRight
          rfl
      | queued | done => simp only at leftWeight rightWeight; omega
  | done =>
      cases right with
      | done => rfl
      | queued | inHand => simp only at leftWeight rightWeight; omega

theorem Conserved.exists_place {pool : Pool P workers clients} (conserved : Conserved pool)
    {task : TaskId} (spawned : task < pool.tasks.length) : ∃ place, pool.At task place := by
  have law := conserved.placed task
  simp only [spawnedCount, spawned, if_true] at law
  have options : 0 < Boxes.total pool.queues task ∨
      0 < onStacks Frame.held pool.stackOf task ∨ doneCount pool.tasks task = 1 := by omega
  rcases options with queued | held | done
  · obtain ⟨queue, member⟩ := (Boxes.total_pos_iff _ _).mp queued
    obtain ⟨slot, found⟩ := List.mem_iff_getElem?.mp member
    exact ⟨.queued queue slot, found⟩
  · obtain ⟨thread, member⟩ := (Boxes.total_pos_iff _ _).mp held
    obtain ⟨slot, found⟩ := List.mem_iff_getElem?.mp member
    exact ⟨.inHand thread slot, found⟩
  · exact ⟨.done, (doneCount_eq_one_iff pool task).mp done⟩

/-- In every interleaving a spawned task is in exactly one place and nothing else is anywhere,
its body is entered at most once, and `done` follows the one entry and the one end of the body. -/
theorem exactly_once (program : P → Action P) {pool : Pool P workers clients}
    (reach : Reachable program pool) (task : TaskId) :
    (task < pool.tasks.length → ∃! place, pool.At task place) ∧
      (∀ place, pool.At task place → task < pool.tasks.length) ∧
      pool.entered.count task ≤ 1 ∧
      (pool.isDone task = true → pool.entered.count task = 1 ∧ pool.ended.count task = 1) := by
  have conserved := reach.conserved
  have law := conserved.placed task
  have entries := conserved.entries task
  have endings := conserved.endings task
  have inside := onStacks_mono (inside_le_held · task) pool.stackOf
  have ends := onStacks_mono (finished_le_held · task) pool.stackOf
  have bound := spawnedCount_le_one pool.tasks task
  refine ⟨fun spawned => ?_, conserved.spawned_of_at, by omega, fun done => ?_⟩
  · obtain ⟨place, found⟩ := conserved.exists_place spawned
    exact ⟨place, found, fun other => (conserved.place_unique other place · found)⟩
  · have flag := (doneCount_eq_one_iff pool task).mpr done
    exact ⟨by omega, by omega⟩

/-- A root that spawns one task at normal priority and awaits it. -/
def forkJoin : Nat → Action Nat
  | 0 => .spawn 2 3 1
  | 1 => .await 0 fun _ => 2
  | _ => .ret

/-- The only worker of a pool of one. -/
def loneWorker : Fin (doInitWorkers 1 8).1 := ⟨0, (doInitWorkers 1 8).2⟩

/-- The only client. -/
def loneClient : Fin 1 := .last 0

/-- One worker and one client run `forkJoin` up to the completion of the task. -/
def forkJoinRun : List (PoolLabel (doInitWorkers 1 8) 1) :=
  [.act (.inr loneClient) 0, .act (.inr loneClient) 0, .act (.inr loneClient) 0,
    .popOwn loneWorker, .act (.inl loneWorker) 0, .act (.inl loneWorker) 0,
    .act (.inl loneWorker) 0]

theorem exactly_once_forkJoin :
    ∃ pool : Pool Nat (doInitWorkers 1 8) 1, Reachable forkJoin pool ∧ pool.isDone 0 = true ∧
      (∃! place, pool.At 0 place) ∧ pool.entered.count 0 = 1 ∧ pool.ended.count 0 = 1 := by
  obtain ⟨pool, reach, spawned, done⟩ :=
    (machine forkJoin (doInitWorkers 1 8) 1).exists_reachable
      (fun pool => 0 < pool.tasks.length ∧ pool.isDone 0 = true) forkJoinRun ⟨fun _ => 0, rfl⟩
      (by decide)
  obtain ⟨placed, _, _, finished⟩ := exactly_once forkJoin reach 0
  exact ⟨pool, reach, done, placed spawned, finished done⟩

end Pool
end Runtime
end TopoLlvm
