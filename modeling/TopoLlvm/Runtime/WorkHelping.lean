import TopoLlvm.Runtime.ExactlyOnce
import Mathlib.Data.Fintype.Lattice
import Mathlib.Order.Bounds.Basic

/-!
# Work-helping awaits never get stuck

Helping stacks a foreign body on top of a waiting one.  A body is started later than every body
beneath it and later than the body that spawned it, so among the threads that wait the one whose
topmost body started last waits for a task that no waiting thread holds back.
-/

namespace TopoLlvm
namespace Runtime
namespace Pool

variable {P : Type} {workers : WorkerCount} {clients : Nat}

/-- How bodies lie on the stacks of the threads. -/
structure Stacked (pool : Pool P workers clients) : Prop where
  /-- Every frame was pushed before now. -/
  past : ∀ thread, ∀ frame ∈ pool.stackOf thread, frame.started < pool.clock
  /-- A frame starts after every frame beneath it. -/
  order : ∀ thread, (pool.stackOf thread).Pairwise fun upper lower => lower.started < upper.started
  /-- Only the topmost frame of a stack is not waiting. -/
  suspended : ∀ thread top rest, pool.stackOf thread = top :: rest →
    ∀ frame ∈ rest, isAwaiting frame.control = true
  /-- A frame that has not entered its body runs a task. -/
  owned : ∀ thread, ∀ frame ∈ pool.stackOf thread, frame.control = .fresh → frame.task ≠ none
  /-- Handles denote spawned tasks. -/
  spawned : ∀ thread, ∀ frame ∈ pool.stackOf thread, ∀ task ∈ frame.children,
    task < pool.tasks.length
  /-- A child starts after the body that spawned it. -/
  later : ∀ thread, ∀ frame ∈ pool.stackOf thread, ∀ task ∈ frame.children,
    ∀ other, ∀ runner ∈ pool.stackOf other, runner.task = some task →
      frame.started < runner.started

theorem stacked_boot (roots : Fin clients → P) : Stacked (boot workers roots) where
  past thread frame member := by
    cases thread <;> simp_all [boot]
  order thread := by
    cases thread <;> simp [boot]
  suspended thread top rest stack := by
    cases thread <;> simp_all [boot]
  owned thread frame member := by
    cases thread <;> simp_all [boot]
  spawned thread frame member := by
    cases thread <;> simp_all [boot, Frame.children]
  later thread frame member := by
    cases thread <;> simp_all [boot, Frame.children]

/-- Rewriting the topmost frame of one thread keeps the layout when the frame stays started,
stays with its task and gains no child that is already running. -/
theorem Stacked.retop {pool after : Pool P workers clients} (stacked : Stacked pool)
    {thread : Thread workers clients} {top fresh : Frame P} {rest : List (Frame P)}
    (stack : pool.stackOf thread = top :: rest)
    (frames : after.stackOf = Function.update pool.stackOf thread (fresh :: rest))
    (clock : after.clock = pool.clock) (grows : pool.tasks.length ≤ after.tasks.length)
    (sameTask : fresh.task = top.task) (sameStart : fresh.started = top.started)
    (entered : fresh.control ≠ .fresh)
    (children : ∀ task ∈ fresh.children, task ∈ top.children ∨
      task < after.tasks.length ∧
        ∀ other, ∀ runner ∈ pool.stackOf other, runner.task ≠ some task) :
    Stacked after := by
  have topMember : top ∈ pool.stackOf thread := by simp [stack]
  -- Every frame of the new stacks is an old one or the rewritten one.
  have origin : ∀ other, ∀ frame ∈ after.stackOf other,
      frame ∈ pool.stackOf other ∨ other = thread ∧ frame = fresh := by
    intro other frame member
    rw [frames] at member
    by_cases same : other = thread
    · subst same
      simp only [Function.update_self, List.mem_cons] at member
      rcases member with rfl | member
      · exact .inr ⟨rfl, rfl⟩
      · exact .inl (by simp [stack, member])
    · exact .inl (by simpa [Function.update_of_ne same] using member)
  have stamp : ∀ other, ∀ runner ∈ after.stackOf other, ∀ task, runner.task = some task →
      ∃ old ∈ pool.stackOf other, old.task = some task ∧ old.started = runner.started := by
    intro other runner member task own
    rcases origin other runner member with old | ⟨rfl, rfl⟩
    · exact ⟨runner, old, own, rfl⟩
    · exact ⟨top, topMember, sameTask ▸ own, sameStart.symm⟩
  refine ⟨fun other frame member => ?_, fun other => ?_, fun other head tail shape => ?_,
    fun other frame member begin => ?_, fun other frame member task child => ?_,
    fun other frame member task child runnerThread runner runs own => ?_⟩
  · rw [clock]
    rcases origin other frame member with old | ⟨rfl, rfl⟩
    · exact stacked.past other frame old
    · rw [sameStart]
      exact stacked.past other top topMember
  · rw [frames]
    by_cases same : other = thread
    · subst same
      have order := stacked.order other
      rw [stack] at order
      simpa [sameStart] using order
    · rw [Function.update_of_ne same]
      exact stacked.order other
  · rw [frames] at shape
    by_cases same : other = thread
    · subst same
      simp only [Function.update_self, List.cons.injEq] at shape
      exact shape.2 ▸ stacked.suspended other top rest stack
    · rw [Function.update_of_ne same] at shape
      exact stacked.suspended other head tail shape
  · rcases origin other frame member with old | ⟨rfl, rfl⟩
    · exact stacked.owned other frame old begin
    · exact absurd begin entered
  · rcases origin other frame member with old | ⟨rfl, rfl⟩
    · exact (stacked.spawned other frame old task child).trans_le grows
    · rcases children task child with kept | ⟨bound, -⟩
      · exact (stacked.spawned other top topMember task kept).trans_le grows
      · exact bound
  · obtain ⟨old, oldRuns, oldOwn, sameStamp⟩ := stamp runnerThread runner runs task own
    rw [← sameStamp]
    rcases origin other frame member with kept | ⟨rfl, rfl⟩
    · exact stacked.later other frame kept task child runnerThread old oldRuns oldOwn
    · rcases children task child with inherited | ⟨-, idle⟩
      · rw [sameStart]
        exact stacked.later other top topMember task inherited runnerThread old oldRuns oldOwn
      · exact absurd oldOwn (idle runnerThread old oldRuns)

/-- A completed body leaves the layout of the others. -/
theorem Stacked.drop {pool after : Pool P workers clients} (stacked : Stacked pool)
    {thread : Thread workers clients} {top : Frame P} {rest : List (Frame P)}
    (stack : pool.stackOf thread = top :: rest)
    (frames : after.stackOf = Function.update pool.stackOf thread rest)
    (clock : after.clock = pool.clock) (grows : pool.tasks.length ≤ after.tasks.length) :
    Stacked after := by
  have origin : ∀ other, ∀ frame ∈ after.stackOf other, frame ∈ pool.stackOf other := by
    intro other frame member
    rw [frames] at member
    by_cases same : other = thread
    · subst same
      exact stack ▸ List.mem_cons_of_mem _ (by simpa using member)
    · simpa [Function.update_of_ne same] using member
  refine ⟨fun other frame member => ?_, fun other => ?_, fun other head tail shape => ?_,
    fun other frame member => stacked.owned other frame (origin other frame member),
    fun other frame member task child =>
      (stacked.spawned other frame (origin other frame member) task child).trans_le grows,
    fun other frame member task child runnerThread runner runs =>
      stacked.later other frame (origin other frame member) task child runnerThread runner
        (origin runnerThread runner runs)⟩
  · rw [clock]
    exact stacked.past other frame (origin other frame member)
  · rw [frames]
    by_cases same : other = thread
    · subst same
      have order := stacked.order other
      rw [stack] at order
      simpa using order.of_cons
    · rw [Function.update_of_ne same]
      exact stacked.order other
  · rw [frames] at shape
    by_cases same : other = thread
    · subst same
      simp only [Function.update_self] at shape
      intro frame member
      exact stacked.suspended other top rest stack frame (by simp [shape, member])
    · rw [Function.update_of_ne same] at shape
      exact stacked.suspended other head tail shape

/-- A task taken from the queues starts after everything that is on a stack. -/
theorem Stacked.push {pool after : Pool P workers clients} (stacked : Stacked pool)
    {thread : Thread workers clients} {task : TaskId}
    (waiting : ∀ top rest, pool.stackOf thread = top :: rest → isAwaiting top.control = true)
    (frames : after.stackOf = Function.update pool.stackOf thread
      ({ task := some task, control := .fresh, handles := [], started := pool.clock } ::
        pool.stackOf thread))
    (clock : after.clock = pool.clock + 1) (grows : pool.tasks.length ≤ after.tasks.length) :
    Stacked after := by
  let fresh : Frame P :=
    { task := some task, control := .fresh, handles := [], started := pool.clock }
  have origin : ∀ other, ∀ frame ∈ after.stackOf other,
      frame ∈ pool.stackOf other ∨ frame = fresh := by
    intro other frame member
    rw [frames] at member
    by_cases same : other = thread
    · subst same
      simpa [or_comm] using member
    · exact .inl (by simpa [Function.update_of_ne same] using member)
  have childless : fresh.children = [] := rfl
  refine ⟨fun other frame member => ?_, fun other => ?_, fun other head tail shape => ?_,
    fun other frame member begin => ?_, fun other frame member child isChild => ?_,
    fun other frame member child isChild runnerThread runner runs own => ?_⟩
  · rw [clock]
    rcases origin other frame member with old | rfl
    · exact Nat.lt_succ_of_lt (stacked.past other frame old)
    · exact Nat.lt_succ_self _
  · rw [frames]
    by_cases same : other = thread
    · subst same
      rw [Function.update_self, List.pairwise_cons]
      exact ⟨stacked.past other, stacked.order other⟩
    · rw [Function.update_of_ne same]
      exact stacked.order other
  · rw [frames] at shape
    by_cases same : other = thread
    · subst same
      simp only [Function.update_self, List.cons.injEq] at shape
      rw [← shape.2]
      cases stack : pool.stackOf other with
      | nil => simp
      | cons top rest =>
          intro frame member
          rcases List.mem_cons.mp member with rfl | member
          · exact waiting frame rest stack
          · exact stacked.suspended other top rest stack frame member
    · rw [Function.update_of_ne same] at shape
      exact stacked.suspended other head tail shape
  · rcases origin other frame member with old | rfl
    · exact stacked.owned other frame old begin
    · simp [fresh]
  · rcases origin other frame member with old | rfl
    · exact (stacked.spawned other frame old child isChild).trans_le grows
    · simp [childless] at isChild
  · rcases origin other frame member with old | rfl
    · rcases origin runnerThread runner runs with runs | rfl
      · exact stacked.later other frame old child isChild runnerThread runner runs own
      · exact stacked.past other frame old
    · simp [childless] at isChild

theorem isAwaiting_eq_true_iff (control : Control P) :
    isAwaiting control = true ↔ ∃ task next, control = .awaiting task next := by
  cases control <;> simp [isAwaiting]

/-- Every move keeps the layout of the stacks. -/
theorem Stacked.move {pool after : Pool P workers clients} (stacked : Stacked pool)
    (conserved : Conserved pool) (move : Move pool after) : Stacked after := by
  cases move with
  | enter stack position taskEq lookup =>
      refine stacked.retop stack rfl rfl le_rfl rfl rfl (by simp) fun task child => ?_
      exact .inl (List.mem_append_left _ (by simpa [Frame.children] using child))
  | @proceed thread top rest control handles stack steady becomes inherits =>
      refine stacked.retop stack rfl rfl le_rfl rfl rfl ?_ fun task child => .inl (inherits _ child)
      rintro rfl
      exact becomes
  | finish stack position =>
      refine stacked.retop stack rfl rfl le_rfl rfl rfl (by simp) fun task child => ?_
      exact .inl (List.mem_append_left _ (by simpa [Frame.children] using child))
  | @spawn thread top rest state next record stack position fresh =>
      refine stacked.retop stack rfl rfl (by simp) rfl rfl (by simp) fun task child => ?_
      simp only [Frame.children, List.mem_append, List.mem_singleton] at child
      rcases child with kept | rfl
      · exact .inl (List.mem_append_left _ kept)
      · -- The new index is beyond every task that a frame can run.
        refine .inr ⟨by simp, fun other runner runs own => ?_⟩
        have held : pool.tasks.length ∈ (pool.stackOf other).flatMap Frame.held :=
          List.mem_flatMap.mpr ⟨runner, runs, by simp [Frame.held, own]⟩
        obtain ⟨slot, found⟩ := List.mem_iff_getElem?.mp held
        exact absurd (conserved.spawned_of_at (.inHand other slot) found) (lt_irrefl _)
  | @push thread top rest task index next record stack position lookup =>
      refine stacked.retop stack rfl rfl le_rfl rfl rfl (by simp) fun child isChild => .inl ?_
      simpa [Frame.children, position, List.reduceOption_append] using isChild
  | @complete thread top rest pending stack position =>
      refine stacked.drop stack rfl rfl ?_
      cases top.task <;> simp [publish]
  | repark => exact ⟨stacked.past, stacked.order, stacked.suspended, stacked.owned,
      stacked.spawned, stacked.later⟩
  | take waiting removed counter => exact stacked.push waiting rfl rfl le_rfl

/-- The layout of the stacks holds in every run. -/
theorem Reachable.stacked {program : P → Action P} {pool : Pool P workers clients}
    (reach : Reachable program pool) : Stacked pool := by
  refine reach.invariant ?_ ?_
  · rintro _ ⟨roots, rfl⟩
    exact stacked_boot roots
  · intro before label after reached stacked _ step
    exact stacked.move (Reachable.conserved reached) (step_move step)

/-! ## Progress -/

/-- A step other than one more fruitless turn of an await loop. -/
def IsProgress : PoolLabel workers clients → Prop
  | .repark _ => False
  | _ => True

/-- The topmost body of the thread waits for a task that is not done. -/
def Blocked (pool : Pool P workers clients) (thread : Thread workers clients) : Prop :=
  ∃ top rest task next, pool.stackOf thread = top :: rest ∧
    top.control = .awaiting task next ∧ pool.isDone task = false

/-- All queues are empty and every topmost body waits for a task suspended beneath the topmost
body of some thread. -/
def Deadlocked (pool : Pool P workers clients) : Prop :=
  (∀ queue, pool.queues queue = []) ∧
    ∀ thread top rest, pool.stackOf thread = top :: rest →
      ∃ task next, top.control = .awaiting task next ∧
        ∃ other upper below, pool.stackOf other = upper :: below ∧
          ∃ frame ∈ below, frame.task = some task

theorem Conserved.held_spawned {pool : Pool P workers clients} (conserved : Conserved pool)
    {thread : Thread workers clients} {frame : Frame P} (member : frame ∈ pool.stackOf thread)
    (task : TaskId) (held : task ∈ frame.held) : task < pool.tasks.length := by
  obtain ⟨slot, found⟩ :=
    List.mem_iff_getElem?.mp (List.mem_flatMap.mpr ⟨frame, member, held⟩)
  exact conserved.spawned_of_at (.inHand thread slot) found

/-- A topmost body that does not wait for an unfinished task can move. -/
theorem act_enabled (program : P → Action P) {pool : Pool P workers clients}
    (conserved : Conserved pool) (stacked : Stacked pool) {thread : Thread workers clients}
    {top : Frame P} {rest : List (Frame P)} (stack : pool.stackOf thread = top :: rest)
    (free : ¬ Blocked pool thread) : (pool.step program (.act thread 0)).isSome := by
  have member : top ∈ pool.stackOf thread := by simp [stack]
  simp only [Pool.step, stack]
  cases position : top.control with
  | fresh =>
      obtain ⟨task, own⟩ := Option.ne_none_iff_exists'.mp (stacked.owned thread top member position)
      have bound := conserved.held_spawned member task (by simp [Frame.held, own])
      simp [act, position, own, List.getElem?_eq_getElem bound]
  | running state =>
      cases action : program state with
      | await handle next =>
          cases found : top.handles[handle]?.join <;> simp [act, position, action, found]
      | _ => simp [act, position, action]
  | submitting task index next =>
      have bound := stacked.spawned thread top member task (by simp [Frame.children, position])
      simp [act, position, List.getElem?_eq_getElem bound]
  | awaiting task next =>
      have done : pool.isDone task = true := by
        by_contra undone
        exact free ⟨top, rest, task, next, stack, position, by simpa using undone⟩
      simp [act, position, done]
  | leaving pending => simp [act, position]

/-- While a queue holds a task, worker 0 can take it or move its topmost body. -/
theorem progress_of_queued (program : P → Action P) {pool : Pool P workers clients}
    (conserved : Conserved pool) (stacked : Stacked pool) {queue : Fin workers.1}
    (nonempty : pool.queues queue ≠ []) :
    ∃ label, IsProgress label ∧ (pool.step program label).isSome := by
  let worker : Fin workers.1 := ⟨0, workers.2⟩
  have available := (popBack_isSome_iff pool.queues queue).mpr nonempty
  cases stack : pool.stackOf (.inl worker) with
  | nil =>
      by_cases own : queue = worker
      · refine ⟨.popOwn worker, trivial, ?_⟩
        have front := (popFront_isSome_iff pool.queues worker).mpr (own ▸ nonempty)
        simpa [Pool.step, stack] using front
      · exact ⟨.steal worker queue, trivial, by simpa [Pool.step, stack, own] using available⟩
  | cons top rest =>
      by_cases blocked : Blocked pool (.inl worker)
      · obtain ⟨head, tail, task, next, shape, waits, -⟩ := blocked
        refine ⟨.help (.inl worker) queue, trivial, ?_⟩
        simpa [Pool.step, shape, waits, isAwaiting] using available
      · exact ⟨.act (.inl worker) 0, trivial,
          act_enabled program conserved stacked stack blocked⟩

/-- The moment the topmost body of a thread was started. -/
def topStarted (pool : Pool P workers clients) (thread : Thread workers clients) : Nat :=
  match pool.stackOf thread with
  | [] => 0
  | top :: _ => top.started

/-- A task in the hands of a thread keeps the thread able to move, or lies on a stack whose
topmost body started no earlier than the task's own body. -/
theorem held_task (program : P → Action P) {pool : Pool P workers clients}
    (conserved : Conserved pool) (stacked : Stacked pool) {thread : Thread workers clients}
    {task : TaskId} (held : task ∈ (pool.stackOf thread).flatMap Frame.held) :
    (∃ label, IsProgress label ∧ (pool.step program label).isSome) ∨
      ∃ runner ∈ pool.stackOf thread, runner.task = some task ∧
        runner.started ≤ topStarted pool thread ∧ Blocked pool thread := by
  obtain ⟨runner, member, inHand⟩ := List.mem_flatMap.mp held
  cases stack : pool.stackOf thread with
  | nil => simp [stack] at member
  | cons top rest =>
      by_cases blocked : Blocked pool thread
      swap
      · exact .inl ⟨.act thread 0, trivial,
          act_enabled program conserved stacked stack blocked⟩
      refine .inr ⟨runner, stack ▸ member, ?_, ?_, blocked⟩
      · -- A submitting frame would be topmost, and the topmost frame is waiting.
        have waiting : isAwaiting runner.control = true := by
          rcases List.mem_cons.mp (stack ▸ member) with rfl | below
          · obtain ⟨head, tail, other, next, shape, waits, -⟩ := blocked
            obtain ⟨rfl, -⟩ : runner = head ∧ rest = tail := by simpa [stack] using shape
            simp [waits, isAwaiting]
          · exact stacked.suspended thread top rest stack runner below
        obtain ⟨other, next, waits⟩ := (isAwaiting_eq_true_iff _).mp waiting
        simpa [Frame.held, Frame.submits, waits] using inHand
      · simp only [topStarted, stack]
        rcases List.mem_cons.mp (stack ▸ member) with rfl | below
        · exact le_rfl
        · have order := stacked.order thread
          rw [stack, List.pairwise_cons] at order
          exact (order.1 runner below).le

/-- Among the waiting threads, the one whose topmost body started last waits for a task that
keeps another thread able to move. -/
theorem progress_of_blocked (program : P → Action P) {pool : Pool P workers clients}
    (conserved : Conserved pool) (stacked : Stacked pool)
    (empty : ∀ queue, pool.queues queue = []) {thread : Thread workers clients}
    (blocked : Blocked pool thread) :
    ∃ label, IsProgress label ∧ (pool.step program label).isSome := by
  have : Nonempty { waiting // Blocked pool waiting } := ⟨⟨thread, blocked⟩⟩
  obtain ⟨⟨last, top, rest, task, next, stack, waits, undone⟩, maximal⟩ :=
    Finite.exists_max fun waiting : { waiting // Blocked pool waiting } =>
      topStarted pool waiting.1
  have member : top ∈ pool.stackOf last := by simp [stack]
  have child : task ∈ top.children := by simp [Frame.children, waits]
  obtain ⟨place, found⟩ := conserved.exists_place (stacked.spawned last top member task child)
  cases place with
  | queued queue slot => simp [At, empty queue] at found
  | done => simp [At, undone] at found
  | inHand other slot =>
      obtain progress | ⟨runner, runs, own, below, alsoBlocked⟩ :=
        held_task program conserved stacked (List.mem_of_getElem? found)
      · exact progress
      · have later := stacked.later last top member task child other runner runs own
        have bound := maximal ⟨other, alsoBlocked⟩
        simp only [topStarted, stack] at bound below
        omega

/-- A deadlocked pool with an unfinished task could not move at all. -/
theorem not_progress_of_deadlocked (program : P → Action P) {pool : Pool P workers clients}
    (conserved : Conserved pool) (deadlocked : Deadlocked pool)
    (label : PoolLabel workers clients) (progress : IsProgress label) :
    pool.step program label = none := by
  obtain ⟨empty, waiting⟩ := deadlocked
  have noFront (worker : Fin workers.1) : popFront pool.queues worker = none :=
    (popFront_eq_none_iff _ _).mpr (empty worker)
  have noBack (victim : Fin workers.1) : popBack pool.queues victim = none :=
    (popBack_eq_none_iff _ _).mpr (empty victim)
  cases label with
  | repark thread => exact progress.elim
  | popOwn worker => simp only [Pool.step, noFront]; split <;> rfl
  | steal worker victim => simp only [Pool.step, noBack]; split <;> simp
  | help thread victim => simp only [Pool.step, noBack]; split <;> simp
  | act thread observed =>
      cases stack : pool.stackOf thread with
      | nil => simp [Pool.step, stack]
      | cons top rest =>
          obtain ⟨task, next, waits, other, upper, below, shape, frame, member, own⟩ :=
            waiting thread top rest stack
          -- A suspended task is in the hands of a thread, so it cannot be done as well.
          have held : task ∈ (pool.stackOf other).flatMap Frame.held :=
            List.mem_flatMap.mpr ⟨frame, by simp [shape, member], by simp [Frame.held, own]⟩
          obtain ⟨slot, found⟩ := List.mem_iff_getElem?.mp held
          have undone : ¬ pool.isDone task = true := fun done => by
            have same := conserved.place_unique (.inHand other slot) .done
              found done
            cases same
          simp [Pool.step, stack, act, waits, undone]

/-- In every reachable state with an unfinished task some thread can take a step other than
re-parking, so the pool is never deadlocked. -/
theorem await_never_stuck (program : P → Action P) {pool : Pool P workers clients}
    (reach : Reachable program pool) {task : TaskId} (spawned : task < pool.tasks.length)
    (undone : pool.isDone task = false) :
    (∃ label, IsProgress label ∧ (pool.step program label).isSome) ∧ ¬ Deadlocked pool := by
  have conserved := reach.conserved
  have stacked := reach.stacked
  have progress : ∃ label, IsProgress label ∧ (pool.step program label).isSome := by
    by_cases queued : ∃ queue, pool.queues queue ≠ []
    · obtain ⟨queue, nonempty⟩ := queued
      exact progress_of_queued program conserved stacked nonempty
    · have empty : ∀ queue, pool.queues queue = [] := by simpa using queued
      obtain ⟨place, found⟩ := conserved.exists_place spawned
      cases place with
      | queued queue slot => simp [At, empty queue] at found
      | done => simp [At, undone] at found
      | inHand thread slot =>
          obtain progress | ⟨runner, -, -, -, blocked⟩ :=
            held_task program conserved stacked (List.mem_of_getElem? found)
          · exact progress
          · exact progress_of_blocked program conserved stacked empty blocked
  refine ⟨progress, fun deadlocked => ?_⟩
  obtain ⟨label, moves, enabled⟩ := progress
  simp [not_progress_of_deadlocked program conserved deadlocked label moves] at enabled

theorem await_never_stuck_forkJoin :
    ∃ pool : Pool Nat (doInitWorkers 1 8) 1, Reachable forkJoin pool ∧ pool.isDone 0 = false ∧
      (∃ label, IsProgress label ∧ (pool.step forkJoin label).isSome) ∧ ¬ Deadlocked pool := by
  obtain ⟨pool, reach, spawned, undone⟩ :=
    (machine forkJoin (doInitWorkers 1 8) 1).exists_reachable
      (fun pool => 0 < pool.tasks.length ∧ pool.isDone 0 = false) (forkJoinRun.take 3)
      ⟨fun _ => 0, rfl⟩ (by decide)
  exact ⟨pool, reach, undone, await_never_stuck forkJoin reach spawned undone⟩

end Pool
end Runtime
end TopoLlvm
