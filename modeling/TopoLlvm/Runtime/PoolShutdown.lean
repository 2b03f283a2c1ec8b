import TopoLlvm.Runtime.ExactlyOnce

/-!
# Stopping the pool

The positions of `worker_loop` are added to the pool: the look at the own queue, the steal scan
victim by victim, the first test of `shutdown_flag`, the idle wait and the second test.
`shutdown` nulls `g_pool`, sets the flag and joins.  Both tests run after a scan that may be stale
by then, and a task that slips in between stays in its queue for good.
-/

namespace TopoLlvm
namespace Runtime

variable {P : Type} {workers : WorkerCount} {clients : Nat}

/-- Where a worker stands in `worker_loop`. -/
inductive LoopPosition where
  /-- At the top of the loop, before the own queue is locked. -/
  | top
  /-- About to lock victim `(start + offset) % num_workers`. -/
  | scanning (start offset : Nat)
  /-- Inside `run_task_safely`. -/
  | running
  | firstCheck
  /-- In `wake_cv.wait_for`. -/
  | parked
  | secondCheck
  | exited
  deriving DecidableEq

/-- The thread that takes a step of the pool. -/
def PoolLabel.actor : PoolLabel workers clients → Thread workers clients
  | .act thread _ | .repark thread | .help thread _ => thread
  | .popOwn worker | .steal worker _ => .inl worker

/-- The pool together with the loop positions and the progress of `shutdown`. -/
structure StoppablePool (P : Type) (workers : WorkerCount) (clients : Nat) where
  pool : Pool P workers clients
  /-- Whether `g_pool` still points to the pool. -/
  published : Bool
  /-- Whether a turn of a thread's await loop has loaded the pool pointer. -/
  snapshot : Thread workers clients → Bool
  loops : Fin workers.1 → LoopPosition
  shutdownFlag : Bool
  joined : Bool
  /-- Ghost: how many submissions were complete when the flag was set. -/
  flaggedAt : Nat
  /-- Ghost: how many submissions were complete when a worker last looked at its own queue. -/
  lookedAt : Fin workers.1 → Nat

/-- Steps of bodies, of `worker_loop` and of `shutdown`. -/
inductive StopLabel (workers : WorkerCount) (clients : Nat) where
  /-- A step of a body or of an await loop on any thread. -/
  | body (label : PoolLabel workers clients)
  /-- A turn of an await loop loads `g_pool`. -/
  | loadPool (thread : Thread workers clients)
  /-- Lock the own queue; `draw` is the random number that starts a steal scan. -/
  | lookOwn (worker : Fin workers.1) (draw : Nat)
  /-- Lock the next victim of the steal scan. -/
  | lookVictim (worker : Fin workers.1)
  /-- `run_task_safely` has returned. -/
  | nextTurn (worker : Fin workers.1)
  | firstCheck (worker : Fin workers.1)
  | wake (worker : Fin workers.1)
  | secondCheck (worker : Fin workers.1)
  /-- `shutdown` stores null in `g_pool`. -/
  | unpublish
  /-- `stop` stores the flag. -/
  | setFlag
  /-- `stop` returns from the last `join`. -/
  | join

namespace StoppablePool

/-- Move a worker to another position of its loop. -/
def moveTo (state : StoppablePool P workers clients) (worker : Fin workers.1)
    (position : LoopPosition) : StoppablePool P workers clients :=
  { state with loops := Function.update state.loops worker position }

/-- Leave the loop when the flag is set, otherwise go on at `position`. -/
def testFlag (state : StoppablePool P workers clients) (worker : Fin workers.1)
    (position : LoopPosition) : StoppablePool P workers clients :=
  state.moveTo worker (if state.shutdownFlag then .exited else position)

/-- Whether a step of the pool is one of a body or of an await loop that has the pool pointer. -/
def mayCall (state : StoppablePool P workers clients) : PoolLabel workers clients → Bool
  | .act _ _ => true
  | .repark thread | .help thread _ => state.snapshot thread
  -- These are the steps of `worker_loop` below.
  | .popOwn _ | .steal _ _ => false

/-- One step of a pool that can be stopped. -/
def step (program : P → Action P) (state : StoppablePool P workers clients) :
    StopLabel workers clients → Option (StoppablePool P workers clients)
  | .body label =>
      if state.mayCall label then
        (state.pool.step program label).map fun pool =>
          { state with pool, snapshot := Function.update state.snapshot label.actor false }
      else none
  | .loadPool thread =>
      if (state.pool.stackOf thread).head?.any (Pool.isAwaiting ·.control) then
        some { state with snapshot := Function.update state.snapshot thread state.published }
      else none
  | .lookOwn worker draw =>
      if state.loops worker = .top then
        let looked := { state with
          lookedAt := Function.update state.lookedAt worker state.pool.submitted.length }
        match popFront state.pool.queues worker with
        | some (task, queues) =>
            some { looked.moveTo worker .running with
              pool := state.pool.runTask (.inl worker) task queues }
        | none =>
            some (looked.moveTo worker
              (if 1 < workers.1 then .scanning (draw % workers.1) 0 else .firstCheck))
      else none
  | .lookVictim worker =>
      match state.loops worker with
      | .scanning start offset =>
          let victim := Fin.ofNat workers.1 (start + offset)
          let passed := state.moveTo worker
            (if offset + 1 < workers.1 then .scanning start (offset + 1) else .firstCheck)
          if victim = worker then some passed
          else
            match popBack state.pool.queues victim with
            | some (task, queues) =>
                some { state.moveTo worker .running with
                  pool := state.pool.runTask (.inl worker) task queues }
            | none => some passed
      | _ => none
  | .nextTurn worker =>
      if state.loops worker = .running ∧ (state.pool.stackOf (.inl worker)).isEmpty then
        some (state.moveTo worker .top)
      else none
  | .firstCheck worker =>
      if state.loops worker = .firstCheck then some (state.testFlag worker .parked) else none
  | .wake worker =>
      if state.loops worker = .parked then some (state.moveTo worker .secondCheck) else none
  | .secondCheck worker =>
      if state.loops worker = .secondCheck then some (state.testFlag worker .top) else none
  | .unpublish => if state.published then some { state with published := false } else none
  | .setFlag =>
      if state.published ∨ state.shutdownFlag then none
      else some { state with
        shutdownFlag := true
        flaggedAt := state.pool.submitted.length }
  | .join =>
      if state.shutdownFlag ∧ ∀ worker, state.loops worker = .exited then
        some { state with joined := true }
      else none

/-- A freshly started pool with all workers at the top of their loops. -/
def boot (workers : WorkerCount) (roots : Fin clients → P) : StoppablePool P workers clients where
  pool := Pool.boot workers roots
  published := true
  snapshot _ := false
  loops _ := .top
  shutdownFlag := false
  joined := false
  flaggedAt := 0
  lookedAt _ := 0

/-- The stoppable pool as a machine. -/
def machine (program : P → Action P) (workers : WorkerCount) (clients : Nat) :
    Transition.Machine (StoppablePool P workers clients) (StopLabel workers clients) where
  initial state := ∃ roots, state = boot workers roots
  step := step program

/-- Tasks whose submission was complete when the flag was set. -/
def early (state : StoppablePool P workers clients) : List TaskId :=
  state.pool.submitted.take state.flaggedAt

/-- The worker makes a test that ends its loop. -/
def Breaks (state : StoppablePool P workers clients) (worker : Fin workers.1) :
    StopLabel workers clients → Prop
  | .firstCheck other | .secondCheck other => other = worker ∧ state.shutdownFlag = true
  | _ => False

/-- The scan on which a worker leaves is not overtaken: the early tasks submitted since the
worker's last look at its own queue have been taken out of the queues again. -/
def ScanCurrent (state : StoppablePool P workers clients) (worker : Fin workers.1) : Prop :=
  ∀ task ∈ state.early, task ∈ state.pool.submitted.drop (state.lookedAt worker) →
    ∀ queue, task ∉ state.pool.queues queue

/-- The last worker to leave its loop leaves on a scan that is not overtaken. -/
def LastLeavesCurrent (state : StoppablePool P workers clients)
    (label : StopLabel workers clients) : Prop :=
  ∀ worker, Breaks state worker label →
    (∀ other, other ≠ worker → state.loops other = .exited) → ScanCurrent state worker

instance decidableBreaks (state : StoppablePool P workers clients) (worker : Fin workers.1) :
    ∀ label, Decidable (Breaks state worker label)
  | .firstCheck _ | .secondCheck _ => inferInstanceAs (Decidable (_ ∧ _))
  | .body _ | .loadPool _ | .lookOwn _ _ | .lookVictim _ | .nextTurn _ | .wake _ | .unpublish
  | .setFlag | .join => inferInstanceAs (Decidable False)

instance decidableScanCurrent (state : StoppablePool P workers clients) (worker : Fin workers.1) :
    Decidable (ScanCurrent state worker) :=
  inferInstanceAs (Decidable (∀ task ∈ state.early, _ → _))

instance decidableLastLeavesCurrent (state : StoppablePool P workers clients)
    (label : StopLabel workers clients) : Decidable (LastLeavesCurrent state label) :=
  inferInstanceAs (Decidable (∀ worker, Breaks state worker label →
    (∀ other, other ≠ worker → state.loops other = .exited) → ScanCurrent state worker))

/-! ## Queues and submissions under one step of the pool -/

/-- Submissions are appended, and a queue gains nothing but the appended tasks. -/
def Grows (before after : Pool P workers clients) : Prop :=
  ∃ fresh, after.submitted = before.submitted ++ fresh ∧
    ∀ queue, ∀ task ∈ after.queues queue, task ∈ before.queues queue ∨ task ∈ fresh

theorem Grows.refl (pool : Pool P workers clients) : Grows pool pool :=
  ⟨[], by simp, fun _ _ member => .inl member⟩

theorem grows_of_removes {pool : Pool P workers clients} {task : TaskId} {queues : Queues workers}
    (removed : Removes pool.queues task queues) (thread : Thread workers clients) :
    Grows pool (pool.runTask thread task queues) :=
  ⟨[], by simp [Pool.runTask], fun queue token member => .inl (removed.2 queue token member)⟩

theorem grows_of_move {before after : Pool P workers clients} (move : Pool.Move before after) :
    Grows before after := by
  cases move with
  | push stack position lookup =>
      refine ⟨[_], rfl, fun queue task member => ?_⟩
      rcases mem_pushTask member with rfl | old
      · exact .inr (by simp)
      · exact .inl old
  | @take thread task queues waiting removed counter => exact grows_of_removes removed thread
  | _ => exact ⟨[], by simp [Pool.setStack], fun queue task member => .inl member⟩

theorem grows_of_step {program : P → Action P} {before after : Pool P workers clients}
    {label : PoolLabel workers clients} (step : before.step program label = some after) :
    Grows before after :=
  grows_of_move (Pool.step_move step)

/-- A move of a body changes the stack of its own thread only. -/
theorem act_stackOf {program : P → Action P} {pool after : Pool P workers clients}
    {thread other : Thread workers clients} {observed : Nat} {top : Frame P} {rest : List (Frame P)}
    (step : pool.act program thread observed top rest = some after) (ne : other ≠ thread) :
    after.stackOf other = pool.stackOf other := by
  unfold Pool.act at step
  split at step
  · obtain ⟨task, -, step⟩ := Option.bind_eq_some_iff.mp step
    obtain ⟨record, -, rfl⟩ := Option.map_eq_some_iff.mp step
    simp [Pool.setStack, ne]
  · split at step
    · cases step
      simp [Pool.setStack, ne]
    · cases step
      simp [Pool.setStack, ne]
    · cases step
      simp [Pool.setStack, ne]
    · cases step
      simp [Pool.setStack, ne]
    · split at step <;> cases step <;> simp [Pool.setStack, ne]
  · obtain ⟨record, -, rfl⟩ := Option.map_eq_some_iff.mp step
    simp [Pool.setStack, ne]
  · split at step
    · cases step
      simp [Pool.setStack, ne]
    · cases step
  · cases step
    simp [Pool.setStack, ne]

/-- A step of the pool changes the stack of its own thread only. -/
theorem stackOf_of_step {program : P → Action P} {before after : Pool P workers clients}
    {label : PoolLabel workers clients} (step : before.step program label = some after)
    {thread : Thread workers clients} (ne : thread ≠ label.actor) :
    after.stackOf thread = before.stackOf thread := by
  cases label with
  | act other observed =>
      simp only [Pool.step] at step
      split at step
      · cases step
      · exact act_stackOf step ne
  | repark other =>
      simp only [Pool.step] at step
      split at step
      · cases step
      · split at step <;> cases step
        rfl
  | help other victim =>
      simp only [Pool.step] at step
      split at step
      · cases step
      · split at step
        · obtain ⟨⟨task, queues⟩, -, rfl⟩ := Option.map_eq_some_iff.mp step
          exact Function.update_of_ne ne ..
        · cases step
  | popOwn worker =>
      simp only [Pool.step] at step
      split at step
      · obtain ⟨⟨task, queues⟩, -, rfl⟩ := Option.map_eq_some_iff.mp step
        exact Function.update_of_ne ne ..
      · cases step
  | steal worker victim =>
      simp only [Pool.step] at step
      split at step
      · split at step
        · cases step
        · obtain ⟨⟨task, queues⟩, -, rfl⟩ := Option.map_eq_some_iff.mp step
          exact Function.update_of_ne ne ..
      · cases step

/-- A thread without a body takes no step of a body or of an await loop. -/
theorem idle_of_step {program : P → Action P} {state : StoppablePool P workers clients}
    {pool : Pool P workers clients} {label : PoolLabel workers clients}
    (calls : state.mayCall label = true) (step : state.pool.step program label = some pool)
    {thread : Thread workers clients} (idle : state.pool.stackOf thread = []) :
    pool.stackOf thread = [] := by
  by_cases own : thread = label.actor
  · subst own
    cases label with
    | act other observed | repark other | help other victim =>
        simp only [PoolLabel.actor] at idle
        simp [Pool.step, idle] at step
    | popOwn worker | steal worker victim => cases calls
  · rw [stackOf_of_step step own, idle]

/-! ## What holds in every run -/

/-- The queues that a worker at a position has found empty since its look at its own queue. -/
def Seen (worker : Fin workers.1) : LoopPosition → Fin workers.1 → Prop
  | .top, _ | .running, _ => False
  | .scanning start offset, queue =>
      queue = worker ∨ ∃ passed < offset, queue = Fin.ofNat workers.1 (start + passed)
  | .firstCheck, _ | .parked, _ | .secondCheck, _ | .exited, _ => True

/-- A scan of `num_workers` victims in a row meets every queue. -/
theorem exists_passed (start : Nat) {offset : Nat} (long : workers.1 ≤ offset)
    (queue : Fin workers.1) : ∃ passed < offset, queue = Fin.ofNat workers.1 (start + passed) := by
  have positive := workers.2
  refine ⟨(queue + (workers.1 - start % workers.1)) % workers.1,
    (Nat.mod_lt _ positive).trans_le long, Fin.ext ?_⟩
  have bound := Nat.mod_lt start positive
  calc
    queue.1 = queue.1 % workers.1 := (Nat.mod_eq_of_lt queue.2).symm
    _ = (start % workers.1 + (queue + (workers.1 - start % workers.1))) % workers.1 := by
      rw [show start % workers.1 + (queue + (workers.1 - start % workers.1)) =
        queue + workers.1 by omega, Nat.add_mod_right]
    _ = (start + (queue + (workers.1 - start % workers.1)) % workers.1) % workers.1 := by
      rw [Nat.add_mod_mod, Nat.mod_add_mod]

/-- How loops, flags, stacks and queues go together. -/
structure Sound (state : StoppablePool P workers clients) : Prop where
  /-- A worker outside `run_task_safely` has no body on its stack. -/
  idle : ∀ worker, state.loops worker ≠ .running → state.pool.stackOf (.inl worker) = []
  flagged : ∀ worker, state.loops worker = .exited → state.shutdownFlag = true
  hidden : state.shutdownFlag = true → state.published = false
  finished : state.joined = true → ∀ worker, state.loops worker = .exited
  flaggedAt_le : state.flaggedAt ≤ state.pool.submitted.length
  lookedAt_le : ∀ worker, state.lookedAt worker ≤ state.pool.submitted.length
  /-- What a queue holds that a worker found empty was submitted after the worker's look. -/
  scanned : ∀ worker queue, Seen worker (state.loops worker) queue →
    ∀ task ∈ state.pool.queues queue, task ∈ state.pool.submitted.drop (state.lookedAt worker)

theorem sound_boot (roots : Fin clients → P) : Sound (boot workers roots) where
  idle _ _ := rfl
  flagged _ exited := by cases exited
  hidden flag := by cases flag
  finished joined := by cases joined
  flaggedAt_le := Nat.zero_le _
  lookedAt_le _ := Nat.zero_le _
  scanned _ _ seen := seen.elim

/-- Later submissions do not turn a current scan into a wrong one. -/
theorem Sound.scanned_grows {state : StoppablePool P workers clients} (sound : Sound state)
    {pool : Pool P workers clients} (grows : Grows state.pool pool) {worker queue : Fin workers.1}
    (seen : Seen worker (state.loops worker) queue) {task : TaskId}
    (member : task ∈ pool.queues queue) : task ∈ pool.submitted.drop (state.lookedAt worker) := by
  obtain ⟨fresh, appended, gained⟩ := grows
  rw [appended, List.drop_append_of_le_length (sound.lookedAt_le worker), List.mem_append]
  exact (gained queue task member).imp_left (sound.scanned worker queue seen task)

theorem Grows.length_le {before after : Pool P workers clients} (grows : Grows before after) :
    before.submitted.length ≤ after.submitted.length := by
  obtain ⟨fresh, appended, -⟩ := grows
  simp [appended]

/-- A step of one worker's loop, given by what it establishes at the new position. -/
theorem Sound.turn {state after : StoppablePool P workers clients} (sound : Sound state)
    {worker : Fin workers.1} {position : LoopPosition}
    (inside : state.loops worker ≠ .exited)
    (loops : after.loops = Function.update state.loops worker position)
    (grows : Grows state.pool after.pool)
    (frame : ∀ thread, thread ≠ .inl worker → after.pool.stackOf thread = state.pool.stackOf thread)
    (looks : ∀ other, other ≠ worker → after.lookedAt other = state.lookedAt other)
    (published : after.published = state.published) (flag : after.shutdownFlag = state.shutdownFlag)
    (joined : after.joined = state.joined) (flaggedAt : after.flaggedAt = state.flaggedAt)
    (idle : position ≠ .running → after.pool.stackOf (.inl worker) = [])
    (exits : position = .exited → state.shutdownFlag = true)
    (looked : after.lookedAt worker ≤ after.pool.submitted.length)
    (scanned : ∀ queue, Seen worker position queue → ∀ task ∈ after.pool.queues queue,
      task ∈ after.pool.submitted.drop (after.lookedAt worker)) : Sound after := by
  have own : after.loops worker = position := by simp [loops]
  have rest : ∀ other, other ≠ worker → after.loops other = state.loops other := by
    intro other ne
    simp [loops, ne]
  refine ⟨fun other away => ?_, fun other exited => ?_, fun set => ?_, fun done => ?_, ?_,
    fun other => ?_, fun other queue seen task member => ?_⟩
  · by_cases same : other = worker
    · subst same
      exact idle (own ▸ away)
    · rw [frame _ (by simpa using same)]
      exact sound.idle other (rest other same ▸ away)
  · rw [flag]
    by_cases same : other = worker
    · subst same
      exact exits (own ▸ exited)
    · exact sound.flagged other (rest other same ▸ exited)
  · rw [published]
    exact sound.hidden (flag ▸ set)
  · exact absurd (sound.finished (joined ▸ done) worker) inside
  · exact flaggedAt ▸ sound.flaggedAt_le.trans grows.length_le
  · by_cases same : other = worker
    · exact same ▸ looked
    · exact looks other same ▸ (sound.lookedAt_le other).trans grows.length_le
  · by_cases same : other = worker
    · subst same
      exact scanned queue (own ▸ seen) task member
    · rw [looks other same]
      exact sound.scanned_grows grows (rest other same ▸ seen) member

/-- Testing the flag after a complete scan keeps what the scan found. -/
theorem Sound.test {state : StoppablePool P workers clients} (sound : Sound state)
    {worker : Fin workers.1} {position : LoopPosition} (inside : state.loops worker ≠ .exited)
    (away : state.loops worker ≠ .running)
    (all : ∀ queue, Seen worker (state.loops worker) queue)
    (stays : position ≠ .running ∧ position ≠ .exited) :
    Sound (state.testFlag worker position) := by
  refine sound.turn inside rfl (.refl _) (fun _ _ => rfl) (fun _ _ => rfl) rfl rfl rfl rfl
    (fun _ => sound.idle worker away) (fun exits => ?_) (sound.lookedAt_le worker)
    (fun queue _ => sound.scanned worker queue (all queue))
  by_contra unset
  simp [unset, stays] at exits

theorem Sound.lookOwn {program : P → Action P} {state after : StoppablePool P workers clients}
    {worker : Fin workers.1} {draw : Nat} (sound : Sound state)
    (step : state.step program (.lookOwn worker draw) = some after) : Sound after := by
  simp only [StoppablePool.step] at step
  split at step
  · rename_i atTop
    have inside : state.loops worker ≠ .exited := by simp [atTop]
    have idle := sound.idle worker (by simp [atTop])
    split at step
    · rename_i task queues popped
      cases step
      exact sound.turn inside rfl (grows_of_removes (popFront_removes popped) _)
        (fun _ ne => Function.update_of_ne ne ..) (fun _ ne => Function.update_of_ne ne ..)
        rfl rfl rfl rfl (by simp) (by simp) (by simp [moveTo, Pool.runTask])
        (fun _ seen => seen.elim)
    · rename_i empty
      cases step
      refine sound.turn inside rfl (.refl _) (fun _ _ => rfl)
        (fun _ ne => Function.update_of_ne ne ..) rfl rfl rfl rfl (fun _ => idle) (fun exits => ?_)
        (by simp [moveTo]) (fun queue seen task member => ?_)
      · split at exits <;> cases exits
      · -- Only the own queue counts as seen, also for the single worker of a pool of one.
        have own : queue = worker := by
          split at seen
          · rcases seen with own | ⟨passed, bound, -⟩
            · exact own
            · cases bound
          · exact Fin.ext (by omega)
        rw [own, moveTo, (popFront_eq_none_iff _ _).mp empty] at member
        cases member
  · cases step

theorem Sound.lookVictim {program : P → Action P} {state after : StoppablePool P workers clients}
    {worker : Fin workers.1} (sound : Sound state)
    (step : state.step program (.lookVictim worker) = some after) : Sound after := by
  simp only [StoppablePool.step] at step
  split at step
  · rename_i start offset position
    have inside : state.loops worker ≠ .exited := by simp [position]
    have idle := sound.idle worker (by simp [position])
    -- What a turn without a find has seen: the queues before, and the one just passed.
    have passes (clear : Fin.ofNat workers.1 (start + offset) ≠ worker →
        state.pool.queues (Fin.ofNat workers.1 (start + offset)) = []) :
        Sound (state.moveTo worker
          (if offset + 1 < workers.1 then .scanning start (offset + 1) else .firstCheck)) := by
      refine sound.turn inside rfl (.refl _) (fun _ _ => rfl) (fun _ _ => rfl) rfl rfl rfl rfl
        (fun _ => idle) (fun exits => ?_) (sound.lookedAt_le worker)
        (fun queue seen task member => ?_)
      · split at exits <;> cases exits
      · have wider : queue = worker ∨
            ∃ passed < offset + 1, queue = Fin.ofNat workers.1 (start + passed) := by
          split at seen
          · exact seen
          · exact .inr (exists_passed start (by omega) queue)
        refine sound.scanned worker queue ?_ task member
        rw [position]
        rcases wider with own | ⟨passed, bound, found⟩
        · exact .inl own
        · rcases Nat.lt_succ_iff_lt_or_eq.mp bound with before | last
          · exact .inr ⟨passed, before, found⟩
          · subst last
            refine .inl (Classical.byContradiction fun ne => ?_)
            rw [moveTo, found, clear (found ▸ ne)] at member
            cases member
    split at step
    · rename_i own
      cases step
      exact passes fun ne => absurd own ne
    · split at step
      · rename_i task queues popped
        cases step
        have grows := grows_of_removes (popBack_removes popped) (.inl worker)
        exact sound.turn inside rfl grows (fun _ ne => Function.update_of_ne ne ..) (fun _ _ => rfl)
          rfl rfl rfl rfl (by simp) (by simp) ((sound.lookedAt_le worker).trans grows.length_le)
          (fun _ seen => seen.elim)
      · rename_i empty
        cases step
        exact passes fun _ => (popBack_eq_none_iff _ _).mp empty
  · cases step

/-- Every step keeps the layout of loops, flags, stacks and queues. -/
theorem Sound.step {program : P → Action P} {state after : StoppablePool P workers clients}
    {label : StopLabel workers clients} (sound : Sound state)
    (step : state.step program label = some after) : Sound after := by
  cases label with
  | body label =>
      simp only [StoppablePool.step] at step
      split at step
      · rename_i calls
        obtain ⟨pool, moved, rfl⟩ := Option.map_eq_some_iff.mp step
        have grows := grows_of_step moved
        exact ⟨fun worker away => idle_of_step calls moved (sound.idle worker away), sound.flagged,
          sound.hidden, sound.finished, sound.flaggedAt_le.trans grows.length_le,
          fun worker => (sound.lookedAt_le worker).trans grows.length_le,
          fun worker queue seen task => sound.scanned_grows grows seen⟩
      · cases step
  | loadPool thread =>
      simp only [StoppablePool.step] at step
      split at step <;> cases step
      exact ⟨sound.idle, sound.flagged, sound.hidden, sound.finished, sound.flaggedAt_le,
        sound.lookedAt_le, sound.scanned⟩
  | lookOwn worker draw => exact sound.lookOwn step
  | lookVictim worker => exact sound.lookVictim step
  | nextTurn worker =>
      simp only [StoppablePool.step] at step
      split at step <;> cases step
      rename_i gone
      exact sound.turn (by simp [gone.1]) rfl (.refl _) (fun _ _ => rfl) (fun _ _ => rfl) rfl rfl
        rfl rfl (fun _ => List.isEmpty_iff.mp gone.2) (by simp) (sound.lookedAt_le worker)
        (fun _ seen => seen.elim)
  | firstCheck worker =>
      simp only [StoppablePool.step] at step
      split at step <;> cases step
      rename_i position
      exact sound.test (by simp [position]) (by simp [position])
        (fun _ => by simp [position, Seen]) (by simp)
  | wake worker =>
      simp only [StoppablePool.step] at step
      split at step <;> cases step
      rename_i position
      exact sound.turn (by simp [position]) rfl (.refl _) (fun _ _ => rfl) (fun _ _ => rfl) rfl rfl
        rfl rfl (fun _ => sound.idle worker (by simp [position])) (by simp)
        (sound.lookedAt_le worker)
        (fun queue _ => sound.scanned worker queue (by simp [position, Seen]))
  | secondCheck worker =>
      simp only [StoppablePool.step] at step
      split at step <;> cases step
      rename_i position
      exact sound.test (by simp [position]) (by simp [position])
        (fun _ => by simp [position, Seen]) (by simp)
  | unpublish =>
      simp only [StoppablePool.step] at step
      split at step <;> cases step
      exact ⟨sound.idle, sound.flagged, fun _ => rfl, sound.finished, sound.flaggedAt_le,
        sound.lookedAt_le, sound.scanned⟩
  | setFlag =>
      simp only [StoppablePool.step] at step
      split at step <;> cases step
      rename_i allowed
      exact ⟨sound.idle, fun _ _ => rfl, fun _ => by simp_all, sound.finished, le_rfl,
        sound.lookedAt_le, sound.scanned⟩
  | join =>
      simp only [StoppablePool.step] at step
      split at step <;> cases step
      rename_i gone
      exact ⟨sound.idle, sound.flagged, sound.hidden, fun _ => gone.2, sound.flaggedAt_le,
        sound.lookedAt_le, sound.scanned⟩

/-- Loops, flags, stacks and queues go together in every run. -/
theorem sound_of_reachable {program : P → Action P}
    {guard : StoppablePool P workers clients → StopLabel workers clients → Prop}
    {state : StoppablePool P workers clients}
    (reach : (machine program workers clients).Reachable guard state) : Sound state := by
  refine reach.invariant ?_ fun before label after _ sound _ step => sound.step step
  rintro _ ⟨roots, rfl⟩
  exact sound_boot roots

/-- Forgetting loop positions and flags leaves a run of the pool. -/
def forgetLoops (program : P → Action P) (workers : WorkerCount) (clients : Nat) :
    Transition.Simulation (machine program workers clients)
      (Pool.machine program workers clients) where
  view := pool
  initial := by
    rintro _ ⟨roots, rfl⟩
    exact ⟨roots, rfl⟩
  step state label after reach step := by
    have sound := sound_of_reachable reach
    change state.step program label = some after at step
    cases label with
    | body label =>
        simp only [StoppablePool.step] at step
        split at step
        · obtain ⟨pool, moved, rfl⟩ := Option.map_eq_some_iff.mp step
          exact .inr ⟨label, moved⟩
        · cases step
    | lookOwn worker draw =>
        simp only [StoppablePool.step] at step
        split at step
        · rename_i atTop
          split at step <;> cases step
          · rename_i task queues popped
            refine .inr ⟨.popOwn worker, ?_⟩
            simp [Pool.machine, Pool.step, sound.idle worker (by simp [atTop]), popped]
          · exact .inl rfl
        · cases step
    | lookVictim worker =>
        simp only [StoppablePool.step] at step
        split at step
        · rename_i start offset position
          split at step
          · cases step
            exact .inl rfl
          · rename_i other
            split at step <;> cases step
            · rename_i task queues popped
              refine .inr ⟨.steal worker (Fin.ofNat workers.1 (start + offset)), ?_⟩
              simp only [Pool.machine, Pool.step, sound.idle worker (by simp [position]),
                if_neg other, popped]
              rfl
            · exact .inl rfl
        · cases step
    | loadPool | nextTurn | firstCheck | wake | secondCheck | unpublish | setFlag | join =>
        simp only [StoppablePool.step] at step
        split at step <;> cases step
        exact .inl rfl

/-- The conservation laws hold while the pool is being stopped. -/
theorem conserved_of_reachable {program : P → Action P}
    {guard : StoppablePool P workers clients → StopLabel workers clients → Prop}
    {state : StoppablePool P workers clients}
    (reach : (machine program workers clients).Reachable guard state) : state.pool.Conserved :=
  Pool.Reachable.conserved ((forgetLoops program workers clients).reachable reach)

/-! ## Tasks submitted before the flag -/

/-- Once every worker has left its loop no early task is queued. -/
def Settled (state : StoppablePool P workers clients) : Prop :=
  (∀ worker, state.loops worker = .exited) →
    ∀ task ∈ state.early, ∀ queue, task ∉ state.pool.queues queue

theorem Sound.early_grows {state : StoppablePool P workers clients} (sound : Sound state)
    {pool : Pool P workers clients} (grows : Grows state.pool pool) :
    pool.submitted.take state.flaggedAt = state.early := by
  obtain ⟨fresh, appended, -⟩ := grows
  rw [early, appended, List.take_append_of_le_length sound.flaggedAt_le]

/-- A task is submitted once, so a task appended to the submissions is not an early one. -/
theorem late_of_fresh {pool : Pool P workers clients} (conserved : pool.Conserved)
    {old fresh : List TaskId} (appended : pool.submitted = old ++ fresh) {task : TaskId}
    (member : task ∈ old) : task ∉ fresh := by
  intro again
  have law := conserved.submissions task
  have bound : Pool.spawnedCount pool.tasks task ≤ 1 := by
    unfold Pool.spawnedCount
    split <;> omega
  rw [appended, List.count_append] at law
  have before := List.count_pos_iff.mpr member
  have after := List.count_pos_iff.mpr again
  omega

/-- A step by which the last worker leaves its loop settles the pool when its scan is current. -/
theorem Sound.leave {state : StoppablePool P workers clients} (sound : Sound state)
    {worker : Fin workers.1} {position : LoopPosition} {label : StopLabel workers clients}
    (guarded : LastLeavesCurrent state label)
    (breaks : state.shutdownFlag = true → Breaks state worker label) (stays : position ≠ .exited)
    (all : ∀ queue, Seen worker (state.loops worker) queue) :
    Settled (state.testFlag worker position) := by
  intro gone task isEarly queue member
  have set : state.shutdownFlag = true := by
    by_contra unset
    have left := gone worker
    simp only [testFlag, moveTo, Function.update_self, unset] at left
    exact stays (by simpa using left)
  have others : ∀ other, other ≠ worker → state.loops other = .exited := by
    intro other ne
    simpa [testFlag, moveTo, ne] using gone other
  exact guarded worker (breaks set) others task isEarly
    (sound.scanned worker queue (all queue) task member) queue member

theorem Settled.step {program : P → Action P} {state after : StoppablePool P workers clients}
    {label : StopLabel workers clients} (settled : Settled state) (sound : Sound state)
    (conserved : after.pool.Conserved) (guarded : LastLeavesCurrent state label)
    (step : state.step program label = some after) : Settled after := by
  cases label with
  | body label =>
      simp only [StoppablePool.step] at step
      split at step
      · obtain ⟨pool, moved, rfl⟩ := Option.map_eq_some_iff.mp step
        intro gone task isEarly queue member
        have grows := grows_of_step moved
        rw [early, sound.early_grows grows] at isEarly
        obtain ⟨fresh, appended, gained⟩ := grows
        rcases gained queue task member with old | late
        · exact settled gone task isEarly queue old
        · exact late_of_fresh conserved appended (List.mem_of_mem_take isEarly) late
      · cases step
  | lookOwn worker draw =>
      simp only [StoppablePool.step] at step
      intro gone
      have left := gone worker
      split at step
      · split at step
        · cases step
          simp [moveTo] at left
        · cases step
          simp only [moveTo, Function.update_self] at left
          split at left <;> cases left
      · cases step
  | lookVictim worker =>
      simp only [StoppablePool.step] at step
      intro gone
      have left := gone worker
      split at step
      · split at step
        · cases step
          simp only [moveTo, Function.update_self] at left
          split at left <;> cases left
        · split at step
          · cases step
            simp [moveTo] at left
          · cases step
            simp only [moveTo, Function.update_self] at left
            split at left <;> cases left
      · cases step
  | nextTurn worker | wake worker =>
      simp only [StoppablePool.step] at step
      intro gone
      have left := gone worker
      split at step <;> cases step
      simp [moveTo] at left
  | firstCheck worker | secondCheck worker =>
      simp only [StoppablePool.step] at step
      split at step <;> cases step
      rename_i position
      exact sound.leave guarded (fun set => ⟨rfl, set⟩) (by simp)
        (fun _ => by simp [position, Seen])
  | setFlag =>
      simp only [StoppablePool.step] at step
      split at step <;> cases step
      rename_i allowed
      intro gone
      exact absurd (sound.flagged ⟨0, workers.2⟩ (gone _)) (by simp_all)
  | loadPool | unpublish | join =>
      simp only [StoppablePool.step] at step
      split at step <;> cases step
      exact settled

/-- In runs in which the last worker to leave never leaves on an overtaken scan, no early task is
queued once all workers have left. -/
theorem settled_of_reachable {program : P → Action P} {state : StoppablePool P workers clients}
    (reach : (machine program workers clients).Reachable LastLeavesCurrent state) :
    Settled state := by
  refine reach.invariant ?_ ?_
  · rintro _ ⟨roots, rfl⟩ gone
    exact absurd (gone ⟨0, workers.2⟩) (by simp [boot])
  · intro before label after reached settled guarded step
    have next := Transition.Machine.Reachable.next reached guarded step
    exact settled.step (sound_of_reachable reached) (conserved_of_reachable next) guarded step

/-- A task left in a queue that no thread will look at again. -/
structure Stranded (task : TaskId) (state : StoppablePool P workers clients) : Prop where
  exited : ∀ worker, state.loops worker = .exited
  hidden : state.published = false
  unloaded : ∀ thread, state.snapshot thread = false
  queued : ∃ queue, task ∈ state.pool.queues queue

theorem act_queues {program : P → Action P} {pool after : Pool P workers clients}
    {thread : Thread workers clients} {observed : Nat} {top : Frame P} {rest : List (Frame P)}
    (step : pool.act program thread observed top rest = some after) {queue : Fin workers.1}
    {task : TaskId} (member : task ∈ pool.queues queue) : task ∈ after.queues queue := by
  unfold Pool.act at step
  split at step
  · obtain ⟨own, -, step⟩ := Option.bind_eq_some_iff.mp step
    obtain ⟨record, -, rfl⟩ := Option.map_eq_some_iff.mp step
    exact member
  · split at step
    · cases step; exact member
    · cases step; exact member
    · cases step; exact member
    · cases step; exact member
    · split at step <;> cases step <;> exact member
  · obtain ⟨record, -, rfl⟩ := Option.map_eq_some_iff.mp step
    exact mem_pushTask_of_mem member
  · split at step <;> cases step
    exact member
  · cases step
    exact member

/-- Nothing takes a stranded task out of its queue. -/
theorem Stranded.step {program : P → Action P} {state after : StoppablePool P workers clients}
    {task : TaskId} {label : StopLabel workers clients} (stranded : Stranded task state)
    (step : state.step program label = some after) : Stranded task after := by
  obtain ⟨exited, hidden, unloaded, queue, member⟩ := stranded
  cases label with
  | body label =>
      simp only [StoppablePool.step] at step
      split at step
      · rename_i calls
        obtain ⟨pool, moved, rfl⟩ := Option.map_eq_some_iff.mp step
        cases label with
        | act thread observed =>
            simp only [Pool.step] at moved
            split at moved
            · cases moved
            · refine ⟨exited, hidden, fun other => ?_, queue, act_queues moved member⟩
              by_cases same : other = thread
              · simp [PoolLabel.actor, same]
              · simp [PoolLabel.actor, same, unloaded other]
        | repark thread | help thread victim => simp [mayCall, unloaded thread] at calls
        | popOwn worker | steal worker victim => cases calls
      · cases step
  | loadPool thread =>
      simp only [StoppablePool.step] at step
      split at step <;> cases step
      refine ⟨exited, hidden, fun other => ?_, queue, member⟩
      by_cases same : other = thread
      · simp [same, hidden]
      · simp [same, unloaded other]
  | lookOwn worker | lookVictim worker | nextTurn worker | firstCheck worker | wake worker
  | secondCheck worker => simp [StoppablePool.step, exited worker] at step
  | unpublish | setFlag | join =>
      simp only [StoppablePool.step] at step
      split at step <;> cases step
      exact ⟨exited, by first | exact hidden | rfl, unloaded, queue, member⟩

/-- A stranded task stays undone in every continuation. -/
theorem Stranded.undone {program : P → Action P} {state after : StoppablePool P workers clients}
    {task : TaskId} (stranded : Stranded task state)
    (reach : (machine program workers clients).Reachable Transition.Machine.anyStep state)
    (labels : List (StopLabel workers clients))
    (run : (machine program workers clients).exec state labels = some after) :
    after.pool.isDone task = false := by
  induction labels generalizing state with
  | nil =>
      obtain rfl : state = after := by simpa [Transition.Machine.exec] using run
      obtain ⟨queue, member⟩ := stranded.queued
      obtain ⟨slot, found⟩ := List.mem_iff_getElem?.mp member
      by_contra done
      have flag : state.pool.isDone task = true := by simpa using done
      have same := (conserved_of_reachable reach).place_unique (.queued queue slot) .done found flag
      cases same
  | cons label labels ih =>
      obtain ⟨next, step, rest⟩ := Option.bind_eq_some_iff.mp run
      exact ih (stranded.step step) (.next reach trivial step) rest

end StoppablePool
end Runtime
end TopoLlvm
