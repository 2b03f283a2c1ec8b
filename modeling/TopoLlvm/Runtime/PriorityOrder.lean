import TopoLlvm.Runtime.WorkQueue
import Mathlib.Data.List.Pairwise

/-!
# The order in which a worker takes its tasks

Submissions put urgent tasks in front and the others behind, and the owner takes from the front.
The queue is in the order of the priorities as long as no submission puts a task on the wrong side of
one that waits; a task on the wrong side is found out when the queue is emptied.
-/

namespace TopoLlvm
namespace Runtime

/-- What happens to the queue of a worker without thieves. -/
inductive QueueEvent where
  | submit (task : TaskId)
  | pop
  deriving DecidableEq

section Priorities

variable {workers : WorkerCount} (priority : TaskId → Int) (worker : Fin workers.1)

namespace QueueEvent

/-- The owner goes on without a task where its queue is empty. -/
def step (queues : Queues workers) : QueueEvent → Queues workers
  | submit task => pushTask queues worker (priority task) task
  | pop => (popFront queues worker).elim queues Prod.snd

end QueueEvent

def runEvents (queues : Queues workers) (events : List QueueEvent) : Queues workers :=
  events.foldl (QueueEvent.step priority worker) queues

/-- A task is taken that is as urgent as all that wait; the lower number is the more urgent. -/
def TakesUrgent (queues : Queues workers) : QueueEvent → Prop
  | .submit _ => True
  | .pop => ∀ task rest, popFront queues worker = some (task, rest) →
      ∀ waiting ∈ queues worker, priority task ≤ priority waiting

/-- A task is submitted to the side where it belongs: in front of all that wait where it is
critical or high, and behind all of them otherwise. -/
def GoesToItsSide (queues : Queues workers) : QueueEvent → Prop
  | .submit task => ∀ waiting ∈ queues worker,
      if priority task < 2 then priority task ≤ priority waiting
      else priority waiting ≤ priority task
  | .pop => True

/-- Something holds of every event of a run, in the state before it. -/
def Throughout (holds : Queues workers → QueueEvent → Prop) (queues : Queues workers)
    (events : List QueueEvent) : Prop :=
  ∀ before event after, events = before ++ event :: after →
    holds (runEvents priority worker queues before) event

/-- The tasks wait in the order of their priorities. -/
def InOrder (queues : Queues workers) : Prop :=
  (queues worker).Pairwise fun first second => priority first ≤ priority second

variable {priority worker} {queues : Queues workers} {event : QueueEvent}
  {events : List QueueEvent}

theorem throughout_cons {holds : Queues workers → QueueEvent → Prop} :
    Throughout priority worker holds queues (event :: events) ↔
      holds queues event ∧
        Throughout priority worker holds (event.step priority worker queues) events := by
  constructor
  · intro throughout
    refine ⟨throughout [] event events rfl, fun before next after same => ?_⟩
    exact throughout (event :: before) next after (by rw [same, List.cons_append])
  · rintro ⟨first, rest⟩ before next after same
    cases before with
    | nil =>
        obtain ⟨rfl, rfl⟩ := List.cons.inj same
        exact first
    | cons head before =>
        obtain ⟨rfl, later⟩ := List.cons.inj same
        exact rest before next after later

theorem throughout_nil {holds : Queues workers → QueueEvent → Prop} :
    Throughout priority worker holds queues [] :=
  fun before event after same => absurd same (by simp)

/-- A submission keeps the order exactly when the task goes to its side. -/
theorem inOrder_submit_iff {task : TaskId} :
    InOrder priority worker (pushTask queues worker (priority task) task) ↔
      InOrder priority worker queues ∧ GoesToItsSide priority worker queues (.submit task) := by
  unfold InOrder pushTask GoesToItsSide
  by_cases urgent : priority task < 2
  · simp only [urgent, if_true, Function.update_self, List.pairwise_cons]
    exact and_comm
  · simp only [urgent, if_false, Function.update_self, List.pairwise_append, List.mem_singleton,
      forall_eq, List.pairwise_singleton, true_and]

/-- The first of a queue in order is taken, and the rest is in order. -/
theorem InOrder.pop (inOrder : InOrder priority worker queues) :
    TakesUrgent priority worker queues .pop ∧
      InOrder priority worker (QueueEvent.pop.step priority worker queues) := by
  unfold InOrder TakesUrgent QueueEvent.step popFront at *
  cases content : queues worker with
  | nil => simp [content]
  | cons task rest =>
      rw [content, List.pairwise_cons] at inOrder
      simp [inOrder.2]
      exact inOrder.1

/-- What is out of order behind the first stays so when an urgent first is taken. -/
theorem inOrder_of_pop (urgent : TakesUrgent priority worker queues .pop)
    (inOrder : InOrder priority worker (QueueEvent.pop.step priority worker queues)) :
    InOrder priority worker queues := by
  unfold InOrder TakesUrgent QueueEvent.step popFront at *
  cases content : queues worker with
  | nil => simp
  | cons task rest =>
      simp [content] at urgent inOrder
      exact List.pairwise_cons.mpr ⟨urgent, inOrder⟩

/-- A queue in order stays so while every task goes to its side, and then the urgent are taken. -/
theorem InOrder.run (inOrder : InOrder priority worker queues)
    (sides : Throughout priority worker (GoesToItsSide priority worker) queues events) :
    Throughout priority worker (TakesUrgent priority worker) queues events := by
  induction events generalizing queues with
  | nil => exact throughout_nil
  | cons event events ih =>
      rw [throughout_cons] at sides ⊢
      cases event with
      | submit task => exact ⟨trivial, ih (inOrder_submit_iff.mpr ⟨inOrder, sides.1⟩) sides.2⟩
      | pop => exact ⟨inOrder.pop.1, ih inOrder.pop.2 sides.2⟩

/-- A run that takes the urgent and ends in order was in order all the time. -/
theorem inOrder_of_run
    (urgent : Throughout priority worker (TakesUrgent priority worker) queues events)
    (ended : InOrder priority worker (runEvents priority worker queues events)) :
    InOrder priority worker queues ∧
      Throughout priority worker (GoesToItsSide priority worker) queues events := by
  induction events generalizing queues with
  | nil => exact ⟨ended, throughout_nil⟩
  | cons event events ih =>
      rw [throughout_cons] at urgent ⊢
      obtain ⟨later, sides⟩ := ih urgent.2 ended
      cases event with
      | submit task =>
          obtain ⟨inOrder, side⟩ := inOrder_submit_iff.mp later
          exact ⟨inOrder, side, sides⟩
      | pop => exact ⟨inOrder_of_pop urgent.1 later, trivial, sides⟩

/-- Without thieves the owner takes an urgent task each time if every task was submitted to its
side, and only then where the queue is emptied in the end. -/
theorem takes_urgent_iff (events : List QueueEvent) :
    let start : Queues workers := fun _ => []
    (Throughout priority worker (GoesToItsSide priority worker) start events →
        Throughout priority worker (TakesUrgent priority worker) start events) ∧
      (runEvents priority worker start events worker = [] →
        (Throughout priority worker (TakesUrgent priority worker) start events ↔
          Throughout priority worker (GoesToItsSide priority worker) start events)) := by
  intro start
  have inOrder : InOrder priority worker start := List.Pairwise.nil
  refine ⟨inOrder.run, fun emptied => ⟨fun urgent => ?_, inOrder.run⟩⟩
  have ended : InOrder priority worker (runEvents priority worker start events) := by
    unfold InOrder
    rw [emptied]
    exact List.Pairwise.nil
  exact (inOrder_of_run urgent ended).2

end Priorities

/-! ## A task in the background -/

/-- A pool of one worker. -/
def oneWorker : WorkerCount := ⟨1, Nat.one_pos⟩

/-- Task 0 runs in the background, the others are normal. -/
def backgroundFirst (task : TaskId) : Int := if task = 0 then 4 else 2

/-- Submitted first, the task in the background is taken first. -/
theorem background_taken_first :
    ¬Throughout backgroundFirst (0 : Fin oneWorker.1) (TakesUrgent backgroundFirst 0) (fun _ => [])
      [.submit 0, .submit 1, .pop] := by
  intro throughout
  have urgent := throughout [.submit 0, .submit 1] .pop [] rfl 0
  have late : (4 : Int) ≤ 2 := urgent _ rfl 1 (by decide)
  omega

end Runtime
end TopoLlvm
