import TopoLlvm.Runtime.CostSamples
import Mathlib.Algebra.Ring.Nat
import Mathlib.Data.List.Perm.Basic
import Mathlib.Data.List.Flatten

/-!
# The averages of bracketed measurements

Threads enter and leave named regions, one region inside the other on each thread.  What
`get_cost_samples` returns for a name depends on the measurements that were completed, and not on
the threads that made them or on the order in which the threads were registered.
-/

namespace TopoLlvm
namespace Runtime

/-- What a thread does with a region, by its clock. -/
inductive CostEvent where
  | begins (name : Name) (now : Nat)
  | ends (name : Name) (now : Nat)
  deriving DecidableEq

/-- A region that was entered and left. -/
structure Measurement where
  name : Name
  started : Nat
  ended : Nat
  deriving DecidableEq

def Measurement.durationNS (measurement : Measurement) : Nat :=
  measurement.ended - measurement.started

/-- Events that close what they open, with the measurements in the order of their ends. -/
inductive Bracketed : List CostEvent → List Measurement → Prop where
  | nil : Bracketed [] []
  | region {inner rest : List CostEvent} {within after : List Measurement} {name : Name}
      {started ended : Nat} (forward : started ≤ ended) :
      Bracketed inner within → Bracketed rest after →
        Bracketed (.begins name started :: inner ++ .ends name ended :: rest)
          (within ++ { name, started, ended } :: after)

/-- The events of a thread that is still in some regions, the newest first. -/
inductive WellBracketed : List CostEvent → List Measurement → List PendingBegin → Prop where
  | closed {events : List CostEvent} {measured : List Measurement} :
      Bracketed events measured → WellBracketed events measured []
  | within {before inner : List CostEvent} {measured later : List Measurement}
      {pending : List PendingBegin} {name : Name} {started : Nat} :
      WellBracketed before measured pending → Bracketed inner later →
        WellBracketed (before ++ .begins name started :: inner) (measured ++ later)
          ({ name, tp := started } :: pending)

/-! ## One thread -/

namespace ThreadCosts

/-- `topo_parallel_cost_begin_impl` and `topo_parallel_cost_end_impl` with instrumentation on. -/
def costStep (costs : ThreadCosts Unit) : CostEvent → ThreadCosts Unit
  | .begins name now => costs.costBegin true name now
  | .ends name now => costs.costEnd true name now ()

/-- A measurement enters the sample of its name. -/
def addMeasurement (samples : SampleMap Unit) (measurement : Measurement) : SampleMap Unit :=
  samples.insert measurement.name
    (((samples.lookup measurement.name).getD .zero).record
      (UInt64.ofNat measurement.durationNS) ())

/-- What a thread knows after some measurements. -/
def ledger (pending : List PendingBegin) (measured : List Measurement) : ThreadCosts Unit where
  pending := pending
  samples := measured.foldl addMeasurement ∅

/-- An end closes the newest region when that has its name. -/
theorem costStep_ends (name : Name) (started ended : Nat) (pending : List PendingBegin)
    (samples : SampleMap Unit) :
    costStep ⟨⟨name, started⟩ :: pending, samples⟩ (.ends name ended) =
      ⟨pending, addMeasurement samples ⟨name, started, ended⟩⟩ := by
  simp [costStep, costEnd, addMeasurement, Measurement.durationNS]

/-- Bracketed events leave the open regions alone and record their own. -/
theorem foldl_costStep_bracketed {events : List CostEvent} {measured : List Measurement}
    (bracketed : Bracketed events measured) (costs : ThreadCosts Unit) :
    events.foldl costStep costs =
      ⟨costs.pending, measured.foldl addMeasurement costs.samples⟩ := by
  induction bracketed generalizing costs with
  | nil => rfl
  | @region inner rest within after name started ended forward _ _ innerRun restRun =>
      have opened : costStep costs (.begins name started) =
          ⟨⟨name, started⟩ :: costs.pending, costs.samples⟩ := rfl
      rw [List.cons_append, List.foldl_cons, opened, List.foldl_append, innerRun, List.foldl_cons,
        costStep_ends, restRun, List.foldl_append, List.foldl_cons]

/-- A thread has recorded each completed region with its own begin. -/
theorem foldl_costStep_fresh {events : List CostEvent} {measured : List Measurement}
    {pending : List PendingBegin} (bracketed : WellBracketed events measured pending) :
    events.foldl costStep fresh = ledger pending measured := by
  induction bracketed with
  | closed bracketed => rw [foldl_costStep_bracketed bracketed]; rfl
  | @within before inner measured later pending name started _ bracketed ih =>
      rw [List.foldl_append, List.foldl_cons, ih, foldl_costStep_bracketed bracketed]
      simp [ledger, costStep, costBegin, List.foldl_append]

end ThreadCosts

/-! ## Totals of a name -/

/-- The durations of the measurements of a name. -/
def durationsOf (name : Name) (measured : List Measurement) : List Nat :=
  (measured.filter (·.name = name)).map (·.durationNS)

@[simp]
theorem durationsOf_append (name : Name) (measured later : List Measurement) :
    durationsOf name (measured ++ later) = durationsOf name measured ++ durationsOf name later := by
  simp [durationsOf]

theorem durationsOf_single (name : Name) (measurement : Measurement) :
    durationsOf name [measurement] =
      if measurement.name = name then [measurement.durationNS] else [] := by
  by_cases same : measurement.name = name <;> simp [durationsOf, same]

/-- A sample, if there is one, holds the 64-bit total and count of some durations. -/
structure Totals (sample : Option (CostSample Unit)) (durations : List Nat) : Prop where
  total : (sample.map (·.totalNS)).getD 0 = UInt64.ofNat durations.sum
  count : (sample.map (·.count)).getD 0 = UInt64.ofNat durations.length

theorem totals_none : Totals none [] := ⟨rfl, rfl⟩

theorem Totals.getD {sample : Option (CostSample Unit)} {durations : List Nat}
    (totals : Totals sample durations) :
    (sample.getD .zero).totalNS = UInt64.ofNat durations.sum ∧
      (sample.getD .zero).count = UInt64.ofNat durations.length := by
  obtain ⟨total, count⟩ := totals
  cases sample with
  | none => exact ⟨total, count⟩
  | some sample => exact ⟨total, count⟩

theorem Totals.record {sample : Option (CostSample Unit)} {durations : List Nat}
    (totals : Totals sample durations) (duration : Nat) :
    Totals (some ((sample.getD .zero).record (UInt64.ofNat duration) ()))
      (durations ++ [duration]) := by
  obtain ⟨total, count⟩ := totals.getD
  refine ⟨?_, ?_⟩
  · simp [CostSample.record, total, UInt64.ofNat_add]
  · simp [CostSample.record, count, UInt64.ofNat_add]

theorem Totals.merge {sample : Option (CostSample Unit)} {other : CostSample Unit}
    {durations others : List Nat} (totals : Totals sample durations)
    (merged : Totals (some other) others) :
    Totals (some ((sample.getD .zero).merge other)) (durations ++ others) := by
  obtain ⟨total, count⟩ := totals.getD
  obtain ⟨otherTotal, otherCount⟩ := merged.getD
  simp only [Option.getD_some] at otherTotal otherCount
  refine ⟨?_, ?_⟩
  · simp [CostSample.merge, total, otherTotal, UInt64.ofNat_add]
  · simp [CostSample.merge, count, otherCount, UInt64.ofNat_add]

/-- The table of a thread holds the totals of its measurements. -/
theorem totals_ledger (name : Name) (measured : List Measurement) :
    Totals ((measured.foldl ThreadCosts.addMeasurement ∅).lookup name)
      (durationsOf name measured) := by
  induction measured using List.reverseRecOn with
  | nil => exact totals_none
  | append_singleton measured measurement ih =>
      rw [List.foldl_append, List.foldl_cons, List.foldl_nil, durationsOf_append,
        durationsOf_single, ThreadCosts.addMeasurement]
      by_cases same : measurement.name = name
      · subst same
        rw [AList.lookup_insert, if_pos rfl]
        exact ih.record _
      · rw [AList.lookup_insert_ne (Ne.symm same), if_neg same, List.append_nil]
        exact ih

/-! ## All threads -/

/-- A thread's sample of a name is added to what the threads before it have. -/
def mergeSample (accumulated : Option (CostSample Unit)) :
    Option (CostSample Unit) → Option (CostSample Unit)
  | none => accumulated
  | some sample =>
      if 0 < sample.count then some ((accumulated.getD .zero).merge sample) else accumulated

theorem mergeSample_some (accumulated : Option (CostSample Unit)) (sample : CostSample Unit) :
    mergeSample accumulated (some sample) =
      if 0 < sample.count then some ((accumulated.getD .zero).merge sample) else accumulated := rfl

/-- The inner loop of `get_cost_samples`. -/
def mergeEntry (accumulated : SampleMap Unit) (entry : Sigma fun _ : Name => CostSample Unit) :
    SampleMap Unit :=
  if 0 < entry.2.count then
    accumulated.insert entry.1 (((accumulated.lookup entry.1).getD .zero).merge entry.2)
  else accumulated

theorem lookup_mergeEntry (accumulated : SampleMap Unit)
    (entry : Sigma fun _ : Name => CostSample Unit) (name : Name) :
    (mergeEntry accumulated entry).lookup name =
      if entry.1 = name then mergeSample (accumulated.lookup name) (some entry.2)
      else accumulated.lookup name := by
  rw [mergeSample_some, mergeEntry]
  by_cases counted : 0 < entry.2.count
  · by_cases same : entry.1 = name
    · subst same
      simp only [counted, if_true, AList.lookup_insert]
    · simp only [counted, if_true, same, if_false, AList.lookup_insert_ne (Ne.symm same)]
  · simp only [counted, if_false, ite_self]

/-- A map has at most one sample of a name. -/
theorem lookup_foldl_mergeEntry (entries : List (Sigma fun _ : Name => CostSample Unit))
    (nodup : entries.NodupKeys) (accumulated : SampleMap Unit) (name : Name) :
    (entries.foldl mergeEntry accumulated).lookup name =
      mergeSample (accumulated.lookup name) (entries.dlookup name) := by
  induction entries generalizing accumulated with
  | nil => rfl
  | cons entry entries ih =>
      obtain ⟨fresh, nodup⟩ := List.nodupKeys_cons.mp nodup
      rw [List.foldl_cons, ih nodup, lookup_mergeEntry]
      by_cases same : entry.1 = name
      · subst same
        rw [if_pos rfl, List.dlookup_eq_none.mpr fresh, List.dlookup_cons_eq]
        rfl
      · rw [if_neg same, List.dlookup_cons_ne _ _ (Ne.symm same)]

/-- The accumulator of a name goes through the threads once. -/
theorem lookup_accumulate (maps : List (SampleMap Unit)) (name : Name) :
    (accumulate maps).lookup name =
      (maps.map (·.lookup name)).foldl mergeSample none := by
  suffices ∀ accumulated : SampleMap Unit,
      (maps.foldl (fun accumulated map => map.entries.foldl mergeEntry accumulated)
        accumulated).lookup name =
        (maps.map (·.lookup name)).foldl mergeSample (accumulated.lookup name) from this ∅
  induction maps with
  | nil => intro accumulated; rfl
  | cons map maps ih =>
      intro accumulated
      rw [List.foldl_cons, ih, lookup_foldl_mergeEntry _ map.nodupKeys, List.map_cons,
        List.foldl_cons]
      rfl

/-- The average of a sample that has counted something. -/
def averageOf (sample : CostSample Unit) : Option UInt64 :=
  if 0 < sample.count then some (sample.totalNS / sample.count) else none

/-- A name has one average at most. -/
theorem lookup_filterMap_averageOf (entries : List (Sigma fun _ : Name => CostSample Unit))
    (nodup : entries.NodupKeys) (name : Name) :
    (entries.filterMap fun entry => (averageOf entry.2).map (entry.1, ·)).lookup name =
      (entries.dlookup name).bind averageOf := by
  induction entries with
  | nil => rfl
  | cons entry entries ih =>
      obtain ⟨fresh, nodup⟩ := List.nodupKeys_cons.mp nodup
      rw [List.filterMap_cons]
      by_cases same : entry.1 = name
      · subst same
        rw [List.dlookup_cons_eq, Option.bind_some]
        cases average : averageOf entry.2 with
        | none =>
            rw [Option.map_none, ih nodup, List.dlookup_eq_none.mpr fresh]
            rfl
        | some average => rw [Option.map_some, List.lookup_cons_self]
      · rw [List.dlookup_cons_ne _ _ (Ne.symm same), ← ih nodup]
        cases average : averageOf entry.2 with
        | none => rfl
        | some average =>
            rw [Option.map_some, List.lookup_cons, beq_false_of_ne (Ne.symm same)]

/-- The averages are taken of the accumulated totals, each once. -/
theorem lookup_getCostSamples (maps : List (SampleMap Unit)) (name : Name) :
    (getCostSamples maps).lookup name =
      ((maps.map (·.lookup name)).foldl mergeSample none).bind averageOf := by
  rw [← lookup_accumulate, AList.lookup, ← lookup_filterMap_averageOf _ (AList.nodupKeys _)]
  refine congrArg (List.lookup name) (List.filterMap_congr fun entry _ => ?_)
  unfold averageOf
  split <;> rfl

/-- Below the width of the counter, totals add up over the threads. -/
theorem Totals.mergeSample {sample other : Option (CostSample Unit)} {durations others : List Nat}
    (totals : Totals sample durations) (merged : Totals other others)
    (bounded : others.length < 2 ^ 64) :
    Totals (mergeSample sample other) (durations ++ others) := by
  have nothing : (other.map (·.count)).getD 0 = 0 → others = [] := by
    intro zero
    have length := congrArg UInt64.toNat (merged.count.symm.trans zero)
    rw [UInt64.toNat_ofNat', Nat.mod_eq_of_lt bounded] at length
    exact List.eq_nil_of_length_eq_zero length
  cases other with
  | none =>
      rw [nothing rfl, List.append_nil]
      exact totals
  | some other =>
      rw [mergeSample_some]
      split
      · exact totals.merge merged
      · rename_i uncounted
        have zero : other.count = 0 := by
          rw [UInt64.lt_iff_toNat_lt, UInt64.toNat_zero, not_lt, Nat.le_zero] at uncounted
          exact UInt64.toNat_inj.mp uncounted
        rw [nothing zero, List.append_nil]
        exact totals

theorem totals_foldl_mergeSample {Thread : Type} (threads : List Thread)
    (samples : Thread → Option (CostSample Unit)) (durations : Thread → List Nat)
    (each : ∀ thread ∈ threads, Totals (samples thread) (durations thread))
    (bounded : (threads.flatMap durations).length < 2 ^ 64) :
    Totals ((threads.map samples).foldl mergeSample none) (threads.flatMap durations) := by
  induction threads using List.reverseRecOn with
  | nil => exact totals_none
  | append_singleton threads thread ih =>
      simp only [List.flatMap_append, List.flatMap_singleton, List.length_append] at bounded ⊢
      rw [List.map_append, List.foldl_append]
      refine Totals.mergeSample (ih (fun other member => each other ?_) (by omega)) (each thread ?_)
        (by omega)
      · exact List.mem_append_left _ member
      · exact List.mem_append_right _ (List.mem_singleton_self thread)

/-- The average of a name is the 64-bit total over the 64-bit count. -/
theorem Totals.average {sample : Option (CostSample Unit)} {durations : List Nat}
    (totals : Totals sample durations) (bounded : durations.length < 2 ^ 64) :
    sample.bind averageOf =
      if durations = [] then none
      else some (UInt64.ofNat durations.sum / UInt64.ofNat durations.length) := by
  obtain ⟨total, count⟩ := totals
  cases sample with
  | none =>
      have length := congrArg UInt64.toNat count
      rw [UInt64.toNat_ofNat', Nat.mod_eq_of_lt bounded] at length
      rw [if_pos (List.eq_nil_of_length_eq_zero length.symm)]
      rfl
  | some sample =>
      simp only [Option.map_some, Option.getD_some] at total count
      rw [Option.bind_some, averageOf, total, count]
      refine ite_congr ?_ (fun _ => rfl) (fun _ => rfl) |>.trans (ite_not _ _ _)
      rw [UInt64.lt_iff_toNat_lt, UInt64.toNat_ofNat', Nat.mod_eq_of_lt bounded,
        UInt64.toNat_zero, List.length_pos_iff]

/-- Lists of threads without repetition agree on what only common threads contribute. -/
theorem perm_flatMap {Thread Value : Type} {threads others : List Thread}
    {values : Thread → List Value} (nodup : threads.Nodup) (othersNodup : others.Nodup)
    (covered : ∀ thread, values thread ≠ [] → (thread ∈ threads ↔ thread ∈ others)) :
    (threads.flatMap values).Perm (others.flatMap values) := by
  have dropped (all : List Thread) :
      all.flatMap values = (all.filter fun thread => !(values thread).isEmpty).flatMap values := by
    induction all with
    | nil => rfl
    | cons thread all ih =>
        by_cases silent : values thread = [] <;> simp [silent, ih]
  rw [dropped threads, dropped others]
  refine List.Perm.flatMap_right _ ((List.perm_ext_iff_of_nodup (nodup.filter _)
    (othersNodup.filter _)).mpr fun thread => ?_)
  rw [List.mem_filter, List.mem_filter]
  by_cases silent : values thread = []
  · simp [silent]
  · rw [covered thread silent]

theorem durationsOf_flatMap {Thread : Type} (name : Name) (threads : List Thread)
    (measured : Thread → List Measurement) :
    durationsOf name (threads.flatMap measured) =
      threads.flatMap fun thread => durationsOf name (measured thread) := by
  induction threads with
  | nil => rfl
  | cons thread threads ih =>
      rw [List.flatMap_cons, List.flatMap_cons, durationsOf_append, ih]

/-! ## Runs -/

/-- What a thread does: a worker registers its table before it runs tasks. -/
inductive ThreadEvent where
  | enrols
  | cost (event : CostEvent)
  deriving DecidableEq

def ThreadEvent.costEvent : ThreadEvent → Option CostEvent
  | .enrols => none
  | .cost event => some event

/-- The thread-local data of all threads, and `g_tls_registrations`. -/
structure CostTables (Thread : Type) where
  costs : Thread → ThreadCosts Unit
  registrations : List Thread

namespace CostTables

variable {Thread : Type} [DecidableEq Thread]

/-- No thread has done anything. -/
def boot : CostTables Thread where
  costs _ := .fresh
  registrations := []

/-- `register_tls_samples` on a thread. -/
def enrol (tables : CostTables Thread) (thread : Thread) : CostTables Thread :=
  { tables with
    registrations :=
      if thread ∈ tables.registrations then tables.registrations
      else tables.registrations ++ [thread] }

def step (tables : CostTables Thread) (thread : Thread) : ThreadEvent → CostTables Thread
  | .enrols => tables.enrol thread
  | .cost event =>
      let registered := match event with
        | .begins _ _ => tables.enrol thread
        | .ends _ _ => tables
      { registered with
        costs := Function.update tables.costs thread ((tables.costs thread).costStep event) }

/-- The events of all threads as they happen. -/
def run (events : List (Thread × ThreadEvent)) : CostTables Thread :=
  events.foldl (fun tables event => tables.step event.1 event.2) boot

/-- The maps that `g_tls_registrations` points to. -/
def maps (tables : CostTables Thread) : List (SampleMap Unit) :=
  tables.registrations.map fun thread => (tables.costs thread).samples

/-- What one thread does with its regions. -/
def eventsOf (thread : Thread) (events : List (Thread × ThreadEvent)) : List CostEvent :=
  events.filterMap fun event => if event.1 = thread then event.2.costEvent else none

variable {events : List (Thread × ThreadEvent)} {thread : Thread}

theorem run_append_singleton (event : Thread × ThreadEvent) :
    run (events ++ [event]) = (run events).step event.1 event.2 := by
  rw [run, List.foldl_append]
  rfl

/-- The data of a thread depends on its own events only. -/
theorem costs_run :
    (run events).costs thread = (eventsOf thread events).foldl ThreadCosts.costStep .fresh := by
  induction events using List.reverseRecOn with
  | nil => rfl
  | append_singleton events event ih =>
      obtain ⟨actor, event⟩ := event
      rw [run_append_singleton, eventsOf, List.filterMap_append, List.foldl_append, ← eventsOf,
        ← ih]
      cases event with
      | enrols => simp [step, enrol, ThreadEvent.costEvent]
      | cost event =>
          have updated : ((run events).step actor (.cost event)).costs =
              Function.update (run events).costs actor
                (((run events).costs actor).costStep event) := by
            cases event <;> rfl
          by_cases same : actor = thread
          · subst same
            simp [updated, ThreadEvent.costEvent]
          · simp [updated, same, Function.update_of_ne (Ne.symm same)]

theorem mem_enrol (tables : CostTables Thread) (other : Thread) :
    other ∈ (tables.enrol thread).registrations ↔
      other ∈ tables.registrations ∨ other = thread := by
  unfold enrol
  by_cases known : thread ∈ tables.registrations
  · simp only [known, if_true]
    exact ⟨.inl, fun member => member.elim id fun same => same ▸ known⟩
  · simp only [known, if_false, List.mem_append, List.mem_singleton]

theorem nodup_enrol {tables : CostTables Thread} (nodup : tables.registrations.Nodup) :
    (tables.enrol thread).registrations.Nodup := by
  unfold enrol
  by_cases known : thread ∈ tables.registrations
  · simpa only [known, if_true] using nodup
  · simp only [known, if_false]
    exact List.nodup_append.mpr ⟨nodup, List.nodup_singleton thread, by
      intro member inTables other isThread same
      rw [List.mem_singleton.mp isThread] at same
      exact known (same ▸ inTables)⟩

/-- No table is registered twice. -/
theorem nodup_registrations_run : (run events).registrations.Nodup := by
  induction events using List.reverseRecOn with
  | nil => exact List.nodup_nil
  | append_singleton events event ih =>
      obtain ⟨actor, event⟩ := event
      rw [run_append_singleton]
      cases event with
      | enrols => exact nodup_enrol ih
      | cost event =>
          cases event with
          | begins name now => exact nodup_enrol ih
          | ends name now => exact ih

/-- A thread that has entered a region is registered. -/
theorem mem_registrations_run {name : Name} {now : Nat}
    (begun : .begins name now ∈ eventsOf thread events) : thread ∈ (run events).registrations := by
  induction events using List.reverseRecOn with
  | nil => cases begun
  | append_singleton events event ih =>
      obtain ⟨actor, event⟩ := event
      rw [run_append_singleton]
      rw [eventsOf, List.filterMap_append, List.mem_append] at begun
      rcases begun with earlier | last
      · have registered := ih earlier
        cases event with
        | enrols => exact (mem_enrol _ _).mpr (.inl registered)
        | cost event =>
            cases event with
            | begins name now => exact (mem_enrol _ _).mpr (.inl registered)
            | ends name now => exact registered
      · by_cases same : actor = thread
        · subst same
          cases event with
          | enrols => simp [ThreadEvent.costEvent] at last
          | cost event =>
              simp [ThreadEvent.costEvent] at last
              subst last
              exact (mem_enrol _ _).mpr (.inr rfl)
        · simp [same] at last

/-- A completed measurement was begun. -/
theorem begun_of_measured {cost : List CostEvent} {measured : List Measurement}
    {pending : List PendingBegin} (bracketed : WellBracketed cost measured pending)
    (some : measured ≠ []) : ∃ name now, .begins name now ∈ cost := by
  cases bracketed with
  | closed bracketed =>
      cases bracketed with
      | nil => exact absurd rfl some
      | region _ _ _ => exact ⟨_, _, List.mem_cons_self ..⟩
  | within _ _ =>
      exact ⟨_, _, List.mem_append_right _ (List.mem_cons_self ..)⟩

variable {measured : Thread → List Measurement} {pending : Thread → List PendingBegin}

/-- The accumulated sample of a name holds the totals of the measurements of all threads. -/
theorem totals_run
    (bracketed : ∀ thread, WellBracketed (eventsOf thread events) (measured thread)
      (pending thread)) (name : Name)
    (bounded : (durationsOf name ((run events).registrations.flatMap measured)).length < 2 ^ 64) :
    Totals (((run events).maps.map (·.lookup name)).foldl mergeSample none)
      (durationsOf name ((run events).registrations.flatMap measured)) := by
  rw [durationsOf_flatMap] at bounded ⊢
  rw [maps, List.map_map]
  refine totals_foldl_mergeSample _ _ _ (fun thread _ => ?_) bounded
  rw [Function.comp_apply, costs_run, ThreadCosts.foldl_costStep_fresh (bracketed thread)]
  exact totals_ledger name (measured thread)

/-- When the events of each thread are bracketed, every end has recorded the region of its own
begin, and the average of a name is that of all completed measurements, on whatever threads they
were made and however the threads were registered. -/
theorem getCostSamples_run (events : List (Thread × ThreadEvent))
    (measured : Thread → List Measurement) (pending : Thread → List PendingBegin)
    (bracketed : ∀ thread, WellBracketed (eventsOf thread events) (measured thread)
      (pending thread))
    (live : List Thread) (nodup : live.Nodup) (all : ∀ thread, measured thread ≠ [] → thread ∈ live)
    (completed : List Measurement) (distributed : completed.Perm (live.flatMap measured)) :
    (∀ thread, (run events).costs thread = ThreadCosts.ledger (pending thread) (measured thread)) ∧
      ∀ name, (durationsOf name completed).length < 2 ^ 64 →
        (getCostSamples (run events).maps).lookup name =
            (if durationsOf name completed = [] then none
            else some (UInt64.ofNat (durationsOf name completed).sum /
              UInt64.ofNat (durationsOf name completed).length)) ∧
          ((durationsOf name completed).sum < 2 ^ 64 →
            ∀ average, (getCostSamples (run events).maps).lookup name = some average →
              average.toNat =
                (durationsOf name completed).sum / (durationsOf name completed).length) := by
  refine ⟨fun thread => ?_, fun name bounded => ?_⟩
  · rw [costs_run, ThreadCosts.foldl_costStep_fresh (bracketed thread)]
  · have sameTotals : (durationsOf name completed).Perm
        (durationsOf name ((run events).registrations.flatMap measured)) := by
      refine ((distributed.trans (perm_flatMap nodup nodup_registrations_run ?_)).filter _).map _
      intro thread some
      obtain ⟨begun, now, member⟩ := begun_of_measured (bracketed thread) some
      exact iff_of_true (all thread some) (mem_registrations_run member)
    have averaged : (getCostSamples (run events).maps).lookup name =
        if durationsOf name completed = [] then none
        else some (UInt64.ofNat (durationsOf name completed).sum /
          UInt64.ofNat (durationsOf name completed).length) := by
      rw [sameTotals.length_eq] at bounded
      rw [lookup_getCostSamples, (totals_run bracketed name bounded).average bounded,
        sameTotals.sum_nat, sameTotals.length_eq]
      refine ite_congr (propext ?_) (fun _ => rfl) (fun _ => rfl)
      exact ⟨fun empty => List.perm_nil.mp (empty ▸ sameTotals),
        fun empty => List.perm_nil.mp (empty ▸ sameTotals.symm)⟩
    refine ⟨averaged, fun sum average found => ?_⟩
    rw [averaged] at found
    split at found
    · cases found
    · obtain rfl := Option.some.inj found
      rw [UInt64.toNat_div, UInt64.toNat_ofNat', UInt64.toNat_ofNat', Nat.mod_eq_of_lt sum,
        Nat.mod_eq_of_lt bounded]

/-- Two threads have measured `f`, one of them twice, one inside the other. -/
def sharedName : List (Nat × ThreadEvent) :=
  [(0, .cost (.begins ['f'] 0)), (1, .enrols), (1, .cost (.begins ['f'] 1)),
    (0, .cost (.begins ['f'] 2)), (0, .cost (.ends ['f'] 4)), (1, .cost (.ends ['f'] 9)),
    (0, .cost (.ends ['f'] 10))]

/-- The average of 2, 8 and 10. -/
theorem getCostSamples_sharedName :
    (getCostSamples (run sharedName).maps).lookup ['f'] = some 6 := by
  have inner : Bracketed [.begins ['f'] 2, .ends ['f'] 4] [⟨['f'], 2, 4⟩] :=
    .region (by decide) .nil .nil
  have outer : Bracketed (eventsOf 0 sharedName) [⟨['f'], 2, 4⟩, ⟨['f'], 0, 10⟩] :=
    .region (by decide) inner .nil
  have other : Bracketed (eventsOf 1 sharedName) [⟨['f'], 1, 9⟩] := .region (by decide) .nil .nil
  let measured (thread : Nat) : List Measurement :=
    if thread = 0 then [⟨['f'], 2, 4⟩, ⟨['f'], 0, 10⟩]
    else if thread = 1 then [⟨['f'], 1, 9⟩] else []
  refine (getCostSamples_run sharedName measured (fun _ => []) (fun thread => .closed ?_) [0, 1]
    (by decide) ?_ [⟨['f'], 1, 9⟩, ⟨['f'], 2, 4⟩, ⟨['f'], 0, 10⟩] (by decide)).2 ['f']
    (by decide) |>.1.trans (by decide)
  · by_cases first : thread = 0
    · subst first
      exact outer
    · by_cases second : thread = 1
      · subst second
        exact other
      · simpa [sharedName, eventsOf, measured, first, second, Ne.symm first, Ne.symm second]
          using Bracketed.nil
  · intro thread some
    by_contra absent
    simp at absent
    simp [measured, absent] at some

/-- Three regions of one name, each inside the other, as long as the clock goes. -/
def threeCenturies : List (Nat × ThreadEvent) :=
  [(0, .cost (.begins ['f'] 0)), (0, .cost (.begins ['f'] 0)), (0, .cost (.begins ['f'] 0)),
    (0, .cost (.ends ['f'] (2 ^ 63 - 1))), (0, .cost (.ends ['f'] (2 ^ 63 - 1))),
    (0, .cost (.ends ['f'] (2 ^ 63 - 1)))]

/-- The total of the three does not fit, and their average is not `2 ^ 63 - 1`. -/
theorem threeCenturies_wrap :
    let measured := List.replicate 3 (Measurement.mk ['f'] 0 (2 ^ 63 - 1))
    Bracketed (eventsOf 0 threeCenturies) measured ∧
      (durationsOf ['f'] measured).sum / (durationsOf ['f'] measured).length = 2 ^ 63 - 1 ∧
      ((getCostSamples (run threeCenturies).maps).lookup ['f']).map UInt64.toNat ≠
        some (2 ^ 63 - 1) := by
  refine ⟨?_, by decide, by decide⟩
  have innermost : Bracketed [.begins ['f'] 0, .ends ['f'] (2 ^ 63 - 1)]
      [⟨['f'], 0, 2 ^ 63 - 1⟩] := .region (by decide) .nil .nil
  have middle : Bracketed [.begins ['f'] 0, .begins ['f'] 0, .ends ['f'] (2 ^ 63 - 1),
      .ends ['f'] (2 ^ 63 - 1)] [⟨['f'], 0, 2 ^ 63 - 1⟩, ⟨['f'], 0, 2 ^ 63 - 1⟩] :=
    .region (by decide) innermost .nil
  exact .region (by decide) middle .nil

end CostTables

end Runtime
end TopoLlvm
