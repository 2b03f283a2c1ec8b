import TopoLlvm.Runtime.Adaptive
import Mathlib.Data.List.AList

/-!
# The per-thread cost tables

`topo_cost_begin` and `topo_cost_end` measure a named region on the thread that runs it.  The
samples of every registered thread are averaged by `get_cost_samples` and those of one pipeline
are dropped by the scoped `reset_cost_samples`.  Each sample carries, as a ghost, the executions
that recorded it.
-/

namespace TopoLlvm
namespace Runtime

/-- Accumulated measurements of one name. -/
structure CostSample (Origin : Type) where
  totalNS : UInt64
  count : UInt64
  /-- Ghost: who recorded each measurement. -/
  origins : List Origin
  /-- The counter wraps around after `2 ^ 64` measurements. -/
  counted : count = UInt64.ofNat origins.length

namespace CostSample

variable {Origin : Type}

/-- A value-initialized sample. -/
def zero : CostSample Origin where
  totalNS := 0
  count := 0
  origins := []
  counted := rfl

def record (sample : CostSample Origin) (durationNS : UInt64) (origin : Origin) :
    CostSample Origin where
  totalNS := sample.totalNS + durationNS
  count := sample.count + 1
  origins := origin :: sample.origins
  counted := by
    rw [sample.counted, List.length_cons, UInt64.ofNat_add]
    rfl

/-- Add a thread's totals to the accumulator of a name. -/
def merge (accumulated sample : CostSample Origin) : CostSample Origin where
  totalNS := accumulated.totalNS + sample.totalNS
  count := accumulated.count + sample.count
  origins := accumulated.origins ++ sample.origins
  counted := by
    rw [accumulated.counted, sample.counted, List.length_append, UInt64.ofNat_add]

/-- A counted sample was recorded by somebody. -/
theorem origins_ne_nil {sample : CostSample Origin} (positive : 0 < sample.count) :
    sample.origins ≠ [] := by
  intro empty
  rw [sample.counted, empty] at positive
  exact UInt64.lt_irrefl _ positive

end CostSample

/-- An `unordered_map` from names to samples. -/
abbrev SampleMap (Origin : Type) := AList fun _ : Name => CostSample Origin

/-- A region that was entered and not left. -/
structure PendingBegin where
  name : Name
  tp : Nat
  deriving DecidableEq

/-- The thread-local cost data of one thread. -/
structure ThreadCosts (Origin : Type) where
  /-- `tls_pending_begins`, the newest first. -/
  pending : List PendingBegin
  /-- The map in `tls_registration`. -/
  samples : SampleMap Origin

namespace ThreadCosts

variable {Origin : Type}

/-- A thread that has measured nothing. -/
def fresh : ThreadCosts Origin where
  pending := []
  samples := ∅

def costBegin (costs : ThreadCosts Origin) (instrument : Bool) (funcName : Name) (now : Nat) :
    ThreadCosts Origin :=
  if instrument then { costs with pending := { name := funcName, tp := now } :: costs.pending }
  else costs

/-- Whether `topo_cost_end` finds a begin to close. -/
def records (costs : ThreadCosts Origin) (instrument : Bool) (funcName : Name) : Bool :=
  instrument && costs.pending.any (·.name = funcName)

/-- The newest begin of the name is closed, whoever opened it. -/
def costEnd (costs : ThreadCosts Origin) (instrument : Bool) (funcName : Name) (now : Nat)
    (origin : Origin) : ThreadCosts Origin :=
  if instrument then
    match costs.pending.find? (·.name = funcName) with
    | none => costs
    | some started =>
        let sample := (costs.samples.lookup funcName).getD .zero
        { pending := costs.pending.eraseP (·.name = funcName)
          samples := costs.samples.insert funcName
            (sample.record (UInt64.ofNat (now - started.tp)) origin) }
  else costs

/-- A sample after `topo_cost_end` is an old one, or the old one of its name with one more. -/
theorem costEnd_lookup {costs : ThreadCosts Origin} {instrument : Bool} {funcName : Name}
    {now : Nat} {origin : Origin} {key : Name} {sample : CostSample Origin}
    (found : (costs.costEnd instrument funcName now origin).samples.lookup key = some sample) :
    costs.samples.lookup key = some sample ∨
      key = funcName ∧ costs.records instrument funcName = true ∧
        ∃ duration, sample = ((costs.samples.lookup key).getD .zero).record duration origin := by
  unfold costEnd at found
  split at found
  · rename_i enabled
    split at found
    · exact .inl found
    · rename_i started opened
      by_cases same : key = funcName
      · subst same
        rw [AList.lookup_insert] at found
        refine .inr ⟨rfl, ?_, _, (Option.some.inj found).symm⟩
        rw [records, enabled, Bool.true_and, List.any_eq_true]
        have named := List.find?_some opened
        exact ⟨started, List.mem_of_find?_eq_some opened, named⟩
      · rw [AList.lookup_insert_ne same] at found
        exact .inl found
  · exact .inl found

end ThreadCosts

section Aggregation

variable {Origin : Type}

/-- Raw totals and counts of each name over the maps of all registered threads. -/
def accumulate (maps : List (SampleMap Origin)) : SampleMap Origin :=
  maps.foldl (fun accumulated map => map.entries.foldl (fun accumulated entry =>
    if 0 < entry.2.count then
      accumulated.insert entry.1 (((accumulated.lookup entry.1).getD .zero).merge entry.2)
    else accumulated) accumulated) ∅

/-- The average of each name. -/
def averages (accumulated : SampleMap Origin) : Costs :=
  accumulated.entries.filterMap fun entry =>
    if 0 < entry.2.count then some (entry.1, entry.2.totalNS / entry.2.count) else none

def getCostSamples (maps : List (SampleMap Origin)) : Costs := averages (accumulate maps)

/-- The executions behind the average that `get_cost_samples` returns for a name. -/
def sampleOrigins (maps : List (SampleMap Origin)) (name : Name) : List Origin :=
  (((accumulate maps).lookup name).map (·.origins)).getD []

/-- The name of a pipeline or of one of its stages. -/
def belongsTo (pipeline key : Name) : Bool := key = pipeline || (stageOf pipeline key).isSome

/-- The scoped `reset_cost_samples` on the map of one thread. -/
def resetCostSamples (map : SampleMap Origin) (name : Name) : SampleMap Origin :=
  (map.keys.filter (belongsTo name)).foldl (fun map key => map.erase key) map

/-- What holds of every sample of the threads and is kept by merging holds of the totals. -/
theorem accumulate_forall (Good : Name → CostSample Origin → Prop)
    (first : ∀ name sample, Good name sample → Good name (CostSample.zero.merge sample))
    (merge : ∀ name accumulated sample, Good name accumulated → Good name sample →
      Good name (accumulated.merge sample))
    {maps : List (SampleMap Origin)}
    (each : ∀ map ∈ maps, ∀ name sample, map.lookup name = some sample → Good name sample)
    {name : Name} {sample : CostSample Origin}
    (found : (accumulate maps).lookup name = some sample) : Good name sample := by
  let Holds (accumulated : SampleMap Origin) : Prop :=
    ∀ name sample, accumulated.lookup name = some sample → Good name sample
  suffices all : Holds (accumulate maps) from all name sample found
  refine List.foldlRecOn maps _ (motive := Holds) ?_ ?_
  · intro name sample found
    rw [AList.lookup_empty] at found
    cases found
  · intro accumulated holds map member
    refine List.foldlRecOn map.entries _ (motive := Holds) holds ?_
    intro accumulated holds entry entryMember
    split
    · intro name sample found
      by_cases same : name = entry.1
      · subst same
        rw [AList.lookup_insert, Option.some.injEq] at found
        have good : Good entry.1 entry.2 :=
          each map member entry.1 entry.2 (AList.mem_lookup_iff.mpr entryMember)
        cases known : accumulated.lookup entry.1 with
        | none =>
            rw [known] at found
            exact found ▸ first _ _ good
        | some old =>
            rw [known] at found
            exact found ▸ merge _ _ _ (holds _ _ known) good
      · rw [AList.lookup_insert_ne same] at found
        exact holds name sample found
    · exact holds

/-- An average comes from a counted total. -/
theorem getCostSamples_lookup {maps : List (SampleMap Origin)} {name : Name} {ns : UInt64}
    (found : (getCostSamples maps).lookup name = some ns) :
    ∃ sample, (accumulate maps).lookup name = some sample ∧ 0 < sample.count := by
  have member : (name, ns) ∈ getCostSamples maps := by
    obtain ⟨before, after, split, -⟩ := List.lookup_eq_some_iff.mp found
    rw [split]
    exact List.mem_append_right _ (List.mem_cons_self ..)
  obtain ⟨entry, entryMember, kept⟩ := List.mem_filterMap.mp member
  split at kept
  · rename_i positive
    obtain ⟨rfl, -⟩ := Prod.mk.inj (Option.some.inj kept)
    exact ⟨entry.2, AList.mem_lookup_iff.mpr entryMember, positive⟩
  · cases kept

/-- A name with an average was recorded by somebody. -/
theorem sampleOrigins_ne_nil {maps : List (SampleMap Origin)} {name : Name} {ns : UInt64}
    (found : (getCostSamples maps).lookup name = some ns) : sampleOrigins maps name ≠ [] := by
  obtain ⟨sample, total, positive⟩ := getCostSamples_lookup found
  rw [sampleOrigins, total]
  exact CostSample.origins_ne_nil positive

/-- A name that no thread has sampled has no average. -/
theorem getCostSamples_absent {maps : List (SampleMap Origin)} {name : Name}
    (absent : ∀ map ∈ maps, map.lookup name = none) : (getCostSamples maps).lookup name = none := by
  cases found : (getCostSamples maps).lookup name with
  | none => rfl
  | some ns =>
      obtain ⟨sample, total, -⟩ := getCostSamples_lookup found
      refine (accumulate_forall (fun key _ => key ≠ name) ?_ ?_ ?_ total rfl).elim
      · intro key sample other
        exact other
      · intro key accumulated sample other _
        exact other
      · rintro map member key sample known rfl
        rw [absent map member] at known
        cases known

/-- The executions behind an average recorded samples of its name on some thread. -/
theorem mem_sampleOrigins {maps : List (SampleMap Origin)} {name : Name} {origin : Origin}
    (member : origin ∈ sampleOrigins maps name) :
    ∃ map ∈ maps, ∃ sample, map.lookup name = some sample ∧ origin ∈ sample.origins := by
  unfold sampleOrigins at member
  cases total : (accumulate maps).lookup name with
  | none => simp [total] at member
  | some sample =>
      rw [total] at member
      refine accumulate_forall
        (fun key sample => ∀ origin ∈ sample.origins,
          ∃ map ∈ maps, ∃ sample, map.lookup key = some sample ∧ origin ∈ sample.origins)
        ?_ ?_ ?_ total origin member
      · intro key sample good origin member
        exact good origin (by simpa [CostSample.merge, CostSample.zero] using member)
      · intro key accumulated sample left right origin member
        rcases List.mem_append.mp member with old | new
        · exact left origin old
        · exact right origin new
      · intro map member key sample known origin recorded
        exact ⟨map, member, sample, known, recorded⟩

/-- Erasing a list of keys leaves the other keys as they were. -/
theorem lookup_foldl_erase (keys : List Name) (map : SampleMap Origin) (key : Name) :
    (keys.foldl (fun map key => map.erase key) map).lookup key =
      if key ∈ keys then none else map.lookup key := by
  induction keys generalizing map with
  | nil => simp only [List.foldl_nil, List.not_mem_nil, if_false]
  | cons head tail ih =>
      rw [List.foldl_cons, ih]
      by_cases later : key ∈ tail
      · simp only [later, List.mem_cons, or_true, if_true]
      · by_cases same : key = head
        · subst same
          simp only [later, List.mem_cons, true_or, if_true, if_false, AList.lookup_erase]
        · simp only [later, same, List.mem_cons, or_self, if_false,
            AList.lookup_erase_ne same]

/-- The scoped reset drops exactly the names of the pipeline and of its stages. -/
@[simp]
theorem lookup_resetCostSamples (map : SampleMap Origin) (name key : Name) :
    (resetCostSamples map name).lookup key =
      if belongsTo name key then none else map.lookup key := by
  rw [resetCostSamples, lookup_foldl_erase]
  by_cases belongs : belongsTo name key = true
  · by_cases known : key ∈ map.keys
    · simp only [List.mem_filter, known, belongs, and_self, if_true]
    · simp only [List.mem_filter, known, belongs, and_true, if_false, if_true]
      exact AList.lookup_eq_none.mpr fun member => known (AList.mem_keys.mp member)
  · simp only [List.mem_filter, belongs, and_false, if_false, Bool.false_eq_true]

@[simp]
theorem belongsTo_self (name : Name) : belongsTo name name = true := by simp [belongsTo]

end Aggregation
end Runtime
end TopoLlvm
