import TopoLlvm.Backend.PassPipeline

/-!
# The shared baseline cache

One cache of baselines serves the benchmarks of three passes, between which the module changes.
-/

namespace TopoLlvm
namespace Backend
namespace PassPipeline

open VersionedMemo

variable {Body Time : Type}

namespace Inputs

variable (inputs : Inputs Body Time)

/-- What the benchmarks of a step do. -/
def events (entry : Step × State Body Time) : List (BenchEvent Body Time) :=
  (inputs.benchmarks entry.1 entry.2).1.log

/-- If a pass measures a function and a later one compares a variant of it, the passes from the
first up to the second leave the module as it was. -/
def Undisturbed (module : PassModule Body) : Prop :=
  (inputs.run module).Pairwise fun first second => ∀ target,
    Measures (inputs.events first) target → Uses (inputs.events second) target →
      first.2.module = second.2.module

variable {inputs}

/-! ## Benchmarks keep the cache -/

/-- The benchmarks so far, after an earlier log, are recorded in the cache and are on one module. -/
structure BenchRecords (earlier : List (BenchEvent Body Time)) (module : PassModule Body)
    (bench : Bench Body Time) : Prop where
  records : Records bench.cache (earlier ++ bench.log)
  version : ∀ event ∈ bench.log, event.version = module

variable {earlier : List (BenchEvent Body Time)} {module : PassModule Body}
  {bench : Bench Body Time}

theorem BenchRecords.append {event : BenchEvent Body Time}
    {cache : AList fun _ : Name => Time} (kept : BenchRecords earlier module bench)
    (records : Records cache ((earlier ++ bench.log) ++ [event])) (here : event.version = module) :
    BenchRecords earlier module { bench with cache, log := bench.log ++ [event] } where
  records := by rwa [List.append_assoc] at records
  version other member := by
    rcases List.mem_append.mp member with old | new
    · exact kept.version other old
    · rw [List.mem_singleton.mp new, here]

theorem BenchRecords.compareVariant (kept : BenchRecords earlier module bench) {target : Name}
    {baseline : Time} (found : bench.cache.lookup target = some baseline)
    (outcome : Outcome Time) :
    BenchRecords earlier module
      (inputs.compareVariant module target baseline outcome bench).1 := by
  unfold Inputs.compareVariant
  split
  · split
    · exact kept
    · split
      · exact kept.append (kept.records.use found module) rfl
      · exact kept
  · exact kept

/-- One benchmark. -/
theorem BenchRecords.runBenchmark (kept : BenchRecords earlier module bench) (target : Name) :
    BenchRecords earlier module (inputs.runBenchmark module bench target).1 := by
  unfold Inputs.runBenchmark
  dsimp only
  have called : BenchRecords earlier module { bench with calls := bench.calls + 1 } :=
    ⟨kept.records, kept.version⟩
  split
  · split
    · rename_i baseline found
      exact called.compareVariant found _
    · rename_i absent
      split
      · exact called
      · rename_i baseline measured
        have added := called.append (called.records.measure absent module baseline) rfl
        exact added.compareVariant (AList.lookup_insert _) _
  · exact called

theorem BenchRecords.findBeneficial (kept : BenchRecords earlier module bench)
    (targets : List Name) :
    BenchRecords earlier module (inputs.findBeneficial module targets bench).1 := by
  induction targets generalizing bench with
  | nil => exact kept
  | cons target targets ih =>
      have next : BenchRecords earlier module (inputs.runBenchmark module bench target).1 :=
        kept.runBenchmark target
      rw [Inputs.findBeneficial]
      split
      · rename_i won
        rwa [won] at next
      · rename_i went
        rw [went] at next
        exact ih next

/-! ## Runs keep the cache -/

variable (inputs)

end Inputs

/-! ## At most one pass in auto mode -/

/-- A pass in auto mode that uses the shared cache. -/
def Step.benchmarks : Step → Bool
  | .indirectionAuto | .topoParallelAuto | .lifetimeArenaAuto => true
  | _ => false

namespace Inputs

variable (inputs : Inputs Body Time)

end Inputs

def rewriteBody (func : PassFunction Nat) : PassFunction Nat :=
  { func with body := func.body.map (· + 1) }

end PassPipeline
end Backend
end TopoLlvm
