import TopoLlvm.Library.EvenSplit
import TopoLlvm.Transforms.ChunkOrder

/-!
# The partition of a loop

The code that `partitionLoop` emits cuts the trip count into parts, fills an argument structure for
each part and spawns a task on it.  The arithmetic is on 64-bit words.
-/

namespace TopoLlvm
namespace Transforms

open Overwrite

inductive LoopPartitionStrategy where
  | static | dynamic
  deriving DecidableEq

structure LoopParallelConfig where
  partitionStrategy : LoopPartitionStrategy
  /-- The configured chunk size, as the 64-bit constant of the emitted code. -/
  chunkSize : BitVec 64
  deriving DecidableEq

/-- What the spawn loop does in one turn. -/
structure SpawnedPart where
  /-- The index into the argument array and the task array. -/
  index : BitVec 64
  start : BitVec 64
  stop : BitVec 64
  deriving DecidableEq

namespace LoopParallelConfig

variable (config : LoopParallelConfig)

def maxPartitions : Nat := 16

/-- The number of elements of the argument array and of the task array. -/
def maxParts : Nat :=
  match config.partitionStrategy with
  | .static => maxPartitions
  | .dynamic => maxPartitions * 4

/-- The number of partitions of a trip count. -/
def numParts (tripCount : BitVec 64) : BitVec 64 :=
  let rawParts := tripCount / config.chunkSize
  let clamped := if rawParts.ult 1#64 then 1#64 else rawParts
  if (BitVec.ofNat 64 config.maxParts).ult clamped then BitVec.ofNat 64 config.maxParts
  else clamped

def partSize (tripCount : BitVec 64) : BitVec 64 := tripCount / config.numParts tripCount

/-- The part that the spawn loop makes of an index. -/
def spawnPart (tripCount index : BitVec 64) : SpawnedPart :=
  let nextIndex := index + 1#64
  { index
    start := index * config.partSize tripCount
    stop := if nextIndex = config.numParts tripCount then tripCount
      else nextIndex * config.partSize tripCount }

/-- The spawn loop from an index on, for at most the given number of turns. -/
def spawnLoop (tripCount : BitVec 64) : Nat → BitVec 64 → Option (List SpawnedPart)
  | 0, _ => none
  | fuel + 1, index =>
      if index.ult (config.numParts tripCount) then
        (config.spawnPart tripCount index :: ·) <$> spawnLoop tripCount fuel (index + 1#64)
      else some []

/-- The number of tasks that is awaited. -/
def awaitedCount (tripCount : BitVec 64) : BitVec 32 := (config.numParts tripCount).setWidth 32

end LoopParallelConfig

def SpawnedPart.chunk (part : SpawnedPart) : Chunk where
  first := part.start.toNat
  length := part.stop.toNat - part.start.toNat

namespace LoopParallelConfig

variable {config : LoopParallelConfig} {tripCount : BitVec 64}

theorem maxParts_pos (config : LoopParallelConfig) : 0 < config.maxParts := by
  obtain ⟨strategy, chunkSize⟩ := config
  cases strategy <;> simp [maxParts, maxPartitions]

theorem maxParts_le (config : LoopParallelConfig) : config.maxParts ≤ 64 := by
  obtain ⟨strategy, chunkSize⟩ := config
  cases strategy <;> simp [maxParts, maxPartitions]

theorem toNat_small {number : Nat} (small : number < 2 ^ 64) :
    (BitVec.ofNat 64 number).toNat = number := by
  rw [BitVec.toNat_ofNat, Nat.mod_eq_of_lt small]

/-- The clamps, on numbers. -/
theorem toNat_numParts (config : LoopParallelConfig) (tripCount : BitVec 64) :
    (config.numParts tripCount).toNat =
      min config.maxParts (max 1 (tripCount.toNat / config.chunkSize.toNat)) := by
  have bound := config.maxParts_le
  have pos := config.maxParts_pos
  have max_nat := toNat_small (show config.maxParts < 2 ^ 64 by omega)
  have raw : (tripCount / config.chunkSize).toNat = tripCount.toNat / config.chunkSize.toNat :=
    BitVec.toNat_udiv
  simp only [numParts, BitVec.ult_eq_decide, decide_eq_true_eq]
  have one_nat : (1#64).toNat = 1 := rfl
  split_ifs with small above above <;> rw [one_nat] at small <;>
    simp only [raw, max_nat, one_nat] at small above ⊢ <;> omega

theorem numParts_pos (config : LoopParallelConfig) (tripCount : BitVec 64) :
    0 < (config.numParts tripCount).toNat := by
  have pos := config.maxParts_pos
  rw [toNat_numParts]
  omega

theorem numParts_le_maxParts (config : LoopParallelConfig) (tripCount : BitVec 64) :
    (config.numParts tripCount).toNat ≤ config.maxParts := by
  rw [toNat_numParts]
  omega

theorem toNat_partSize (config : LoopParallelConfig) (tripCount : BitVec 64) :
    (config.partSize tripCount).toNat = tripCount.toNat / (config.numParts tripCount).toNat :=
  BitVec.toNat_udiv

/-- The parts at their common size fit in the trip count. -/
theorem numParts_mul_partSize_le (config : LoopParallelConfig) (tripCount : BitVec 64) :
    (config.numParts tripCount).toNat * (config.partSize tripCount).toNat ≤ tripCount.toNat := by
  rw [toNat_partSize]
  exact Nat.mul_div_le _ _

/-- No multiplication or addition of a turn of the spawn loop wraps around. -/
structure Exact (config : LoopParallelConfig) (tripCount index : BitVec 64) : Prop where
  start : index.umulOverflow (config.partSize tripCount) = false
  next : index.uaddOverflow 1#64 = false
  stop : (index + 1#64).umulOverflow (config.partSize tripCount) = false

section Turn

variable {index : BitVec 64}

theorem toNat_next (inside : index.toNat < (config.numParts tripCount).toNat) :
    (index + 1#64).toNat = index.toNat + 1 := by
  have bound := (config.numParts_le_maxParts tripCount).trans config.maxParts_le
  rw [BitVec.toNat_add, BitVec.toNat_ofNat]
  omega

/-- A multiple of the part size up to the number of parts fits. -/
theorem mul_partSize_lt (config : LoopParallelConfig) (tripCount : BitVec 64) {count : Nat}
    (inside : count ≤ (config.numParts tripCount).toNat) :
    count * (config.partSize tripCount).toNat < 2 ^ 64 :=
  calc count * (config.partSize tripCount).toNat
      ≤ (config.numParts tripCount).toNat * (config.partSize tripCount).toNat :=
        Nat.mul_le_mul_right _ inside
    _ ≤ tripCount.toNat := config.numParts_mul_partSize_le tripCount
    _ < 2 ^ 64 := tripCount.isLt

theorem exact_of_lt (inside : index.toNat < (config.numParts tripCount).toNat) :
    config.Exact tripCount index where
  start := by
    have fits := mul_partSize_lt config tripCount inside.le
    simpa [BitVec.umulOverflow] using fits
  next := by
    have bound := (config.numParts_le_maxParts tripCount).trans config.maxParts_le
    simp only [BitVec.uaddOverflow, BitVec.toNat_ofNat, ge_iff_le, decide_eq_false_iff_not, not_le]
    omega
  stop := by
    have fits := mul_partSize_lt config tripCount inside
    simp only [BitVec.umulOverflow, toNat_next inside, ge_iff_le, decide_eq_false_iff_not, not_le]
    exact fits

theorem toNat_start (inside : index.toNat < (config.numParts tripCount).toNat) :
    (config.spawnPart tripCount index).start.toNat =
      index.toNat * (config.partSize tripCount).toNat := by
  rw [spawnPart, BitVec.toNat_mul, Nat.mod_eq_of_lt (mul_partSize_lt _ _ inside.le)]

/-- A part ends where it does in the even split. -/
theorem toNat_stop (inside : index.toNat < (config.numParts tripCount).toNat) :
    (config.spawnPart tripCount index).stop.toNat =
      EvenSplit.stop tripCount.toNat (config.numParts tripCount).toNat
        (config.partSize tripCount).toNat index.toNat := by
  have last : index + 1#64 = config.numParts tripCount ↔
      index.toNat + 1 = (config.numParts tripCount).toNat := by
    rw [← BitVec.toNat_inj, toNat_next inside]
  simp only [spawnPart, EvenSplit.stop, last]
  split_ifs with ends
  · rfl
  · rw [BitVec.toNat_mul, toNat_next inside, Nat.mod_eq_of_lt (mul_partSize_lt _ _ inside)]

theorem chunk_iterations (inside : index.toNat < (config.numParts tripCount).toNat) :
    (config.spawnPart tripCount index).chunk.iterations =
      EvenSplit.part tripCount.toNat (config.numParts tripCount).toNat
        (config.partSize tripCount).toNat index.toNat := by
  rw [SpawnedPart.chunk, Chunk.iterations, toNat_start inside, toNat_stop inside, EvenSplit.part]

end Turn

/-- The parts, by their numbers. -/
def parts (config : LoopParallelConfig) (tripCount : BitVec 64) : List SpawnedPart :=
  (List.range (config.numParts tripCount).toNat).map fun index =>
    config.spawnPart tripCount (BitVec.ofNat 64 index)

/-- **Run lemma.** The spawn loop makes the parts that remain, in order. -/
theorem spawnLoop_eq (remaining : Nat) {index fuel : Nat}
    (counts : index + remaining = (config.numParts tripCount).toNat) (enough : remaining < fuel) :
    config.spawnLoop tripCount fuel (BitVec.ofNat 64 index) =
      some ((List.range' index remaining).map fun index =>
        config.spawnPart tripCount (BitVec.ofNat 64 index)) := by
  have bound := (config.numParts_le_maxParts tripCount).trans config.maxParts_le
  induction remaining generalizing index fuel with
  | zero =>
      obtain ⟨fuel, rfl⟩ := Nat.exists_eq_add_of_le' enough
      have done : ¬(BitVec.ofNat 64 index).ult (config.numParts tripCount) = true := by
        rw [BitVec.ult_eq_decide, toNat_small (by omega), decide_eq_true_eq]
        omega
      rw [spawnLoop, if_neg done]
      rfl
  | succ remaining ih =>
      obtain ⟨fuel, rfl⟩ := Nat.exists_eq_add_of_le' (Nat.zero_lt_of_lt enough)
      have more : (BitVec.ofNat 64 index).ult (config.numParts tripCount) = true := by
        rw [BitVec.ult_eq_decide, toNat_small (by omega), decide_eq_true_eq]
        omega
      have next : BitVec.ofNat 64 index + 1#64 = BitVec.ofNat 64 (index + 1) := by
        rw [BitVec.ofNat_add]
      rw [spawnLoop, if_pos more, next, ih (by omega) (by omega)]
      rfl

theorem spawnLoop_eq_parts {fuel : Nat} (enough : (config.numParts tripCount).toNat < fuel) :
    config.spawnLoop tripCount fuel 0#64 = some (config.parts tripCount) := by
  have spawned := spawnLoop_eq (config.numParts tripCount).toNat (Nat.zero_add _) enough
  rwa [← List.range_eq_range'] at spawned

/-- What a part of the spawn loop is. -/
theorem mem_parts {part : SpawnedPart} :
    part ∈ config.parts tripCount ↔
      ∃ index, index.toNat < (config.numParts tripCount).toNat ∧
        config.spawnPart tripCount index = part := by
  have bound := (config.numParts_le_maxParts tripCount).trans config.maxParts_le
  simp only [parts, List.mem_map, List.mem_range]
  constructor
  · rintro ⟨index, inside, rfl⟩
    exact ⟨BitVec.ofNat 64 index, by rwa [toNat_small (by omega)], rfl⟩
  · rintro ⟨index, inside, rfl⟩
    exact ⟨index.toNat, inside, by rw [BitVec.ofNat_toNat, BitVec.setWidth_eq]⟩

/-- The parts execute every iteration once, in order. -/
theorem flatMap_parts (config : LoopParallelConfig) (tripCount : BitVec 64) :
    (config.parts tripCount).flatMap (·.chunk.iterations) = List.range tripCount.toNat := by
  have bound := (config.numParts_le_maxParts tripCount).trans config.maxParts_le
  rw [parts, List.flatMap_map,
    ← EvenSplit.flatMap_part (config.numParts_pos tripCount)
      (config.numParts_mul_partSize_le tripCount)]
  apply List.flatMap_congr
  intro index inside
  rw [List.mem_range] at inside
  have index_nat := toNat_small (show index < 2 ^ 64 by omega)
  rw [chunk_iterations (by rwa [index_nat]), index_nat]

/-- The partition that a loop is executed in. -/
def partition (config : LoopParallelConfig) (tripCount : BitVec 64) :
    Partition tripCount.toNat where
  chunks := (config.parts tripCount).map SpawnedPart.chunk
  covers := by
    rw [List.flatMap_map]
    exact config.flatMap_parts tripCount

/-- Where the order of chunks is irrelevant, the spawned parts leave the memory of the serial run,
however they are scheduled. -/
theorem runChunks_parts {loop : Loop} {interp : Interpretation} {outer : Nat → Value}
    {memory : Memory} {reductions : List ReductionInfo} {result : Loop.Result}
    (irrelevant : loop.OrderIrrelevant interp outer memory reductions result)
    (counts : result.log.length = tripCount.toNat) {order : List Chunk}
    (scheduled : order.Perm (config.partition tripCount).chunks) :
    loop.runChunks interp outer reductions result.log.length memory order =
      overwrite memory result.writes :=
  irrelevant ⟨(config.partition tripCount).chunks, by
    rw [counts]
    exact (config.partition tripCount).covers⟩ order scheduled

/-- The loop of a task tests its range, and counts in it, without overflow. -/
structure RangeTested (part : SpawnedPart) : Prop where
  tests : ∀ index : BitVec 64, index.toNat ≤ part.stop.toNat →
    (index.slt part.stop = true ↔ index.toNat < part.stop.toNat)
  counts : ∀ index : BitVec 64, index.toNat < part.stop.toNat →
    index.uaddOverflow 1#64 = false ∧ index.saddOverflow 1#64 = false

theorem rangeTested_of_stop_lt {part : SpawnedPart} (small : part.stop.toNat < 2 ^ 63) :
    RangeTested part where
  tests index inside := Worker.slt_iff (by omega) small
  counts index inside := by
    have index_int : index.toInt = index.toNat := by
      rw [BitVec.toInt_eq_toNat_cond, if_pos (by omega)]
    constructor
    · simp only [BitVec.uaddOverflow, BitVec.toNat_ofNat, ge_iff_le, decide_eq_false_iff_not,
        not_le]
      omega
    · simp [BitVec.saddOverflow, index_int]
      omega

/-- Of a nonempty range every part has an iteration. -/
theorem start_lt_stop (nonempty : 1 ≤ tripCount.toNat) {index : BitVec 64}
    (inside : index.toNat < (config.numParts tripCount).toNat) :
    (config.spawnPart tripCount index).start.toNat <
      (config.spawnPart tripCount index).stop.toNat := by
  have parts_le : (config.numParts tripCount).toNat ≤ tripCount.toNat := by
    have raw_le := Nat.div_le_self tripCount.toNat config.chunkSize.toNat
    rw [toNat_numParts]
    omega
  have size_pos : 0 < (config.partSize tripCount).toNat := by
    rw [toNat_partSize]
    exact Nat.div_pos parts_le (config.numParts_pos tripCount)
  have next_start : index.toNat * (config.partSize tripCount).toNat <
      (index.toNat + 1) * (config.partSize tripCount).toNat := by
    rw [Nat.succ_mul]
    omega
  rw [toNat_start inside, toNat_stop inside, EvenSplit.stop]
  split_ifs with last
  · calc index.toNat * (config.partSize tripCount).toNat
        < (index.toNat + 1) * (config.partSize tripCount).toNat := next_start
      _ = (config.numParts tripCount).toNat * (config.partSize tripCount).toNat := by rw [last]
      _ ≤ tripCount.toNat := config.numParts_mul_partSize_le tripCount
  · exact next_start

/-- The parts follow each other. -/
theorem pairwise_parts (config : LoopParallelConfig) (tripCount : BitVec 64) :
    (config.parts tripCount).Pairwise fun before after =>
      before.stop.toNat ≤ after.start.toNat := by
  have bound := (config.numParts_le_maxParts tripCount).trans config.maxParts_le
  rw [parts, List.pairwise_map]
  refine List.pairwise_lt_range.imp_of_mem fun {left right} left_mem right_mem before => ?_
  rw [List.mem_range] at left_mem right_mem
  have left_nat := toNat_small (show left < 2 ^ 64 by omega)
  have right_nat := toNat_small (show right < 2 ^ 64 by omega)
  rw [toNat_stop (by rwa [left_nat]), toNat_start (by rwa [right_nat]), left_nat, right_nat]
  exact EvenSplit.stop_le_start before right_mem

/-- **Exact cover.** -/
theorem partition_exact (config : LoopParallelConfig) (tripCount : BitVec 64)
    (chunk_pos : 1 ≤ config.chunkSize.toNat) (nonempty : 1 ≤ tripCount.toNat)
    (small : tripCount.toNat < 2 ^ 63) :
    (config.chunkSize ≠ 0 ∧ config.numParts tripCount ≠ 0) ∧
    (1 ≤ (config.numParts tripCount).toNat ∧
      (config.numParts tripCount).toNat ≤ config.maxParts) ∧
    (config.awaitedCount tripCount).toNat = (config.numParts tripCount).toNat ∧
    ∃ parts, (∀ fuel, (config.numParts tripCount).toNat < fuel →
        config.spawnLoop tripCount fuel 0#64 = some parts) ∧
      parts.length = (config.numParts tripCount).toNat ∧
      (∀ part ∈ parts, part.index.toNat < config.maxParts ∧ config.Exact tripCount part.index ∧
        part.start.toNat < part.stop.toNat ∧ part.stop.toNat ≤ tripCount.toNat ∧
        RangeTested part) ∧
      parts.Pairwise (fun before after => before.stop.toNat ≤ after.start.toNat) ∧
      (∀ iteration, iteration < tripCount.toNat ↔
        ∃ part ∈ parts, part.start.toNat ≤ iteration ∧ iteration < part.stop.toNat) ∧
      parts.flatMap (·.chunk.iterations) = List.range tripCount.toNat := by
  refine ⟨⟨?_, ?_⟩, ⟨config.numParts_pos tripCount, config.numParts_le_maxParts tripCount⟩, ?_,
    config.parts tripCount, fun fuel enough => spawnLoop_eq_parts enough, by simp [parts], ?_,
    config.pairwise_parts tripCount, ?_, config.flatMap_parts tripCount⟩
  · intro zero
    simp [zero] at chunk_pos
  · intro zero
    have pos := config.numParts_pos tripCount
    simp [zero] at pos
  · have bound := (config.numParts_le_maxParts tripCount).trans config.maxParts_le
    rw [awaitedCount, BitVec.toNat_setWidth, Nat.mod_eq_of_lt (by omega)]
  · intro part member
    obtain ⟨index, inside, rfl⟩ := mem_parts.mp member
    have stop_le : (config.spawnPart tripCount index).stop.toNat ≤ tripCount.toNat := by
      rw [toNat_stop inside]
      exact EvenSplit.stop_le_total (config.numParts_mul_partSize_le tripCount) inside
    exact ⟨inside.trans_le (config.numParts_le_maxParts tripCount), exact_of_lt inside,
      start_lt_stop nonempty inside, stop_le, rangeTested_of_stop_lt (stop_le.trans_lt small)⟩
  · intro iteration
    have covered : iteration ∈ (config.parts tripCount).flatMap (·.chunk.iterations) ↔
        iteration < tripCount.toNat := by
      rw [flatMap_parts, List.mem_range]
    rw [← covered, List.mem_flatMap]
    refine exists_congr fun part => and_congr_right fun member => ?_
    obtain ⟨index, inside, rfl⟩ := mem_parts.mp member
    have ordered := start_lt_stop nonempty inside
    simp only [Chunk.iterations, SpawnedPart.chunk, List.mem_range'_1]
    omega

/-- 1000 iterations in chunks of 64 are 15 parts of 66 iterations, of which the last has 76. -/
theorem partition_exact_thousand :
    (LoopParallelConfig.numParts ⟨.static, 64#64⟩ 1000#64).toNat = 15 ∧
      ∃ parts : List SpawnedPart, parts.length = 15 ∧
        parts.flatMap (·.chunk.iterations) = List.range 1000 := by
  obtain ⟨-, -, -, parts, -, length_eq, -, -, -, covers⟩ :=
    partition_exact ⟨.static, 64#64⟩ 1000#64 (by decide) (by decide) (by decide)
  exact ⟨by decide, parts, length_eq, covers⟩

end LoopParallelConfig

end Transforms
end TopoLlvm
