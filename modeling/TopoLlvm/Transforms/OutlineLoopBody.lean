import TopoLlvm.Transforms.LoopGates
import Mathlib.Algebra.Ring.Nat

/-!
# The outlined worker

`outlineLoopBody` rebuilds the loop's control and clones the blocks other than the header;
`getTripCountValue` turns the exit count of scalar evolution into the number of iterations.
-/

namespace TopoLlvm
namespace Transforms

open Overwrite

/-- An operand of a cloned instruction. -/
inductive WorkerRef where
  | const (value : Value)
  /-- A value loaded from the argument struct. -/
  | captured (index : Nat)
  /-- The worker's induction variable, truncated to the type of the original one. -/
  | induction
  /-- The partial accumulator of a reduction. -/
  | accumulator (index : Nat)
  | clone (index : Nat)
  /-- What an instruction of the original loop is replaced by when its block is erased. -/
  | undefValue
  deriving DecidableEq

def WorkerRef.isAccumulator : WorkerRef → Bool
  | .accumulator _ => true
  | .const _ | .captured _ | .induction | .clone _ | .undefValue => false

/-- The outlined function: `for (i = start; i < end; i++)` around the cloned instructions. -/
structure Worker where
  captures : List Nat
  reductions : List ReductionInfo
  /-- The width of the original induction variable. -/
  width : Nat
  body : List (Inst WorkerRef)

namespace Loop

variable (loop : Loop)

/-- The operands of the loop's instructions, block by block. -/
def operands : List Operand :=
  (loop.phis.flatMap fun phi => [phi.init, phi.next]) ++ loop.header.flatMap (·.operands) ++
    (if loop.shape = .topTested then [loop.exit.condition] else []) ++
    loop.bodyPhis ++ loop.body.flatMap (·.operands) ++
    if loop.shape = .topTested then [] else [loop.exit.condition]

/-- The values used inside the loop and defined outside it. -/
def collectCaptures : List Nat :=
  (loop.operands.filterMap fun
    | .outer name => some name
    | _ => none).eraseDups

/-- The value map when the instruction at a position of the latch block is cloned. -/
def remap (reductions : List ReductionInfo) (position : Nat) : Operand → WorkerRef
  | .const value => .const value
  | .outer name => .captured (loop.collectCaptures.idxOf name)
  | .phi index =>
      if loop.canonicalInductionVariable = some index then .induction
      else match reductions.findIdx? (·.phi = index) with
        | some slot => .accumulator slot
        | none => .undefValue
  -- The header is not cloned, and phi nodes of the latch block are skipped.
  | .header _ | .bodyPhi _ => .undefValue
  | .body index => if index < position then .clone index else .undefValue

/-- The width of the canonical induction variable. -/
def inductionWidth : Option Nat :=
  loop.canonicalInductionVariable.bind fun index =>
    match loop.phis[index]? with
    | some { type := .int width, .. } => some width
    | _ => none

/-- The worker of a loop whose induction variable has the given width. -/
def workerOf (reductions : List ReductionInfo) (width : Nat) : Worker where
  captures := loop.collectCaptures
  reductions
  width
  body := loop.body.mapIdx fun position inst =>
    { opcode := inst.opcode, operands := inst.operands.map (loop.remap reductions position) }

/-- There is no truncation from 64 bits to a wider type. -/
def outlineLoopBody (reductions : List ReductionInfo) : Option Worker :=
  loop.inductionWidth.bind fun width =>
    if 64 < width then none else some (loop.workerOf reductions width)

end Loop

namespace Worker

/-- The worker's phi nodes, with what its iterations have written and done. -/
structure State where
  index : BitVec 64
  accumulators : List Value
  writes : Writes
  log : List (List Event)

variable (worker : Worker) (interp : Interpretation) (captured : List Value) (undef : Value)
  (memory : Memory)

def resolve (state : State) (values : List Value) : WorkerRef → Value
  | .const value => value
  | .captured index => captured.getD index default
  | .induction => .int worker.width (state.index.setWidth worker.width)
  | .accumulator index => state.accumulators.getD index default
  | .clone index => values.getD index default
  | .undefValue => undef

def observe (index : Nat) (inst : Inst WorkerRef) (value : WorkerRef → Value) : List Event :=
  [{ position := .body index
     operands := (inst.operands.filter fun operand => !operand.isAccumulator).map value }]

/-- Execute the cloned instructions once. -/
def execBody (state : State) : Outcome :=
  execInsts interp memory (worker.resolve captured undef state) observe
    { values := [], writes := state.writes, log := [] } worker.body

/-- One iteration. -/
def step (state : State) : State :=
  let body := worker.execBody interp captured undef memory state
  { index := state.index + 1#64
    accumulators := worker.reductions.map fun reduction =>
      match reduction.binop with
      | .body index => body.values.getD index default
      | _ => default
    writes := body.writes
    log := state.log ++ [body.log] }

/-- The state in which the worker's loop is entered. -/
def start (index : BitVec 64) : State where
  index
  accumulators := worker.reductions.map (·.getIdentity)
  writes := []
  log := []

/-- Run the worker's loop for at most the given number of turns. -/
def run (stop : BitVec 64) : Nat → State → Option State
  | 0, _ => none
  | fuel + 1, state =>
      if state.index.slt stop then
        run stop fuel (worker.step interp captured undef memory state)
      else some state

end Worker

/-- A constant exit count of scalar evolution. -/
structure ExitCount where
  width : Nat
  bits : BitVec width

/-- `ScalarEvolution::getSmallConstantTripCount`. -/
def getSmallConstantTripCount : Option ExitCount → BitVec 32
  | none => 0#32
  | some exitCount =>
      if 2 ^ 32 ≤ exitCount.bits.toNat then 0#32 else exitCount.bits.setWidth 32 + 1#32

/-- The loop tests and exits at its latch. -/
def Loop.bottomTested (loop : Loop) : Bool := loop.shape ≠ .topTested

/-- A number of iterations, as an `int64_t` that has to be positive. -/
def positiveCount (body : BitVec 64) : Option (BitVec 64) :=
  if body.toInt ≤ 0 then none else some body

def Loop.getTripCountValue (loop : Loop) (exitCount : Option ExitCount) : Option (BitVec 64) :=
  let headerTrip := getSmallConstantTripCount exitCount
  if headerTrip ≠ 0#32 then
    positiveCount ((if loop.bottomTested then headerTrip else headerTrip - 1#32).setWidth 64)
  else
    exitCount.bind fun exitCount =>
      let btc := exitCount.bits.signExtend 64
      positiveCount (if loop.bottomTested then btc + 1#64 else btc)

/-- The update is in the header, which is not cloned. -/
def ReductionInfo.inHeader (info : ReductionInfo) : Bool :=
  match info.binop with
  | .header _ => true
  | _ => false

/-- The reductions and the trip count with which `partitionLoop` replaces a candidate. -/
def Loop.partitionLoop (loop : Loop) (reductionEnabled : Bool) (exitCount : Option ExitCount) :
    Option (List ReductionInfo × BitVec 64) :=
  (loop.candidateReductions reductionEnabled).bind fun reductions =>
    if reductions.any ReductionInfo.inHeader then none
    else (loop.getTripCountValue exitCount).map fun tripCount => (reductions, tripCount)

theorem Loop.partitionLoop_eq_some {loop : Loop} {reductionEnabled : Bool}
    {exitCount : Option ExitCount} {reductions : List ReductionInfo} {tripCount : BitVec 64}
    (partitioned : loop.partitionLoop reductionEnabled exitCount = some (reductions, tripCount)) :
    loop.candidateReductions reductionEnabled = some reductions ∧
      loop.getTripCountValue exitCount = some tripCount := by
  obtain ⟨found, candidate, partitioned⟩ := Option.bind_eq_some_iff.mp partitioned
  split at partitioned
  · cases partitioned
  · obtain ⟨count, trip, same⟩ := Option.map_eq_some_iff.mp partitioned
    cases same
    exact ⟨candidate, trip⟩

/-- The number of executions of the body of a loop that takes its backedge `count` times. -/
def Loop.bodyExecutions (loop : Loop) (count : Nat) : Nat :=
  if loop.bottomTested then count + 1 else count

theorem toNat_lt_of_toInt_nonneg {bits : BitVec 64} (nonneg : 0 ≤ bits.toInt) :
    bits.toNat < 2 ^ 63 := by
  rw [BitVec.toInt_eq_toNat_cond] at nonneg
  split at nonneg <;> omega

theorem positiveCount_eq_some {body count : BitVec 64} (found : positiveCount body = some count) :
    body = count ∧ 0 < count.toInt := by
  unfold positiveCount at found
  split at found
  · cases found
  · cases found
    exact ⟨rfl, by omega⟩

/-- A trip count that is found is positive. -/
theorem Loop.getTripCountValue_pos {loop : Loop} {exitCount : Option ExitCount}
    {tripCount : BitVec 64} (found : loop.getTripCountValue exitCount = some tripCount) :
    0 < tripCount.toNat := by
  have positive : 0 < tripCount.toInt := by
    simp only [getTripCountValue] at found
    by_cases small : getSmallConstantTripCount exitCount ≠ 0#32
    · rw [if_pos small] at found
      exact (positiveCount_eq_some found).2
    · rw [if_neg small] at found
      obtain ⟨count, -, found⟩ := Option.bind_eq_some_iff.mp found
      exact (positiveCount_eq_some found).2
  apply Nat.pos_of_ne_zero
  intro zero
  rw [BitVec.toInt_eq_toNat_cond, zero] at positive
  simp at positive

/-- The trip count of scalar evolution, where it is not zero. -/
theorem toNat_getSmallConstantTripCount {exitCount : ExitCount}
    (nonzero : getSmallConstantTripCount (some exitCount) ≠ 0#32) :
    (getSmallConstantTripCount (some exitCount)).toNat = exitCount.bits.toNat + 1 := by
  simp only [getSmallConstantTripCount] at nonzero ⊢
  split at nonzero
  · exact absurd rfl nonzero
  · rename_i small
    rw [if_neg small]
    have positive : (exitCount.bits.setWidth 32 + 1#32).toNat ≠ 0 := fun zero =>
      nonzero (BitVec.eq_of_toNat_eq zero)
    simp only [BitVec.toNat_add, BitVec.toNat_setWidth, BitVec.toNat_ofNat] at positive ⊢
    omega

/-- A nonnegative sign extension to 64 bits keeps an unsigned value of at most 64 bits. -/
theorem toNat_signExtend_of_nonneg {width : Nat} {bits : BitVec width}
    (fits : bits.toNat < 2 ^ 64) (nonneg : 0 ≤ (bits.signExtend 64).toInt) :
    (bits.signExtend 64).toNat = bits.toNat := by
  by_cases narrow : width ≤ 64
  · have kept := BitVec.toInt_signExtend_of_le (x := bits) narrow
    rw [kept] at nonneg
    have unsigned : bits.msb = false := by
      rw [BitVec.msb_eq_toInt]
      exact decide_eq_false (not_lt.mpr nonneg)
    rw [BitVec.signExtend_eq_setWidth_of_msb_false unsigned, BitVec.toNat_setWidth]
    exact Nat.mod_eq_of_lt fits
  · rw [BitVec.signExtend_eq_setWidth_of_le bits (by omega), BitVec.toNat_setWidth]
    exact Nat.mod_eq_of_lt fits

/-- A trip count that is found is the number of body executions, in either form of the test. -/
theorem Loop.toNat_getTripCountValue {loop : Loop} {exitCount : ExitCount} {tripCount : BitVec 64}
    (found : loop.getTripCountValue (some exitCount) = some tripCount)
    (fits : exitCount.bits.toNat < 2 ^ 64) :
    tripCount.toNat = loop.bodyExecutions exitCount.bits.toNat ∧ tripCount.toNat < 2 ^ 63 := by
  simp only [getTripCountValue, Option.bind_some] at found
  unfold bodyExecutions
  by_cases small : getSmallConstantTripCount (some exitCount) ≠ 0#32
  · rw [if_pos small] at found
    obtain ⟨rfl, positive⟩ := positiveCount_eq_some found
    refine ⟨?_, toNat_lt_of_toInt_nonneg positive.le⟩
    have trip := toNat_getSmallConstantTripCount small
    have bound := (getSmallConstantTripCount (some exitCount)).isLt
    cases tested : loop.bottomTested with
    | true =>
        simp only [if_true, BitVec.toNat_setWidth, trip]
        omega
    | false =>
        simp only [Bool.false_eq_true, if_false, BitVec.toNat_setWidth, BitVec.toNat_sub, trip,
          BitVec.toNat_ofNat]
        omega
  · rw [if_neg small] at found
    obtain ⟨rfl, positive⟩ := positiveCount_eq_some found
    have bound := toNat_lt_of_toInt_nonneg positive.le
    refine ⟨?_, bound⟩
    cases tested : loop.bottomTested with
    | true =>
        simp only [tested, if_true] at positive bound ⊢
        have nonneg : 0 ≤ (exitCount.bits.signExtend 64).toInt := by
          have := (exitCount.bits.signExtend 64).isLt
          rw [BitVec.toInt_eq_toNat_cond] at positive ⊢
          rw [BitVec.toNat_add, BitVec.toNat_ofNat] at positive bound
          split at positive <;> split <;> omega
        have kept := toNat_signExtend_of_nonneg fits nonneg
        have := toNat_lt_of_toInt_nonneg nonneg
        rw [BitVec.toNat_add, kept, BitVec.toNat_ofNat]
        omega
    | false =>
        simp only [tested, Bool.false_eq_true, if_false] at positive ⊢
        exact toNat_signExtend_of_nonneg fits positive.le

end Transforms
end TopoLlvm
