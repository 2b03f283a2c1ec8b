import TopoLlvm.Library.Traversal
import TopoLlvm.Transforms.LoopSums

/-!
# The values that leave a loop

When the blocks of a partitioned loop are erased, each phi node of the exit block gets the folded
sum where the loop fed it a sum, and else what the trip count is in its type.  Which of these are
the values that the serial loop leaves depends on what the phi node was fed and on where the loop
tests.
-/

namespace TopoLlvm
namespace Transforms

open Overwrite

namespace Loop

variable (loop : Loop) (interp : Interpretation) (outer : Nat → Value) (memory : Memory)

/-- The frame in which the loop exits. -/
def exitFrame (state : State) : Frame :=
  if loop.shape = .topTested then
    loop.bodyFrame outer state.phis
      (loop.execHeader interp outer memory state.phis state.writes).values
  else loop.fullFrame interp outer memory state

/-- The operand is available where the loop exits. -/
def leavesAvailable (operand : Operand) : Bool :=
  if loop.shape = .topTested then operand.beforeHeader loop.phis.length loop.header.length
  else operand.beforeBody loop.phis.length loop.header.length loop.bodyPhis.length loop.body.length

/-- A phi node of the exit block: its type and its value from the loop. -/
structure LiveOut (loop : Loop) where
  type : PhiType
  incoming : Operand
  available : loop.leavesAvailable incoming = true
  positive : ∀ width, type = .int width → 0 < width
  typedPhi : ∀ index phi, loop.phis[index]? = some phi →
    incoming = .phi index ∨ incoming = phi.next → type = phi.type

/-- What the serial loop leaves to a phi node when it exits after a number of turns. -/
def serialValue (count : Nat) (liveOut : loop.LiveOut) : Option Value :=
  (loop.turns interp outer memory count (loop.start outer)).map fun state =>
    (loop.exitFrame interp outer memory state).resolve liveOut.incoming

end Loop

/-- The values that the tasks leave in their argument structures, part by part.  The number of parts
is a quotient by the chunk size. -/
def LoopParallelConfig.taskSums (config : LoopParallelConfig) (worker : Worker)
    (interp : Interpretation) (captured : List Value) (undef : Value) (memory : Memory)
    (tripCount : BitVec 64) (fuel : Nat) : Option (List (List Value)) :=
  if config.chunkSize = 0#64 then none
  else (config.spawnLoop tripCount fuel 0#64).bind fun parts =>
    parts.mapM fun part =>
      (worker.run interp captured undef memory part.stop fuel (worker.start part.start)).map
        (·.accumulators)

/-- The serial combine of one reduction. -/
def ReductionInfo.combine (info : ReductionInfo) (interp : Interpretation) (slot : Nat)
    (taskSums : List (List Value)) : Value :=
  taskSums.foldl (fun sum task => interp.binary info.opcode sum (task.getD slot default))
    info.getIdentity

namespace Loop

variable (loop : Loop) (interp : Interpretation) (outer : Nat → Value) (memory : Memory)

/-- The combined value of each reduction, with its original initial value. -/
def finalVals (reductions : List ReductionInfo) (taskSums : List (List Value)) : List Value :=
  reductions.mapIdx fun slot info =>
    interp.binary info.opcode ((loop.start outer).phis.getD info.phi default)
      (info.combine interp slot taskSums)

end Loop

/-- The trip count in a type, undefined where the type is no integer type. -/
def PhiType.castTripCount (type : PhiType) (tripCount : BitVec 64) (undef : Value) : Value :=
  match type with
  | .int width =>
      if width = 64 then .int 64 tripCount else .int width (tripCount.signExtend width)
  | .pointer | .float => undef

/-- The reduction whose value reaches a phi node of the exit block. -/
def reductionOf (reductions : List ReductionInfo) (incoming : Operand) : Option Nat :=
  reductions.findIdx? fun info => incoming = .phi info.phi || incoming = info.binop

/-- What a phi node of the exit block gets in place of its value from the loop. -/
def Loop.LiveOut.replacement {loop : Loop} (liveOut : loop.LiveOut)
    (reductions : List ReductionInfo) (finalVals : List Value) (tripCount : BitVec 64)
    (undef : Value) : Value :=
  match reductionOf reductions liveOut.incoming with
  | some slot => finalVals.getD slot default
  | none => liveOut.type.castTripCount tripCount undef

/-! ## What the tasks and the combine compute -/

/-- A worker with turns to spare runs the iterations that remain. -/
theorem Worker.run_of_lt (worker : Worker) (interp : Interpretation) (captured : List Value)
    (undef : Value) (memory : Memory) {stop : BitVec 64} (stop_lt : stop.toNat < 2 ^ 63)
    {remaining fuel : Nat} (enough : remaining < fuel) {state : State}
    (counts : state.index.toNat + remaining = stop.toNat) :
    worker.run interp captured undef memory stop fuel state =
      some ((worker.step interp captured undef memory)^[remaining] state) := by
  induction remaining generalizing fuel state with
  | zero =>
      obtain ⟨fuel, rfl⟩ := Nat.exists_eq_add_of_le' enough
      have done : ¬ state.index.slt stop = true := by
        rw [slt_iff (by omega) stop_lt]
        omega
      rw [run, if_neg done]
      rfl
  | succ remaining ih =>
      obtain ⟨fuel, rfl⟩ := Nat.exists_eq_add_of_le' (Nat.zero_lt_of_lt enough)
      have more : state.index.slt stop = true := by
        rw [slt_iff (by omega) stop_lt]
        omega
      have next : (worker.step interp captured undef memory state).index.toNat =
          state.index.toNat + 1 := by
        simp only [step, BitVec.toNat_add, BitVec.toNat_ofNat]
        omega
      rw [run, if_pos more, ih (by omega) (by omega), Function.iterate_succ_apply]

/-- Every task ends, and leaves the accumulators after its iterations. -/
theorem LoopParallelConfig.taskSums_eq (config : LoopParallelConfig)
    (divides : config.chunkSize ≠ 0#64) (worker : Worker)
    (interp : Interpretation) (captured : List Value) (undef : Value) (memory : Memory)
    {tripCount : BitVec 64} (small : tripCount.toNat < 2 ^ 63) {fuel : Nat}
    (enough : tripCount.toNat + 64 < fuel) :
    config.taskSums worker interp captured undef memory tripCount fuel =
      some ((config.parts tripCount).map fun part =>
        ((worker.step interp captured undef memory)^[part.chunk.length]
          (worker.start part.start)).accumulators) := by
  have parts := (config.numParts_le_maxParts tripCount).trans config.maxParts_le
  rw [taskSums, if_neg divides, spawnLoop_eq_parts (by omega), Option.bind_some]
  have ends : ∀ part ∈ config.parts tripCount,
      (worker.run interp captured undef memory part.stop fuel (worker.start part.start)).map
        (·.accumulators) = some (((worker.step interp captured undef memory)^[part.chunk.length]
          (worker.start part.start)).accumulators) := by
    intro part member
    obtain ⟨index, inside, rfl⟩ := mem_parts.mp member
    have stop_le : (config.spawnPart tripCount index).stop.toNat ≤ tripCount.toNat := by
      rw [toNat_stop inside]
      exact EvenSplit.stop_le_total (config.numParts_mul_partSize_le tripCount) inside
    have ordered : (config.spawnPart tripCount index).start.toNat ≤
        (config.spawnPart tripCount index).stop.toNat := by
      rw [toNat_start inside, toNat_stop inside]
      exact EvenSplit.start_le_stop (config.numParts_mul_partSize_le tripCount) inside
    have length : (config.spawnPart tripCount index).chunk.length =
        (config.spawnPart tripCount index).stop.toNat -
          (config.spawnPart tripCount index).start.toNat := rfl
    have counts : (worker.start (config.spawnPart tripCount index).start).index.toNat +
        (config.spawnPart tripCount index).chunk.length =
          (config.spawnPart tripCount index).stop.toNat := by
      simp only [Worker.start, length]
      omega
    rw [worker.run_of_lt interp captured undef memory (stop_le.trans_lt small) (by omega) counts]
    rfl
  exact Traversal.mapM_of_forall ends

namespace Loop

variable {loop : Loop} {interp : Interpretation} {outer : Nat → Value} {memory : Memory}
  {reductions : List ReductionInfo} {info : ReductionInfo} {width : Nat}
  {onBits : BitVec width → BitVec width → BitVec width} {addends : Nat → BitVec width}

/-- Folding integers. -/
theorem foldl_binary (integral : interp.Integral) {op : BinaryOp} (known : op.onBits = some onBits)
    {slot : Nat} {tasks : List (List Value)} {sums : List (BitVec width)}
    (same : tasks.map (·.getD slot default) = sums.map (.int width)) (bits : BitVec width) :
    tasks.foldl (fun sum task => interp.binary op sum (task.getD slot default))
        (.int width bits) = .int width (sums.foldl onBits bits) := by
  have folded : (tasks.map (·.getD slot default)).foldl (interp.binary op) (.int width bits) =
      .int width (sums.foldl onBits bits) := by
    rw [same]
    clear same
    induction sums generalizing bits with
    | nil => rfl
    | cons sum sums ih =>
        rw [List.map_cons, List.foldl_cons, integral _ _ _ known, ih, List.foldl_cons]
  rwa [List.foldl_map] at folded

/-- The combine of integers adds what all iterations add to the initial value. -/
theorem Sums.finalVals_eq (sums : loop.Sums reductions) (outlinable : loop.Outlinable)
    {index workerWidth : Nat} {next : Operand}
    (induction : loop.IsInduction index workerWidth next) (integral : interp.Integral)
    (undef : Value) {slot : Nat} (found : reductions[slot]? = some info)
    (adds : loop.Adds interp outer memory info width onBits addends) {bits : BitVec width}
    (initial : (loop.start outer).phis.getD info.phi default = .int width bits)
    (config : LoopParallelConfig) (tripCount : BitVec 64) :
    (loop.finalVals interp outer reductions ((config.parts tripCount).map fun part =>
      (((loop.workerOf reductions workerWidth).step interp (loop.collectCaptures.map outer) undef
        memory)^[part.chunk.length]
          ((loop.workerOf reductions workerWidth).start part.start)).accumulators)).getD slot
        default = .int width (((List.range tripCount.toNat).map addends).foldl onBits bits) := by
  obtain ⟨unit, identity, neutral⟩ := neutral_onBits adds.type adds.known
  have assoc := (laws_onBits adds.known).1
  have member := List.mem_of_getElem? found
  let chunks := (config.parts tripCount).map fun part => part.chunk.iterations.map addends
  have parts : ((config.parts tripCount).map fun part =>
      (((loop.workerOf reductions workerWidth).step interp (loop.collectCaptures.map outer) undef
        memory)^[part.chunk.length] ((loop.workerOf reductions workerWidth).start
          part.start)).accumulators).map (·.getD slot default) =
      (chunks.map (·.foldl onBits unit)).map (.int width) := by
    simp only [chunks, List.map_map]
    refine List.map_congr_left fun part _ => ?_
    have chunk := sums.chunk_sum outlinable induction integral undef found adds identity part.chunk
    simpa [SpawnedPart.chunk] using chunk
  have combined := foldl_binary integral adds.known parts unit
  have covered : chunks.flatten = (List.range tripCount.toNat).map addends := by
    rw [← config.flatMap_parts tripCount, List.map_flatMap]
    rfl
  rw [finalVals, List.getD_eq_getElem?_getD, List.getElem?_mapIdx, found, Option.map_some,
    Option.getD_some, initial, ReductionInfo.combine, identity, combined,
    integral _ _ _ adds.known, ChunkFold.op_foldl_chunks neutral, covered]

/-! ## The values at the exit -/

/-- The value is the induction variable where the loop tests at its top, or its increment where the
loop tests at its bottom. -/
def LiveOut.Counts (liveOut : loop.LiveOut) : Prop :=
  ∃ index phi, loop.canonicalInductionVariable = some index ∧ loop.phis[index]? = some phi ∧
    (loop.shape = .topTested ∧ liveOut.incoming = .phi index ∨
      loop.shape ≠ .topTested ∧ liveOut.incoming = phi.next)

/-- The value is the induction variable or its increment. -/
def LiveOut.Inducts (liveOut : loop.LiveOut) : Prop :=
  ∃ index phi, loop.canonicalInductionVariable = some index ∧ loop.phis[index]? = some phi ∧
    (liveOut.incoming = .phi index ∨ liveOut.incoming = phi.next)

theorem reached_start (canonical : loop.canonicalInductionVariable ≠ none) (interp : Interpretation)
    (outer : Nat → Value) : loop.Reached interp 0 (loop.start outer) :=
  ⟨atIteration_start outer canonical, fun _ => rfl⟩

theorem exitFrame_phi (state : State) (index : Nat) :
    (loop.exitFrame interp outer memory state).resolve (.phi index) =
      state.phis.getD index default := by
  unfold exitFrame
  split <;> rfl

/-- A value that is available at the exit is one of the last iteration. -/
theorem exitFrame_resolve (state : State) {operand : Operand}
    (available : loop.leavesAvailable operand = true) :
    (loop.exitFrame interp outer memory state).resolve operand =
      (loop.fullFrame interp outer memory state).resolve operand := by
  unfold exitFrame
  split
  · rename_i top
    rw [leavesAvailable, if_pos top] at available
    cases operand with
    | bodyPhi index => cases available
    | body index => cases available
    | _ => rfl
  · rfl

/-- The increment at the exit. -/
theorem IsInduction.exitFrame_next {index width : Nat} {next : Operand}
    (induction : loop.IsInduction index width next) {count : Nat} {state : State}
    (current : loop.AtIteration count state.phis) (available : loop.leavesAvailable next = true) :
    (loop.exitFrame interp outer memory state).resolve next =
      .int width (BitVec.ofNat width (count + 1)) := by
  have visible : ¬ loop.Carried index := fun carried => carried.2 induction.canonical
  have counts := current.agree index visible
  rw [induction.phisAt_getD] at counts
  rw [exitFrame_resolve state available, BitVec.ofNat_add]
  exact induction.next counts state.writes

end Loop

/-- The trip count in an integer type. -/
theorem castTripCount_int {width : Nat} {tripCount : BitVec 64} (small : tripCount.toNat < 2 ^ 63)
    (undef : Value) : (PhiType.int width).castTripCount tripCount undef =
      .int width (BitVec.ofNat width tripCount.toNat) := by
  have extended : tripCount.signExtend width = BitVec.ofNat width tripCount.toNat := by
    have positive : tripCount.msb = false := by
      rw [BitVec.msb_eq_decide]
      simpa using small
    rw [BitVec.signExtend_eq_setWidth_of_msb_false positive, BitVec.ofNat_toNat]
  unfold PhiType.castTripCount
  simp only
  split
  · rename_i wide
    subst wide
    simp
  · rw [extended]

theorem ofNat_succ_ne {width : Nat} (positive : 0 < width) (count : Nat) :
    BitVec.ofNat width (count + 1) ≠ BitVec.ofNat width count := by
  intro same
  have one : BitVec.ofNat width 1 = BitVec.ofNat width 0 := by
    rw [BitVec.ofNat_add] at same
    exact BitVec.add_right_eq_self.mp same
  have value := congrArg BitVec.toNat one
  rw [BitVec.toNat_ofNat, BitVec.toNat_ofNat, Nat.zero_mod,
    Nat.mod_eq_of_lt (Nat.one_lt_two_pow positive.ne')] at value
  cases value

namespace Loop

variable {loop : Loop} {interp : Interpretation} {outer : Nat → Value} {memory : Memory}
  {reductions : List ReductionInfo}

/-- A reduction feeds the phi node, with its sum or the update of it. -/
def LiveOut.FedBy (liveOut : loop.LiveOut) (info : ReductionInfo) : Prop :=
  liveOut.incoming = .phi info.phi ∨ liveOut.incoming = info.binop

/-- A value that no reduction carries gets the trip count. -/
theorem replacement_eq_cast {liveOut : loop.LiveOut} {finalVals : List Value}
    {tripCount : BitVec 64} {undef : Value}
    (other : ∀ info ∈ reductions, ¬ liveOut.FedBy info) :
    liveOut.replacement reductions finalVals tripCount undef =
      liveOut.type.castTripCount tripCount undef := by
  have none : reductionOf reductions liveOut.incoming = none := by
    rw [reductionOf, List.findIdx?_eq_none_iff]
    intro info member
    simpa [LiveOut.FedBy] using other info member
  rw [LiveOut.replacement, none]

/-- Neither the induction variable nor its increment is the value of a reduction. -/
theorem Sums.other_of_inducts (sums : loop.Sums reductions) {liveOut : loop.LiveOut}
    (inducts : liveOut.Inducts) : ∀ info ∈ reductions, ¬ liveOut.FedBy info := by
  obtain ⟨index, phi, canonical, found, same⟩ := inducts
  intro info member
  obtain ⟨position, left, right, updates⟩ := sums.updates info member
  obtain ⟨carrying, carryingFound, next, -⟩ := updates.phi
  have carried := sums.carried info member
  obtain ⟨other, width, increment, induction⟩ := exists_induction sums.accepted.induction
  obtain rfl : other = index := Option.some.inj (induction.canonical.symm.trans canonical)
  obtain rfl : _ = phi := Option.some.inj (induction.found.symm.trans found)
  have definition := induction.increment
  rintro (fed | fed)
  · rcases same with same | same
    · rw [fed, Operand.phi.injEq] at same
      exact carried.2 (same ▸ canonical)
    · rw [fed] at same
      simp only at same
      rw [← same] at definition
      cases definition
  · rcases same with same | same
    · rw [same, updates.binop] at fed
      cases fed
    · -- The update of a reduction has one user, the phi node that carries the sum.
      obtain ⟨own, inst, reduction⟩ := sums.accepted.isReduction carried
      obtain rfl : own = carrying :=
        Option.some.inj (reduction.found.symm.trans carryingFound)
      have uses := mem_users_phi induction.found
      rw [← same, fed, updates.binop, ← next] at uses
      have here := User.phi.inj (reduction.updateUsers _ uses)
      exact carried.2 (here ▸ canonical)


/-! ## The exit test -/

/-- A loop exits where its test says so. -/
theorem exit_leaves_of_turn_leave {state : State} {result : Result}
    (leaves : loop.turn interp outer memory state = .leave result) :
    loop.exit.leaves ((loop.exitFrame interp outer memory state).resolve loop.exit.condition) =
      true := by
  unfold turn at leaves
  unfold exitFrame
  dsimp only at leaves
  split at leaves
  · rename_i top
    rw [if_pos top.1]
    exact top.2
  · split at leaves
    · rename_i bottom
      rw [if_neg bottom.1]
      exact bottom.2
    · cases leaves

theorem not_exit_leaves_of_turn_again {state next : State}
    (went : loop.turn interp outer memory state = .again next) :
    ¬ loop.exit.leaves ((loop.exitFrame interp outer memory state).resolve loop.exit.condition) =
      true := by
  unfold turn at went
  unfold exitFrame
  dsimp only at went
  split at went
  · cases went
  · rename_i header
    split at went
    · cases went
    · rename_i body
      split
      · rename_i top
        exact fun leaves => header ⟨top, leaves⟩
      · rename_i bottom
        exact fun leaves => body ⟨bottom, leaves⟩

/-- What the loop computes last is a matter of the number of the iteration, but for sums. -/
theorem Accepted.exitFrame_resolve (accepted : loop.Accepted reductions) {count : Nat}
    {state : State} (reached : loop.Reached interp count state) {operand : Operand}
    (visible : ∀ index, operand = .phi index → ¬ loop.Carried index)
    (unhidden : ¬ loop.Accumulates operand) :
    (loop.exitFrame interp outer memory state).resolve operand =
      (loop.exitFrame interp outer memory
        { phis := loop.phisAt count, writes := [], log := [] }).resolve operand := by
  unfold exitFrame
  split
  · have inFull : (loop.fullFrame interp outer memory state).resolve operand =
        (loop.fullFrame interp outer memory
          { phis := loop.phisAt count, writes := [], log := [] }).resolve operand :=
      accepted.fullFrame_resolve reached visible unhidden
    cases operand with
    | body index => rfl
    | _ => exact inFull
  · exact accepted.fullFrame_resolve reached visible unhidden

/-- A run of rounds goes on from the state after its first rounds. -/
theorem turns_add {first rest : Nat} {state last : State}
    (rounds : loop.turns interp outer memory (first + rest) state = some last) :
    ∃ mid, loop.turns interp outer memory first state = some mid ∧
      loop.turns interp outer memory rest mid = some last := by
  induction first generalizing state with
  | zero => exact ⟨state, rfl, by rwa [Nat.zero_add] at rounds⟩
  | succ first ih =>
      rw [Nat.succ_add, turns] at rounds
      rw [turns]
      cases went : loop.turn interp outer memory state with
      | leave result => simp only [went, reduceCtorEq] at rounds
      | again next =>
          simp only [went] at rounds
          exact ih rounds

theorem reached_turns (canonical : loop.canonicalInductionVariable ≠ none) {count : Nat}
    {state : State} (rounds : loop.turns interp outer memory count (loop.start outer) = some state) :
    loop.Reached interp count state := by
  have reached : loop.Reached interp (0 + count)
      ((loop.iterate interp outer memory)^[count] (loop.start outer)) :=
    (reached_start canonical interp outer).iterates canonical count
  rwa [Nat.zero_add, ← turns_eq_iterate rounds] at reached

theorem phisAt_add_pow {index width : Nat} {next : Operand}
    (induction : loop.IsInduction index width next) (count : Nat) :
    loop.phisAt (count + 2 ^ width) = loop.phisAt count := by
  refine List.ext_getElem? fun other => ?_
  simp only [phisAt, List.getElem?_mapIdx]
  cases found : loop.phis[other]? with
  | none => rfl
  | some phi =>
      simp only [Option.map_some]
      cases type : phi.type with
      | int wide =>
          by_cases same : loop.canonicalInductionVariable = some other
          · obtain rfl : index = other := Option.some.inj (induction.canonical.symm.trans same)
            rw [induction.found] at found
            cases found
            cases type
            have round : BitVec.ofNat width (2 ^ width) = BitVec.ofNat width 0 :=
              BitVec.eq_of_toNat_eq (by
                rw [BitVec.toNat_ofNat, BitVec.toNat_ofNat, Nat.mod_self, Nat.zero_mod])
            simp only [if_pos same, BitVec.ofNat_add, round, BitVec.add_zero]
          · simp only [if_neg same]
      | _ => rfl

/-- No sum reaches the exit test. -/
theorem Accepted.exit_visible (accepted : loop.Accepted reductions) :
    (∀ index, loop.exit.condition = .phi index → ¬ loop.Carried index) ∧
      ¬ loop.Accumulates loop.exit.condition := by
  have uses : User.exit ∈ loop.users loop.exit.condition := by simp [users]
  refine ⟨fun index same carried => ?_, fun accumulates => ?_⟩
  · rw [same] at uses
    obtain ⟨operand, -, asUser⟩ := accepted.user_of_carried carried uses
    cases operand <;> cases asUser
  · obtain ⟨index, -, same⟩ := accepted.user_of_accumulates accumulates uses
    cases same

/-- A loop that exits does so before its induction variable is back where it began. -/
theorem Accepted.count_lt (accepted : loop.Accepted reductions) {index width : Nat}
    {next : Operand} (induction : loop.IsInduction index width next) {count : Nat}
    (taken : loop.takesBackedge interp outer memory count) : count < 2 ^ width := by
  by_contra late
  obtain ⟨earlier, rfl⟩ := Nat.exists_eq_add_of_le' (not_lt.mp late)
  obtain ⟨last, result, rounds, leaves⟩ := taken
  obtain ⟨mid, before, after⟩ := turns_add rounds
  obtain ⟨visible, unhidden⟩ := accepted.exit_visible
  have exits := exit_leaves_of_turn_leave leaves
  rw [accepted.exitFrame_resolve (reached_turns accepted.induction rounds) visible unhidden,
    phisAt_add_pow induction, ← accepted.exitFrame_resolve
      (reached_turns accepted.induction before) visible unhidden] at exits
  -- The test that ends the loop has been passed one cycle of the induction variable earlier.
  obtain ⟨more, cycle⟩ := Nat.exists_eq_add_of_lt (Nat.two_pow_pos width)
  rw [cycle, Nat.zero_add, turns] at after
  cases went : loop.turn interp outer memory mid with
  | leave other => simp only [went, reduceCtorEq] at after
  | again next => exact not_exit_leaves_of_turn_again went exits

/-! ## Sums at the exit -/

variable {info : ReductionInfo} {width : Nat} {onBits : BitVec width → BitVec width → BitVec width}
  {addends : Nat → BitVec width} {bits : BitVec width}

/-- One reduction feeds a phi node. -/
theorem Sums.fedBy_unique (sums : loop.Sums reductions) {liveOut : loop.LiveOut}
    {other : ReductionInfo} (member : info ∈ reductions) (otherMember : other ∈ reductions)
    (fed : liveOut.FedBy info) (also : liveOut.FedBy other) : info = other := by
  obtain ⟨position, left, right, updates⟩ := sums.updates info member
  obtain ⟨otherPosition, otherLeft, otherRight, otherUpdates⟩ := sums.updates other otherMember
  have same : info.phi = other.phi := by
    rcases fed with fed | fed <;> rcases also with also | also <;> rw [fed] at also
    · exact Operand.phi.inj also
    · rw [otherUpdates.binop] at also
      cases also
    · rw [updates.binop] at also
      cases also
    · obtain ⟨phi, found, next, -⟩ := updates.phi
      obtain ⟨otherPhi, otherFound, otherNext, -⟩ := otherUpdates.phi
      obtain ⟨own, inst, reduction⟩ := sums.accepted.isReduction (sums.carried info member)
      obtain rfl : own = phi := Option.some.inj (reduction.found.symm.trans found)
      have uses := mem_users_phi otherFound
      rw [otherNext, ← otherUpdates.binop, ← also, updates.binop, ← next] at uses
      exact (User.phi.inj (reduction.updateUsers _ uses)).symm
  have detected := sums.detected other otherMember
  rw [← same, sums.detected info member] at detected
  exact Option.some.inj detected

/-- The phi node gets the combined value of the reduction that feeds it. -/
theorem Sums.replacement_eq_sum (sums : loop.Sums reductions) {liveOut : loop.LiveOut}
    (member : info ∈ reductions) (fed : liveOut.FedBy info) :
    ∃ slot, reductions[slot]? = some info ∧ ∀ finalVals tripCount undef,
      liveOut.replacement reductions finalVals tripCount undef = finalVals.getD slot default := by
  cases found : reductionOf reductions liveOut.incoming with
  | none =>
      rw [reductionOf, List.findIdx?_eq_none_iff] at found
      have absent := found info member
      rcases fed with fed | fed <;> simp [fed] at absent
  | some slot =>
      obtain ⟨bound, feeds, -⟩ := List.findIdx?_eq_some_iff_getElem.mp found
      have also : liveOut.FedBy reductions[slot] := by simpa [LiveOut.FedBy] using feeds
      have same := sums.fedBy_unique member (List.getElem_mem bound) fed also
      refine ⟨slot, ?_, fun finalVals tripCount undef => ?_⟩
      · rw [same, List.getElem?_eq_getElem bound]
      · rw [LiveOut.replacement, found]

/-- The sum after some iterations. -/
def sumAfter (onBits : BitVec width → BitVec width → BitVec width) (addends : Nat → BitVec width)
    (bits : BitVec width) (count : Nat) : BitVec width :=
  ((List.range count).map addends).foldl onBits bits

theorem sumAfter_succ (count : Nat) : sumAfter onBits addends bits (count + 1) =
    onBits (sumAfter onBits addends bits count) (addends count) := by
  simp [sumAfter, List.range_succ]

theorem Sums.iterates_start (sums : loop.Sums reductions) (integral : interp.Integral)
    (member : info ∈ reductions) (adds : loop.Adds interp outer memory info width onBits addends)
    (initial : (loop.start outer).phis.getD info.phi default = .int width bits) (count : Nat) :
    ((loop.iterate interp outer memory)^[count] (loop.start outer)).phis.getD info.phi default =
      .int width (sumAfter onBits addends bits count) := by
  rw [sumAfter, List.range_eq_range']
  exact sums.iterates_sum integral member adds (reached_start sums.accepted.induction interp outer)
    initial count

/-- What a sum or its update is where the serial loop exits. -/
theorem Sums.exitFrame_sum (sums : loop.Sums reductions) (integral : interp.Integral)
    (member : info ∈ reductions) (adds : loop.Adds interp outer memory info width onBits addends)
    (initial : (loop.start outer).phis.getD info.phi default = .int width bits) {count : Nat}
    {state : State} (rounds : loop.turns interp outer memory count (loop.start outer) = some state) :
    (loop.exitFrame interp outer memory state).resolve (.phi info.phi) =
        .int width (sumAfter onBits addends bits count) ∧
      (loop.shape ≠ .topTested → (loop.exitFrame interp outer memory state).resolve info.binop =
        .int width (sumAfter onBits addends bits (count + 1))) := by
  have reached := turns_eq_iterate rounds
  constructor
  · rw [exitFrame_phi, reached]
    exact sums.iterates_start integral member adds initial count
  · intro bottom
    obtain ⟨position, left, right, updates⟩ := sums.updates info member
    obtain ⟨phi, found, next, -⟩ := updates.phi
    have after := sums.iterates_start integral member adds initial (count + 1)
    rw [Function.iterate_succ_apply', ← reached, iterate_getD interp outer memory found, next]
      at after
    rw [exitFrame, if_neg bottom, updates.binop]
    exact after

/-- An update in the latch block is not available where a loop exits that tests at its top. -/
theorem Sums.bottom_of_binop (sums : loop.Sums reductions) (member : info ∈ reductions)
    {liveOut : loop.LiveOut} (fed : liveOut.incoming = info.binop) : loop.shape ≠ .topTested := by
  intro top
  obtain ⟨position, left, right, updates⟩ := sums.updates info member
  have available := liveOut.available
  rw [leavesAvailable, if_pos top, fed, updates.binop] at available
  cases available

/-! ## Which phi nodes of the exit block keep their value -/

/-- The value that the last iteration, which its number determines, has for a phi node. -/
def LiveOut.atExit (liveOut : loop.LiveOut) (interp : Interpretation) (outer : Nat → Value)
    (memory : Memory) (count : Nat) : Value :=
  (loop.exitFrame interp outer memory
    { phis := loop.phisAt count, writes := [], log := [] }).resolve liveOut.incoming

/-- A phi node gets what the serial loop leaves to it, whatever an undefined value is. -/
def LiveOut.Preserved (liveOut : loop.LiveOut) (config : LoopParallelConfig) (worker : Worker)
    (interp : Interpretation) (outer : Nat → Value) (memory : Memory)
    (reductions : List ReductionInfo) (count : Nat) (tripCount : BitVec 64) : Prop :=
  ∃ value, loop.serialValue interp outer memory count liveOut = some value ∧
    ∀ undef, ∃ turns, ∀ fuel, turns < fuel → ∃ taskSums,
      config.taskSums worker interp (worker.captures.map outer) undef memory tripCount fuel =
        some taskSums ∧
      liveOut.replacement reductions (loop.finalVals interp outer reductions taskSums) tripCount
        undef = value

/-- A sum of integers feeds the phi node, and the sum over all iterations is what the loop leaves
there: it tests at its top, or leaves the update, or its last iteration adds nothing. -/
structure LiveOut.Totals (liveOut : loop.LiveOut) (interp : Interpretation) (outer : Nat → Value)
    (memory : Memory) (count : Nat) (info : ReductionInfo) (width : Nat)
    (onBits : BitVec width → BitVec width → BitVec width) (addends : Nat → BitVec width)
    (bits : BitVec width) : Prop where
  adds : loop.Adds interp outer memory info width onBits addends
  initial : (loop.start outer).phis.getD info.phi default = .int width bits
  whole : loop.shape = .topTested ∨ liveOut.incoming = info.binop ∨
    onBits (sumAfter onBits addends bits count) (addends count) =
      sumAfter onBits addends bits count

/-- The phi nodes that keep their value. -/
inductive LiveOut.Kept (liveOut : loop.LiveOut) (interp : Interpretation) (outer : Nat → Value)
    (memory : Memory) (reductions : List ReductionInfo) (count : Nat) (tripCount : BitVec 64) :
    Prop
  | counts (counts : liveOut.Counts)
  /-- Any other integer that no reduction carries, if the last iteration computes the trip count. -/
  | computed (width : Nat) (unfed : ∀ info ∈ reductions, ¬ liveOut.FedBy info)
      (other : ¬ liveOut.Inducts) (type : liveOut.type = .int width)
      (value : liveOut.atExit interp outer memory count =
        .int width (BitVec.ofNat width tripCount.toNat))
  | totals (info : ReductionInfo) (member : info ∈ reductions) (fed : liveOut.FedBy info)
      (outlinable : loop.Outlinable) (width : Nat)
      (onBits : BitVec width → BitVec width → BitVec width) (addends : Nat → BitVec width)
      (bits : BitVec width)
      (totals : liveOut.Totals interp outer memory count info width onBits addends bits)

/-- If a reduction feeds the phi node, it is a sum of integers, and the worker has all that the
sum is made of. -/
def LiveOut.Integral (liveOut : loop.LiveOut) (interp : Interpretation) (outer : Nat → Value)
    (memory : Memory) (reductions : List ReductionInfo) : Prop :=
  ∀ info ∈ reductions, liveOut.FedBy info → loop.Outlinable ∧
    ∃ (width : Nat) (onBits : BitVec width → BitVec width → BitVec width)
      (addends : Nat → BitVec width) (bits : BitVec width),
      loop.Adds interp outer memory info width onBits addends ∧
        (loop.start outer).phis.getD info.phi default = .int width bits

/-- A value that no reduction carries is not hidden in a sum. -/
theorem Accepted.visible_of_unfed (accepted : loop.Accepted reductions) {liveOut : loop.LiveOut}
    (unfed : ∀ info ∈ reductions, ¬ liveOut.FedBy info) :
    (∀ index, liveOut.incoming = .phi index → ¬ loop.Carried index) ∧
      ¬ loop.Accumulates liveOut.incoming := by
  refine ⟨fun index same carried => ?_, ?_⟩
  · obtain ⟨info, member, detected⟩ := accepted.carried index carried.1 carried.2
    obtain ⟨phi, inst, -, rfl, -⟩ := detectReduction_spec detected
    exact unfed info member (.inl same)
  · rintro ⟨index, phi, carried, found, same⟩
    obtain ⟨info, member, detected⟩ := accepted.carried index carried.1 carried.2
    obtain ⟨own, inst, reduction, -, binop⟩ := detectReduction_spec detected
    obtain rfl : own = phi := Option.some.inj (reduction.found.symm.trans found)
    exact unfed info member (.inr (same.symm.trans binop.symm))

theorem atIteration_phisAt (count : Nat) : loop.AtIteration count (loop.phisAt count) :=
  ⟨fun _ _ => rfl, by simp [phisAt]⟩

/-- The number that the induction variable or its increment is in the last iteration: the number of
iterations where it counts, and one less or one more elsewhere. -/
theorem LiveOut.Inducts.atExit {liveOut : loop.LiveOut} (inducts : liveOut.Inducts)
    (interp : Interpretation) (outer : Nat → Value) (memory : Memory) (count : Nat) :
    ∃ width number, liveOut.type = .int width ∧
      liveOut.atExit interp outer memory count = .int width (BitVec.ofNat width number) ∧
      (liveOut.Counts ∧ number = loop.bodyExecutions count ∨
        ¬ liveOut.Counts ∧ (number + 1 = loop.bodyExecutions count ∨
          number = loop.bodyExecutions count + 1)) := by
  obtain ⟨index, phi, canonical, found, same⟩ := inducts
  obtain ⟨other, width, next, induction⟩ := exists_induction (canonical ▸ Option.some_ne_none index)
  obtain rfl : other = index := Option.some.inj (induction.canonical.symm.trans canonical)
  obtain rfl : _ = phi := Option.some.inj (induction.found.symm.trans found)
  have type := liveOut.typedPhi other _ induction.found same
  have differs : Operand.phi other ≠ next := by
    rintro rfl
    cases induction.increment
  have counts : liveOut.Counts ↔ loop.shape = .topTested ∧ liveOut.incoming = .phi other ∨
      loop.shape ≠ .topTested ∧ liveOut.incoming = next := by
    constructor
    · rintro ⟨index, phi, chosen, there, form⟩
      obtain rfl : other = index := Option.some.inj (canonical.symm.trans chosen)
      obtain rfl : _ = phi := Option.some.inj (induction.found.symm.trans there)
      exact form
    · exact fun form => ⟨other, _, canonical, induction.found, form⟩
  rw [counts]
  rcases same with same | same
  · refine ⟨width, count, type, ?_, ?_⟩
    · rw [LiveOut.atExit, same, exitFrame_phi]
      exact induction.phisAt_getD count
    · by_cases top : loop.shape = .topTested <;>
        simp [bodyExecutions, bottomTested, top, same, differs]
  · refine ⟨width, count + 1, type, ?_, ?_⟩
    · have available := liveOut.available
      rw [same] at available
      rw [LiveOut.atExit, same]
      exact induction.exitFrame_next (atIteration_phisAt count) available
    · by_cases top : loop.shape = .topTested <;>
        simp [bodyExecutions, bottomTested, top, same, differs.symm]

/-- A phi node that no reduction feeds keeps its value exactly if that is the trip count. -/
theorem kept_iff_of_unfed {liveOut : loop.LiveOut}
    (unfed : ∀ info ∈ reductions, ¬ liveOut.FedBy info) {count : Nat} {tripCount : BitVec 64}
    (executions : tripCount.toNat = loop.bodyExecutions count) :
    liveOut.Kept interp outer memory reductions count tripCount ↔
      ∃ width, liveOut.type = .int width ∧ liveOut.atExit interp outer memory count =
        .int width (BitVec.ofNat width tripCount.toNat) := by
  rw [executions]
  constructor
  · intro kept
    cases kept with
    | counts counts =>
        obtain ⟨index, phi, canonical, found, form⟩ := id counts
        have inducts : liveOut.Inducts :=
          ⟨index, phi, canonical, found, form.imp And.right And.right⟩
        obtain ⟨width, number, type, value, ⟨-, rfl⟩ | ⟨off, -⟩⟩ :=
          inducts.atExit interp outer memory count
        · exact ⟨width, type, value⟩
        · exact absurd counts off
    | computed width _ other type value => exact ⟨width, type, executions ▸ value⟩
    | totals info member fed => exact absurd fed (unfed info member)
  · rintro ⟨width, type, value⟩
    by_cases inducts : liveOut.Inducts
    · obtain ⟨other, number, same, number_eq, ⟨counts, -⟩ | ⟨-, off⟩⟩ :=
        inducts.atExit interp outer memory count
      · exact .counts counts
      · -- One less or one more is another number of the type.
        rw [type] at same
        cases same
        rw [value] at number_eq
        have equal := eq_of_heq (Value.int.inj number_eq).2
        rcases off with off | off
        · rw [← off] at equal
          exact absurd equal (ofNat_succ_ne (liveOut.positive width type) number)
        · rw [off] at equal
          exact absurd equal.symm (ofNat_succ_ne (liveOut.positive width type) _)
    · exact .computed width unfed inducts type (executions.symm ▸ value)


/-- What is left to a phi node, by the sums of the parts. -/
theorem preserved_iff {liveOut : loop.LiveOut} {config : LoopParallelConfig}
    (divides : config.chunkSize ≠ 0#64) {worker : Worker} {count : Nat} {tripCount : BitVec 64}
    (small : tripCount.toNat < 2 ^ 63) {last : State}
    (rounds : loop.turns interp outer memory count (loop.start outer) = some last) :
    liveOut.Preserved config worker interp outer memory reductions count tripCount ↔
      ∀ undef, liveOut.replacement reductions (loop.finalVals interp outer reductions
        ((config.parts tripCount).map fun part =>
          ((worker.step interp (worker.captures.map outer) undef memory)^[part.chunk.length]
            (worker.start part.start)).accumulators)) tripCount undef =
        (loop.exitFrame interp outer memory last).resolve liveOut.incoming := by
  have serial : loop.serialValue interp outer memory count liveOut =
      some ((loop.exitFrame interp outer memory last).resolve liveOut.incoming) := by
    rw [serialValue, rounds, Option.map_some]
  unfold LiveOut.Preserved
  rw [serial]
  simp only [Option.some.injEq, exists_eq_left']
  refine forall_congr' fun undef => ?_
  have sums : ∀ fuel, tripCount.toNat + 64 < fuel → config.taskSums worker interp
      (worker.captures.map outer) undef memory tripCount fuel = _ := fun fuel enough =>
    config.taskSums_eq divides worker interp (worker.captures.map outer) undef memory small enough
  constructor
  · rintro ⟨turns, enough⟩
    obtain ⟨taskSums, computed, same⟩ :=
      enough (turns + (tripCount.toNat + 64) + 1) (by omega)
    rw [sums _ (by omega), Option.some.injEq] at computed
    rwa [computed]
  · intro same
    exact ⟨_, fun fuel enough => ⟨_, sums fuel enough, same⟩⟩

/-- A phi node that no reduction feeds gets what it had exactly if it is kept. -/
theorem preserved_iff_of_unfed (sums : loop.Sums reductions) {liveOut : loop.LiveOut}
    (unfed : ∀ info ∈ reductions, ¬ liveOut.FedBy info) {config : LoopParallelConfig}
    (divides : config.chunkSize ≠ 0#64) {worker : Worker} {count : Nat} {tripCount : BitVec 64}
    (executions : tripCount.toNat = loop.bodyExecutions count) (small : tripCount.toNat < 2 ^ 63)
    {last : State} (rounds : loop.turns interp outer memory count (loop.start outer) = some last) :
    liveOut.Preserved config worker interp outer memory reductions count tripCount ↔
      liveOut.Kept interp outer memory reductions count tripCount := by
  obtain ⟨visible, unhidden⟩ := sums.accepted.visible_of_unfed unfed
  have value : (loop.exitFrame interp outer memory last).resolve liveOut.incoming =
      liveOut.atExit interp outer memory count :=
    sums.accepted.exitFrame_resolve (reached_turns sums.accepted.induction rounds) visible unhidden
  rw [preserved_iff divides small rounds, kept_iff_of_unfed unfed executions, value]
  simp only [replacement_eq_cast unfed]
  constructor
  · intro same
    cases type : liveOut.type with
    | int width =>
        have cast := same default
        rw [type, castTripCount_int small] at cast
        exact ⟨width, rfl, cast.symm⟩
    | _ =>
        -- The undefined value may be another one than the loop leaves.
        obtain ⟨other, differs⟩ := exists_other_value (liveOut.atExit interp outer memory count)
        have cast := same other
        rw [type] at cast
        exact absurd cast differs
  · rintro ⟨width, type, same⟩ undef
    rw [type, castTripCount_int small]
    exact same.symm

/-- A phi node that a sum of integers feeds gets what it had exactly if it is kept. -/
theorem preserved_iff_of_fed (sums : loop.Sums reductions) (integral : interp.Integral)
    {liveOut : loop.LiveOut} (member : info ∈ reductions) (fed : liveOut.FedBy info)
    (outlinable : loop.Outlinable)
    (adds : loop.Adds interp outer memory info width onBits addends)
    (initial : (loop.start outer).phis.getD info.phi default = .int width bits)
    {config : LoopParallelConfig} (divides : config.chunkSize ≠ 0#64) {index workerWidth : Nat}
    {next : Operand} (induction : loop.IsInduction index workerWidth next) {count : Nat}
    {tripCount : BitVec 64} (executions : tripCount.toNat = loop.bodyExecutions count)
    (small : tripCount.toNat < 2 ^ 63) {last : State}
    (rounds : loop.turns interp outer memory count (loop.start outer) = some last) :
    liveOut.Preserved config (loop.workerOf reductions workerWidth) interp outer memory reductions
        count tripCount ↔
      liveOut.Totals interp outer memory count info width onBits addends bits := by
  obtain ⟨slot, found, replaced⟩ := sums.replacement_eq_sum member fed
  obtain ⟨sum, update⟩ := sums.exitFrame_sum integral member adds initial rounds
  have total : ∀ undef, _ = Value.int width (sumAfter onBits addends bits tripCount.toNat) :=
    fun undef => sums.finalVals_eq outlinable induction integral undef found adds initial config
      tripCount
  rw [preserved_iff divides small rounds]
  simp only [replaced]
  have asTotal : (∀ undef, (loop.finalVals interp outer reductions
        ((config.parts tripCount).map fun part =>
          (((loop.workerOf reductions workerWidth).step interp
            ((loop.workerOf reductions workerWidth).captures.map outer) undef
              memory)^[part.chunk.length] ((loop.workerOf reductions workerWidth).start
                part.start)).accumulators)).getD slot default =
        (loop.exitFrame interp outer memory last).resolve liveOut.incoming) ↔
      Value.int width (sumAfter onBits addends bits (loop.bodyExecutions count)) =
        (loop.exitFrame interp outer memory last).resolve liveOut.incoming := by
    rw [← executions]
    exact ⟨fun same => (total default).symm.trans (same default),
      fun same undef => (total undef).trans same⟩
  rw [asTotal]
  by_cases top : loop.shape = .topTested
  · have own : liveOut.incoming = .phi info.phi :=
      fed.resolve_right fun update => sums.bottom_of_binop member update top
    have executions : loop.bodyExecutions count = count := by
      simp [bodyExecutions, bottomTested, top]
    rw [executions, own, sum]
    exact iff_of_true rfl ⟨adds, initial, .inl top⟩
  · have executions : loop.bodyExecutions count = count + 1 := by
      simp [bodyExecutions, bottomTested, top]
    rw [executions]
    rcases fed with own | own
    · obtain ⟨position, left, right, updates⟩ := sums.updates info member
      have other : liveOut.incoming ≠ info.binop := by simp [own, updates.binop]
      rw [own, sum, sumAfter_succ, Value.int.injEq]
      constructor
      · rintro ⟨-, idle⟩
        exact ⟨adds, initial, .inr (.inr (eq_of_heq idle))⟩
      · rintro ⟨-, -, whole⟩
        exact ⟨rfl, heq_of_eq ((whole.resolve_left top).resolve_left other)⟩
    · rw [own, update top]
      exact iff_of_true rfl ⟨adds, initial, .inr (.inl own)⟩

/-- A loop that is outlined leaves to a phi node of the exit block what the serial loop does if
and, unless a sum feeds it that is none of integers, only if the phi node is kept. -/
theorem exit_phis (loop : Loop) (interp : Interpretation) (integral : interp.Integral)
    (config : LoopParallelConfig) (divides : config.chunkSize ≠ 0#64) (reductionEnabled : Bool)
    (exitCount : ExitCount) {reductions : List ReductionInfo} {tripCount : BitVec 64}
    {worker : Worker}
    (partitioned :
      loop.partitionLoop reductionEnabled (some exitCount) = some (reductions, tripCount))
    (outlined : loop.outlineLoopBody reductions = some worker) (outer : Nat → Value)
    (memory : Memory) (taken : loop.takesBackedge interp outer memory exitCount.bits.toNat)
    (liveOut : loop.LiveOut) :
    (liveOut.Kept interp outer memory reductions exitCount.bits.toNat tripCount →
      liveOut.Preserved config worker interp outer memory reductions exitCount.bits.toNat
        tripCount) ∧
    (liveOut.Integral interp outer memory reductions →
      liveOut.Preserved config worker interp outer memory reductions exitCount.bits.toNat
        tripCount →
      liveOut.Kept interp outer memory reductions exitCount.bits.toNat tripCount) := by
  have sums := sums_of_partitionLoop partitioned
  obtain ⟨width, inductionWidth, narrow, rfl⟩ := outlineLoopBody_eq_some.mp outlined
  obtain ⟨index, other, next, induction⟩ := exists_induction sums.accepted.induction
  obtain rfl : width = other :=
    Option.some.inj (inductionWidth.symm.trans induction.inductionWidth)
  have fits : exitCount.bits.toNat < 2 ^ 64 :=
    (sums.accepted.count_lt induction taken).trans_le (Nat.pow_le_pow_right (by decide) narrow)
  obtain ⟨executions, small⟩ := toNat_getTripCountValue (partitionLoop_eq_some partitioned).2 fits
  obtain ⟨last, -, rounds, -⟩ := taken
  by_cases unfed : ∀ info ∈ reductions, ¬ liveOut.FedBy info
  · have same : liveOut.Preserved config (loop.workerOf reductions width) interp outer memory
        reductions exitCount.bits.toNat tripCount ↔
          liveOut.Kept interp outer memory reductions exitCount.bits.toNat tripCount :=
      preserved_iff_of_unfed sums unfed divides executions small rounds
    exact ⟨same.mpr, fun _ => same.mp⟩
  · push Not at unfed
    obtain ⟨info, member, fed⟩ := unfed
    constructor
    · intro kept
      cases kept with
      | counts counts =>
          obtain ⟨index, phi, canonical, found, form⟩ := counts
          exact absurd fed (sums.other_of_inducts
            ⟨index, phi, canonical, found, form.imp And.right And.right⟩ info member)
      | computed _ unfed => exact absurd fed (unfed info member)
      | totals own ownMember ownFed outlinable width onBits addends bits totals =>
          exact (preserved_iff_of_fed sums integral ownMember ownFed outlinable totals.adds
            totals.initial divides induction executions small rounds).mpr totals
    · intro decided preserved
      obtain ⟨outlinable, width, onBits, addends, bits, adds, initial⟩ := decided info member fed
      exact .totals info member fed outlinable width onBits addends bits
        ((preserved_iff_of_fed sums integral member fed outlinable adds initial divides induction
          executions small rounds).mp preserved)

/-- Arithmetic on integers of one width, and their unsigned comparison. -/
def wordwise : Interpretation where
  binary op left right :=
    match left, right with
    | .int width left, .int _ right =>
        match op.onBits with
        | some onBits => .int width (onBits left (right.setWidth width))
        | none => default
    | _, _ => default
  pure _ operands :=
    match operands with
    | [.int _ left, .int _ right] => .int 1 (BitVec.ofBool (left.toNat < right.toNat))
    | _ => default
  load _ _ _ := default
  store _ _ := []
  call := bytewise.call
  atomic := bytewise.atomic
  binary_add width left right := by simp [BinaryOp.onBits]
  call_unread := bytewise.call_unread
  call_unwritten := bytewise.call_unwritten

theorem wordwise_integral : wordwise.Integral := by
  intro op width onBits known left right
  simp [wordwise, known]

/-- `i = 0; s = 0; do { s += i; i++; } while (i < 4)`, with the test in the latch block. -/
def summingBottom : Loop where
  phis :=
    [{ type := .int 32, init := .const (.int 32 0), next := .body 1 },
      { type := .int 32, init := .const (.int 32 0), next := .body 0 }]
  header := []
  bodyPhis := []
  body :=
    [{ opcode := .binary .add, operands := [.phi 1, .phi 0] },
      { opcode := .binary .add, operands := [.phi 0, .const (.int 32 1)] },
      { opcode := .pure ['i', 'c', 'm', 'p'], operands := [.body 1, .const (.int 32 4)] }]
  shape := .bottomTested
  exit := { condition := .body 2, cases := [.int 1 0], onMatch := true }
  single := nofun
  headerDominated := by decide
  bodyDominated := by decide

def summingReduction : ReductionInfo where
  phi := 1
  type := .int 32
  binop := .body 0
  rhs := .phi 0
  opcode := .add

/-- The counter before or after its last increment leaves the loop. -/
def summingBottom.counter (incoming : Operand)
    (counts : incoming = .phi 0 ∨ incoming = .body 1) : summingBottom.LiveOut where
  type := .int 32
  incoming
  available := by rcases counts with rfl | rfl <;> decide
  positive width type := by cases type; decide
  typedPhi index phi found _ := by
    match index, found with
    | 0, found => cases found; rfl
    | 1, found => cases found; rfl

theorem exit_phis_increment :
    (summingBottom.counter (.body 1) (.inr rfl)).Preserved ⟨.static, 64#64⟩
      (summingBottom.workerOf [summingReduction] 32) wordwise (fun _ => default) (fun _ => 0)
      [summingReduction] 3 4#64 :=
  (exit_phis summingBottom wordwise wordwise_integral ⟨.static, 64#64⟩ (by decide) true ⟨32, 3#32⟩
    (by decide) rfl (fun _ => default) (fun _ => 0) ⟨_, _, rfl, rfl⟩
    (summingBottom.counter (.body 1) (.inr rfl))).1
      (.counts ⟨0, _, by decide, rfl, .inr ⟨by decide, rfl⟩⟩)

/-- The loop leaves 3 where it leaves the counter of its last iteration, but the phi node gets the
trip count. -/
theorem exit_phi_off_by_one :
    summingBottom.partitionLoop true (some ⟨32, 3#32⟩) = some ([summingReduction], 4#64) ∧
      (summingBottom.outlineLoopBody [summingReduction]).isSome ∧
      (∀ outer memory, summingBottom.takesBackedge wordwise outer memory 3) ∧
      ¬ (summingBottom.counter (.phi 0) (.inl rfl)).Preserved ⟨.static, 64#64⟩
        (summingBottom.workerOf [summingReduction] 32) wordwise (fun _ => default) (fun _ => 0)
        [summingReduction] 3 4#64 := by
  refine ⟨by decide, by decide, fun outer memory => ⟨_, _, rfl, rfl⟩, ?_⟩
  rintro ⟨value, serial, enough⟩
  obtain ⟨turns, enough⟩ := enough default
  obtain ⟨taskSums, -, same⟩ := enough (turns + 1) (Nat.lt_succ_self _)
  have three : value = .int 32 3#32 := (Option.some.inj serial).symm
  have four : value = .int 32 4#32 := same.symm
  rw [three] at four
  cases four
end Loop
end Transforms
end TopoLlvm
