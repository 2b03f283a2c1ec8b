import TopoLlvm.Library.ChunkFold
import TopoLlvm.Transforms.LoopPartition

/-!
# The sums of a partitioned loop

`partitionLoop` folds the partial sums of the tasks and then the initial value.  A task's partial
sum is what its iterations make of the neutral element, and for integers the whole is the sum of
the serial loop.
-/

namespace TopoLlvm
namespace Transforms

open Overwrite

section Blocks

variable {Ref : Type} (interp : Interpretation) (memory : Memory)
  (resolve : List Value → Ref → Value) (observe : Nat → Inst Ref → (Ref → Value) → List Event)

/-- A binary operation, by the values that its operands have when the block is done. -/
theorem execInsts_binary (writes : Writes) {insts : List (Inst Ref)} {index : Nat} {op : BinaryOp}
    {left right : Ref}
    (found : insts[index]? = some { opcode := .binary op, operands := [left, right] })
    (stable : ∀ operand ∈ [left, right], ∀ earlier later : List Value, earlier.length = index →
      resolve (earlier ++ later) operand = resolve earlier operand) :
    let block := execInsts interp memory resolve observe { values := [], writes, log := [] } insts
    block.values.getD index default =
      interp.binary op (resolve block.values left) (resolve block.values right) := by
  intro block
  obtain ⟨before, later, log, -, length, extended, -⟩ :=
    exists_before interp memory resolve observe { values := [], writes, log := [] } found
  rw [List.length_nil, Nat.zero_add] at length
  have values : block.values = before.values ++ (interp.binary op (resolve before.values left)
      (resolve before.values right) :: later) := by
    rw [show block.values = _ from extended]
    simp [execInst, Interpretation.exec]
  rw [values, stable left (by simp) _ _ length, stable right (by simp) _ _ length,
    List.getD_eq_getElem?_getD, List.getElem?_append_right length.le, length, Nat.sub_self]
  rfl

end Blocks

namespace Loop

variable (loop : Loop) (interp : Interpretation) (outer : Nat → Value) (memory : Memory)

/-- The frame at the end of an iteration. -/
def fullFrame (state : State) : Frame :=
  let header := loop.execHeader interp outer memory state.phis state.writes
  let body := loop.execBody interp outer memory state.phis header
  { loop.bodyFrame outer state.phis header.values with body := body.values }

variable {loop}

theorem iterate_phis (state : State) : (loop.iterate interp outer memory state).phis =
    loop.phis.map fun phi => (loop.fullFrame interp outer memory state).resolve phi.next := rfl

theorem iterate_getD {index : Nat} {phi : Phi} (found : loop.phis[index]? = some phi)
    (state : State) : (loop.iterate interp outer memory state).phis.getD index default =
      (loop.fullFrame interp outer memory state).resolve phi.next := by
  rw [iterate_phis, List.getD_eq_getElem?_getD, List.getElem?_map, found]
  rfl

/-- An update in the latch block, by the values of its operands. -/
theorem fullFrame_binary {position : Nat} {op : BinaryOp} {left right : Operand}
    (found : loop.body[position]? = some { opcode := .binary op, operands := [left, right] })
    (state : State) :
    (loop.fullFrame interp outer memory state).resolve (.body position) =
      interp.binary op ((loop.fullFrame interp outer memory state).resolve left)
        ((loop.fullFrame interp outer memory state).resolve right) := by
  refine execInsts_binary interp memory _ _ _ found fun operand used earlier later length => ?_
  have available := loop.bodyDominated
    ({ opcode := .binary op, operands := [left, right] }, position)
    (List.mem_zipIdx_iff_getElem?.mpr found) operand used
  cases operand with
  | body other =>
      have before : other < earlier.length := by
        rw [length]
        exact of_decide_eq_true available
      simp only [Frame.resolve, List.getD_eq_getElem?_getD, List.getElem?_append_left before]
  | _ => rfl

/-- A reduction whose update is in the latch block: the operands of the update, of which one is the
phi node. -/
structure Updates (loop : Loop) (info : ReductionInfo) (position : Nat) (left right : Operand) :
    Prop where
  binop : info.binop = .body position
  phi : ∃ phi, loop.phis[info.phi]? = some phi ∧ phi.next = .body position ∧ phi.type = info.type
  update : loop.body[position]? = some { opcode := .binary info.opcode, operands := [left, right] }
  associative : isAssociativeReductionOp info.opcode = true
  operands : left = .phi info.phi ∧ right = info.rhs ∨ right = .phi info.phi ∧ left = info.rhs

/-- The operation that updates a detected reduction. -/
theorem update_of_detectReduction {index : Nat} {info : ReductionInfo}
    (detected : loop.detectReduction index = some info) :
    (∃ phi, loop.phis[index]? = some phi ∧ phi.next = info.binop ∧ phi.type = info.type) ∧
      info.phi = index ∧ isAssociativeReductionOp info.opcode = true ∧
      ∃ left right, loop.definition info.binop =
          some { opcode := .binary info.opcode, operands := [left, right] } ∧
        (left = .phi info.phi ∧ right = info.rhs ∨ right = .phi info.phi ∧ left = info.rhs) := by
  unfold detectReduction at detected
  split at detected
  · cases detected
  · rename_i phi found
    split at detected
    · rename_i opcode left right definition
      obtain ⟨associative, detected⟩ := Option.ite_none_right_eq_some.mp detected
      obtain ⟨rhs, other, detected⟩ := Option.bind_eq_some_iff.mp detected
      obtain ⟨-, detected⟩ := Option.ite_none_right_eq_some.mp detected
      cases detected
      refine ⟨⟨phi, found, rfl, rfl⟩, rfl, associative, left, right, definition, ?_⟩
      unfold otherOperand at other
      split at other
      · rename_i first
        exact .inl ⟨first, Option.some.inj other⟩
      · split at other
        · rename_i second
          exact .inr ⟨second, Option.some.inj other⟩
        · cases other
    · cases detected

theorem updates_of_detectReduction {index : Nat} {info : ReductionInfo}
    (detected : loop.detectReduction index = some info) (cloned : info.inHeader = false) :
    info.phi = index ∧ ∃ position left right, loop.Updates info position left right := by
  obtain ⟨⟨phi, found, next, type⟩, rfl, associative, left, right, definition, operands⟩ :=
    update_of_detectReduction detected
  refine ⟨rfl, ?_⟩
  cases binop : info.binop with
  | header position => simp [ReductionInfo.inHeader, binop] at cloned
  | body position =>
      rw [binop] at definition next
      exact ⟨position, left, right, binop, ⟨phi, found, next, type⟩, definition, associative,
        operands⟩
  | _ => rw [binop] at definition; cases definition

/-- What the iteration adds to a sum. -/
def addend (loop : Loop) (info : ReductionInfo) (index : Nat) : Value :=
  (loop.fullFrame interp outer memory
    { phis := loop.phisAt index, writes := [], log := [] }).resolve info.rhs

/-- A state of a run: the right iteration, and no writes in a loop that does not write. -/
structure Reached (loop : Loop) (count : Nat) (state : State) : Prop where
  current : loop.AtIteration count state.phis
  clean : loop.Unwritten interp → state.writes = []

variable {interp outer memory} {reductions : List ReductionInfo}

theorem Reached.iterate {count : Nat} {state : State} (reached : loop.Reached interp count state)
    (canonical : loop.canonicalInductionVariable ≠ none) :
    loop.Reached interp (count + 1) (loop.iterate interp outer memory state) where
  current := reached.current.iterate interp outer memory canonical
  clean unwritten := by
    simp only [Loop.iterate]
    rw [unwritten.execBody, unwritten.execHeader, reached.clean unwritten]

/-- What an iteration computes does not depend on the writes before it. -/
theorem Accepted.fullFrame_writes (accepted : loop.Accepted reductions) {count : Nat}
    {state : State} (reached : loop.Reached interp count state) :
    loop.fullFrame interp outer memory state =
      loop.fullFrame interp outer memory { phis := state.phis, writes := [], log := [] } := by
  rcases accepted.unread_or_unwritten interp with unread | unwritten
  · have header := unread.execHeader outer memory memory state.phis state.writes
    have body := unread.execBody outer memory memory state.phis header
    simp only [fullFrame, header.values, body.values]
  · simp only [fullFrame, reached.clean unwritten]

/-- Iterations that differ in their sums compute the same but for sums. -/
theorem Accepted.agree_fullFrame (accepted : loop.Accepted reductions) {left right : List Value}
    (agree : loop.AgreeOnPhis left right) :
    loop.Agree (loop.fullFrame interp outer memory { phis := left, writes := [], log := [] })
      (loop.fullFrame interp outer memory { phis := right, writes := [], log := [] }) := by
  have headers : (loop.execHeader interp outer memory left []).Related _
      (loop.execHeader interp outer memory right []) := accepted.execHeader_related agree []
  have frames := accepted.bodyFrame_agree outer agree headers
  have bodies : (loop.execBody interp outer memory left _).Related _
      (loop.execBody interp outer memory right _) := accepted.execBody_related agree headers
  exact ⟨frames.outer, frames.phis, frames.header, frames.bodyPhis, bodies.values⟩

/-- A value of an iteration, other than the sums and their updates, depends on its number only. -/
theorem Accepted.fullFrame_resolve (accepted : loop.Accepted reductions) {count : Nat}
    {state : State} (reached : loop.Reached interp count state) {operand : Operand}
    (visible : ∀ index, operand = .phi index → ¬ loop.Carried index)
    (unhidden : ¬ loop.Accumulates operand) :
    (loop.fullFrame interp outer memory state).resolve operand =
      (loop.fullFrame interp outer memory
        { phis := loop.phisAt count, writes := [], log := [] }).resolve operand := by
  rw [accepted.fullFrame_writes reached]
  exact (accepted.agree_fullFrame reached.current.agree).resolve visible unhidden

/-- The reductions of a loop that is partitioned: their phi nodes carry sums, and their updates are
in the latch block. -/
structure Sums (loop : Loop) (reductions : List ReductionInfo) : Prop where
  accepted : loop.Accepted reductions
  detected : ∀ info ∈ reductions, loop.detectReduction info.phi = some info
  carried : ∀ info ∈ reductions, loop.Carried info.phi
  updates : ∀ info ∈ reductions, ∃ position left right, loop.Updates info position left right

theorem sums_of_partitionLoop {reductionEnabled : Bool} {exitCount : Option ExitCount}
    {tripCount : BitVec 64}
    (partitioned : loop.partitionLoop reductionEnabled exitCount = some (reductions, tripCount)) :
    loop.Sums reductions := by
  obtain ⟨found, candidate, partitioned⟩ := Option.bind_eq_some_iff.mp partitioned
  obtain ⟨cloned, partitioned⟩ := Option.ite_none_left_eq_some.mp partitioned
  obtain ⟨count, trip, same⟩ := Option.map_eq_some_iff.mp partitioned
  cases same
  have cloned : ∀ info ∈ reductions, info.inHeader = false := by simpa using cloned
  have source : ∀ info ∈ reductions, ∃ index, loop.Carried index ∧
      loop.detectReduction index = some info := by
    obtain ⟨-, -, -, ⟨-, rfl⟩ | mapped⟩ := candidate_cases candidate
    · exact fun info member => absurd member List.not_mem_nil
    · intro info member
      obtain ⟨index, inside, detected⟩ := (mem_of_mapM mapped).1 info member
      obtain ⟨bound, other⟩ := List.mem_filter.mp inside
      exact ⟨index, ⟨List.mem_range.mp bound, by simpa using other⟩, detected⟩
  refine ⟨accepted_of_candidate candidate, ?_, ?_, ?_⟩ <;> intro info member <;>
    obtain ⟨index, carried, detected⟩ := source info member <;>
    obtain ⟨rfl, updates⟩ := updates_of_detectReduction detected (cloned info member)
  · exact detected
  · exact carried
  · exact updates

theorem mem_users_phi {index : Nat} {phi : Phi} (found : loop.phis[index]? = some phi) :
    .phi index ∈ loop.users phi.next := by
  simp only [users, List.mem_append, List.mem_filterMap]
  refine .inl (.inl (.inl (.inl ⟨(phi, index), ?_, if_pos rfl⟩)))
  exact List.mem_zipIdx_iff_getElem?.mpr found

/-- The other operand of an update is no sum, unless it is the sum that is updated. -/
theorem Sums.rhs_visible (sums : loop.Sums reductions) {info : ReductionInfo}
    (member : info ∈ reductions) (distinct : info.rhs ≠ .phi info.phi) :
    (∀ index, info.rhs = .phi index → ¬ loop.Carried index) ∧ ¬ loop.Accumulates info.rhs := by
  obtain ⟨position, left, right, updates⟩ := sums.updates info member
  obtain ⟨phi, found, next, -⟩ := updates.phi
  have used : info.rhs ∈ [left, right] := by
    rcases updates.operands with ⟨-, rfl⟩ | ⟨-, rfl⟩ <;> simp
  have definition : loop.definition (.body position) = some _ := updates.update
  refine ⟨fun index same carried => ?_, sums.accepted.not_accumulates definition used⟩
  -- Another sum that the update reads has the same update, which only one phi node may use.
  obtain ⟨other, inst, reduction⟩ := sums.accepted.isReduction carried
  obtain ⟨user, uses, asUser⟩ := mem_users_of_definition definition (same ▸ used)
  have shared : other.next = .body position :=
    asUser_inj (reduction.phiUsers user uses) asUser
  obtain ⟨own, update, ownReduction⟩ := sums.accepted.isReduction (sums.carried info member)
  obtain rfl : own = phi := Option.some.inj (ownReduction.found.symm.trans found)
  have uses : User.phi index ∈ loop.users own.next := by
    rw [next, ← shared]
    exact mem_users_phi reduction.found
  obtain rfl : index = info.phi := User.phi.inj (ownReduction.updateUsers _ uses)
  exact distinct same

/-! ## Sums of integers -/

end Loop

section

variable {width : Nat}

/-- The operation on integers of a width. -/
def BinaryOp.onBits : BinaryOp → Option (BitVec width → BitVec width → BitVec width)
  | .add => some (· + ·)
  | .mul => some (· * ·)
  | .and => some (· &&& ·)
  | .or => some (· ||| ·)
  | .xor => some (· ^^^ ·)
  | .sub | .fadd | .fsub | .fmul | .other _ => none

/-- The operations that may be reduced do on integers what LLVM says. -/
def Interpretation.Integral (interp : Interpretation) : Prop :=
  ∀ (op : BinaryOp) (width : Nat) (onBits : BitVec width → BitVec width → BitVec width),
    op.onBits = some onBits → ∀ left right,
      interp.binary op (.int width left) (.int width right) = .int width (onBits left right)

/-- The neutral element that the worker starts with. -/
theorem neutral_onBits {info : ReductionInfo} (type : info.type = .int width)
    {onBits : BitVec width → BitVec width → BitVec width}
    (known : info.opcode.onBits = some onBits) :
    ∃ unit, info.getIdentity = .int width unit ∧ ChunkFold.NeutralRight onBits unit := by
  unfold ReductionInfo.getIdentity PhiType.constant
  rw [type]
  cases opcode : info.opcode with
  | add =>
      rw [opcode] at known
      cases known
      exact ⟨_, rfl, fun value => by simp⟩
  | mul =>
      rw [opcode] at known
      cases known
      exact ⟨_, rfl, fun value => by simp⟩
  | and =>
      rw [opcode] at known
      cases known
      have ones : BitVec.ofInt width (-1) = BitVec.allOnes width := by
        rw [BitVec.ofInt_neg, ← BitVec.neg_one_eq_allOnes]
        simp
      exact ⟨_, rfl, fun value => by rw [ones]; exact BitVec.and_allOnes⟩
  | or =>
      rw [opcode] at known
      cases known
      exact ⟨_, rfl, fun value => by simp⟩
  | xor =>
      rw [opcode] at known
      cases known
      exact ⟨_, rfl, fun value => by simp⟩
  | _ => simp [opcode, BinaryOp.onBits] at known

theorem laws_onBits {op : BinaryOp} {onBits : BitVec width → BitVec width → BitVec width}
    (known : op.onBits = some onBits) : Std.Associative onBits ∧ Std.Commutative onBits := by
  cases op <;> cases known
  · exact ⟨⟨BitVec.add_assoc⟩, ⟨BitVec.add_comm⟩⟩
  · exact ⟨⟨BitVec.mul_assoc⟩, ⟨BitVec.mul_comm⟩⟩
  · exact ⟨⟨BitVec.and_assoc⟩, ⟨BitVec.and_comm⟩⟩
  · exact ⟨⟨BitVec.or_assoc⟩, ⟨BitVec.or_comm⟩⟩
  · exact ⟨⟨BitVec.xor_assoc⟩, ⟨BitVec.xor_comm⟩⟩

end

namespace Loop

/-- A sum of integers: the types of its parts, and what it adds is not the sum itself. -/
structure Adds (loop : Loop) (interp : Interpretation) (outer : Nat → Value) (memory : Memory)
    (info : ReductionInfo) (width : Nat) (onBits : BitVec width → BitVec width → BitVec width)
    (addends : Nat → BitVec width) : Prop where
  type : info.type = .int width
  known : info.opcode.onBits = some onBits
  distinct : info.rhs ≠ .phi info.phi
  adds : ∀ index, loop.addend interp outer memory info index = .int width (addends index)

variable {loop : Loop} {reductions : List ReductionInfo} {interp : Interpretation}
  {outer : Nat → Value} {memory : Memory} {info : ReductionInfo} {width : Nat}
  {onBits : BitVec width → BitVec width → BitVec width} {addends : Nat → BitVec width}

/-- An iteration adds to a sum. -/
theorem Sums.iterate_sum (sums : loop.Sums reductions) (integral : interp.Integral)
    (member : info ∈ reductions) (adds : loop.Adds interp outer memory info width onBits addends)
    {count : Nat} {state : State} (reached : loop.Reached interp count state)
    {bits : BitVec width} (sum : state.phis.getD info.phi default = .int width bits) :
    (loop.iterate interp outer memory state).phis.getD info.phi default =
      .int width (onBits bits (addends count)) := by
  obtain ⟨position, left, right, updates⟩ := sums.updates info member
  obtain ⟨phi, found, next, -⟩ := updates.phi
  obtain ⟨visible, unhidden⟩ := sums.rhs_visible member adds.distinct
  have addend : (loop.fullFrame interp outer memory state).resolve info.rhs =
      .int width (addends count) :=
    (sums.accepted.fullFrame_resolve reached visible unhidden).trans (adds.adds count)
  have own : (loop.fullFrame interp outer memory state).resolve (.phi info.phi) =
      .int width bits := sum
  rw [iterate_getD interp outer memory found, next,
    fullFrame_binary interp outer memory updates.update]
  rcases updates.operands with ⟨rfl, rfl⟩ | ⟨rfl, rfl⟩
  · rw [own, addend, integral _ _ _ adds.known]
  · rw [own, addend, integral _ _ _ adds.known, (laws_onBits adds.known).2.comm]

theorem Reached.iterates {count : Nat} {state : State} (reached : loop.Reached interp count state)
    (canonical : loop.canonicalInductionVariable ≠ none) (length : Nat) :
    loop.Reached interp (count + length) ((loop.iterate interp outer memory)^[length] state) := by
  induction length with
  | zero => exact reached
  | succ length ih =>
      rw [Function.iterate_succ_apply']
      exact ih.iterate canonical

/-- Consecutive iterations add to a sum in turn. -/
theorem Sums.iterates_sum (sums : loop.Sums reductions) (integral : interp.Integral)
    (member : info ∈ reductions) (adds : loop.Adds interp outer memory info width onBits addends)
    {first : Nat} {state : State} (reached : loop.Reached interp first state)
    {bits : BitVec width} (sum : state.phis.getD info.phi default = .int width bits)
    (length : Nat) :
    ((loop.iterate interp outer memory)^[length] state).phis.getD info.phi default =
      .int width (((List.range' first length).map addends).foldl onBits bits) := by
  induction length with
  | zero => simpa using sum
  | succ length ih =>
      rw [Function.iterate_succ_apply', List.range'_concat, List.map_append, List.foldl_append]
      have next : loop.Reached interp (first + length)
          ((loop.iterate interp outer memory)^[length] state) :=
        reached.iterates sums.accepted.induction length
      simpa using sums.iterate_sum integral member adds next ih

/-! ## The partial sums of the workers -/

/-- The worker's accumulators are the sums of the original loop. -/
structure SimulatesSums (loop : Loop) (reductions : List ReductionInfo) (count : Nat)
    (state : State) (worker : Worker.State) : Prop extends loop.Simulates count state worker where
  sums : ∀ slot info, reductions[slot]? = some info →
    worker.accumulators.getD slot default = state.phis.getD info.phi default

/-- The accumulator that stands for the phi node of a reduction. -/
theorem Sums.resolve_accumulator (sums : loop.Sums reductions) (member : info ∈ reductions)
    {count : Nat} {state : State} {worker : Worker.State}
    (simulates : loop.SimulatesSums reductions count state worker) (position width : Nat)
    (captured clones : List Value) (undef : Value) :
    (loop.workerOf reductions width).resolve captured undef worker clones
      (loop.remap reductions position (.phi info.phi)) = state.phis.getD info.phi default := by
  have carried := (sums.carried info member).2
  obtain ⟨slot, found⟩ := Option.isSome_iff_exists.mp
    (sums.accepted.findIdx?_isSome (sums.carried info member))
  obtain ⟨bound, same, -⟩ := List.findIdx?_eq_some_iff_getElem.mp found
  have there := simulates.sums slot reductions[slot] (List.getElem?_eq_getElem bound)
  rw [of_decide_eq_true same] at there
  simpa [remap, carried, found, Worker.resolve] using there

/-- A cloned instruction only reads clones of earlier ones. -/
theorem resolve_remap_append (worker : Worker) (captured : List Value) (undef : Value)
    (state : Worker.State) (reductions : List ReductionInfo) (operand : Operand)
    {position : Nat} {earlier : List Value} (length : earlier.length = position)
    (later : List Value) :
    worker.resolve captured undef state (earlier ++ later)
        (loop.remap reductions position operand) =
      worker.resolve captured undef state earlier (loop.remap reductions position operand) := by
  cases operand with
  | body other =>
      simp only [remap]
      split
      · rename_i before
        rw [← length] at before
        simp only [Worker.resolve, List.getD_eq_getElem?_getD, List.getElem?_append_left before]
      · rfl
  | phi other =>
      simp only [remap]
      split
      · rfl
      · split <;> rfl
  | _ => rfl

/-- The worker adds to its accumulators what the iteration of the original loop adds. -/
theorem Sums.simulatesSums_iterate (sums : loop.Sums reductions) (outlinable : loop.Outlinable)
    {index width : Nat} {next : Operand} (induction : loop.IsInduction index width next)
    (undef : Value) {count : Nat} {state : State} {worker : Worker.State}
    (simulates : loop.SimulatesSums reductions count state worker) :
    loop.SimulatesSums reductions (count + 1) (loop.iterate interp outer memory state)
      ((loop.workerOf reductions width).step interp (loop.collectCaptures.map outer) undef memory
        worker) := by
  have narrow := outlinable.width width induction.inductionWidth
  refine ⟨sums.accepted.simulates_iterate interp outer memory undef outlinable induction
    simulates.toSimulates, fun slot info found => ?_⟩
  have member := List.mem_of_getElem? found
  obtain ⟨position, left, right, updates⟩ := sums.updates info member
  obtain ⟨phi, phiFound, phiNext, -⟩ := updates.phi
  rw [iterate_getD interp outer memory phiFound, phiNext,
    fullFrame_binary interp outer memory updates.update]
  have cloneFound : (loop.workerOf reductions width).body[position]? = some
      { opcode := .binary info.opcode, operands := [loop.remap reductions position left,
        loop.remap reductions position right] } := by
    simp [workerOf, updates.update]
  have value := execInsts_binary interp memory ((loop.workerOf reductions width).resolve
    (loop.collectCaptures.map outer) undef worker) Worker.observe worker.writes cloneFound
    fun operand used earlier later length => by
      rcases List.mem_pair.mp used with rfl | rfl <;> exact resolve_remap_append _ _ _ _ _ _ length _
  have accumulator : ((loop.workerOf reductions width).step interp
      (loop.collectCaptures.map outer) undef memory worker).accumulators.getD slot default =
      ((loop.workerOf reductions width).execBody interp (loop.collectCaptures.map outer) undef
        memory worker).values.getD position default := by
    simp [Worker.step, workerOf, found, updates.binop, List.getD_eq_getElem?_getD]
  rw [accumulator]
  -- The clone reads the accumulator for the phi node, and the clone of what is added.
  have own := sums.resolve_accumulator member simulates position width
    (loop.collectCaptures.map outer) ((loop.workerOf reductions width).execBody interp
      (loop.collectCaptures.map outer) undef memory worker).values undef
  have added : (loop.workerOf reductions width).resolve (loop.collectCaptures.map outer) undef
      worker ((loop.workerOf reductions width).execBody interp (loop.collectCaptures.map outer)
        undef memory worker).values (loop.remap reductions position info.rhs) =
      (loop.fullFrame interp outer memory state).resolve info.rhs := by
    by_cases distinct : info.rhs = .phi info.phi
    · rw [distinct]
      exact own
    · obtain ⟨visible, -⟩ := sums.rhs_visible member distinct
      have used : info.rhs ∈ [left, right] := by
        rcases updates.operands with ⟨-, rfl⟩ | ⟨-, rfl⟩ <;> simp
      have silent := (outlinable.execHeader interp outer memory state.phis state.writes).1
      have related := sums.accepted.execBody_worker interp outer memory undef induction narrow
        outlinable.operands simulates.toSimulates silent
      exact (sums.accepted.resolve_remap outer undef induction narrow simulates.toSimulates
        updates.update used (outlinable.operands _ (List.mem_of_getElem? updates.update) _ used)
        visible _ related.values).symm
  refine value.trans ?_
  rcases updates.operands with ⟨rfl, rfl⟩ | ⟨rfl, rfl⟩
  · exact congrArg₂ _ own added
  · exact congrArg₂ _ added own

theorem Sums.simulatesSums_iterates (sums : loop.Sums reductions) (outlinable : loop.Outlinable)
    {index width : Nat} {next : Operand} (induction : loop.IsInduction index width next)
    (undef : Value) {first : Nat} {state : State} {worker : Worker.State}
    (simulates : loop.SimulatesSums reductions first state worker) (length : Nat) :
    loop.SimulatesSums reductions (first + length)
      ((loop.iterate interp outer memory)^[length] state)
      (((loop.workerOf reductions width).step interp (loop.collectCaptures.map outer) undef
        memory)^[length] worker) := by
  induction length with
  | zero => exact simulates
  | succ length ih =>
      rw [Function.iterate_succ_apply', Function.iterate_succ_apply']
      exact sums.simulatesSums_iterate outlinable induction undef ih

/-- The state of the original loop that stands for the start of a chunk. -/
def chunkStart (loop : Loop) (reductions : List ReductionInfo) (first : Nat) : State where
  phis := loop.chunkPhis reductions first
  writes := []
  log := []

theorem Sums.chunkStart_sum (sums : loop.Sums reductions) (member : info ∈ reductions)
    (first : Nat) :
    (loop.chunkStart reductions first).phis.getD info.phi default = info.getIdentity := by
  obtain ⟨position, left, right, updates⟩ := sums.updates info member
  obtain ⟨phi, found, -⟩ := updates.phi
  have carried := (sums.carried info member).2
  have first : reductions.find? (·.phi = info.phi) = some info := by
    cases there : reductions.find? (·.phi = info.phi) with
    | none =>
        have absent := List.find?_eq_none.mp there info member
        simp at absent
    | some other =>
        have same : other.phi = info.phi := of_decide_eq_true (List.find?_some there :)
        have detected := sums.detected other (List.mem_of_find?_eq_some there)
        rw [same, sums.detected info member] at detected
        exact detected.symm
  simp [chunkStart, chunkPhis, List.getD_eq_getElem?_getD, List.getElem?_mapIdx, found, carried,
    first]

/-- A worker that has run a chunk stands for the original loop started at the chunk. -/
theorem Sums.simulatesSums_chunk (sums : loop.Sums reductions) (outlinable : loop.Outlinable)
    {index workerWidth : Nat} {next : Operand}
    (induction : loop.IsInduction index workerWidth next) (undef : Value) (chunk : Chunk) :
    loop.SimulatesSums reductions (chunk.first + chunk.length)
      ((loop.iterate interp outer memory)^[chunk.length] (loop.chunkStart reductions chunk.first))
      (((loop.workerOf reductions workerWidth).step interp (loop.collectCaptures.map outer) undef
        memory)^[chunk.length] ((loop.workerOf reductions workerWidth).start
          (BitVec.ofNat 64 chunk.first))) := by
  have current := atIteration_chunkPhis reductions sums.accepted.induction chunk.first
  have began : loop.SimulatesSums reductions chunk.first (loop.chunkStart reductions chunk.first)
      ((loop.workerOf reductions workerWidth).start (BitVec.ofNat 64 chunk.first)) := by
    refine ⟨⟨current, rfl, rfl, rfl⟩, fun slot info found => ?_⟩
    rw [sums.chunkStart_sum (List.mem_of_getElem? found)]
    simp [Worker.start, workerOf, List.getD_eq_getElem?_getD, found]
  exact sums.simulatesSums_iterates outlinable induction undef began chunk.length

/-- The accumulators of a worker that has run a chunk are the sums over the chunk. -/
theorem Sums.chunk_sum (sums : loop.Sums reductions) (outlinable : loop.Outlinable) {index : Nat}
    {workerWidth : Nat} {next : Operand} (induction : loop.IsInduction index workerWidth next)
    (integral : interp.Integral) (undef : Value) {slot : Nat}
    (found : reductions[slot]? = some info)
    (adds : loop.Adds interp outer memory info width onBits addends) {unit : BitVec width}
    (identity : info.getIdentity = .int width unit) (chunk : Chunk) :
    (((loop.workerOf reductions workerWidth).step interp (loop.collectCaptures.map outer) undef
        memory)^[chunk.length] ((loop.workerOf reductions workerWidth).start
          (BitVec.ofNat 64 chunk.first))).accumulators.getD slot default =
      .int width ((chunk.iterations.map addends).foldl onBits unit) := by
  have member := List.mem_of_getElem? found
  have current := atIteration_chunkPhis reductions sums.accepted.induction chunk.first
  have done : loop.SimulatesSums reductions (chunk.first + chunk.length)
      ((loop.iterate interp outer memory)^[chunk.length] (loop.chunkStart reductions chunk.first))
      _ := sums.simulatesSums_chunk outlinable induction undef chunk
  rw [done.sums slot info found]
  exact sums.iterates_sum integral member adds ⟨current, fun _ => rfl⟩
    ((sums.chunkStart_sum member chunk.first).trans identity) chunk.length

end Loop
end Transforms
end TopoLlvm
