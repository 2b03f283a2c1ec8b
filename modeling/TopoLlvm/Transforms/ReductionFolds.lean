import TopoLlvm.Transforms.LoopLiveOut

/-!
# Reductions over consecutive chunks

Each worker folds the updates of its iterations from the identities, and the parent folds the
partial sums and then the initial values.  Integer updates with an operand of their own give what
the serial loop gives, for any contributions and any chunks; an update of a sum with itself does
not, unless the operation leaves a value combined with itself as it is.
-/

namespace TopoLlvm
namespace Transforms

/-- The operations that reduce integers. -/
def BinaryOp.isInteger : BinaryOp → Bool
  | .add | .mul | .and | .or | .xor => true
  | .sub | .fadd | .fsub | .fmul | .other _ => false

namespace ReductionInfo

variable (info : ReductionInfo)

/-- A reduction of integers; an integer type has at least one bit. -/
def IsInteger : Prop := info.opcode.isInteger = true ∧ ∃ width, 0 < width ∧ info.type = .int width

/-- The update combines the sum with itself. -/
def addsItself : Bool := info.rhs = .phi info.phi

/-- A value combined with itself stays the same. -/
def keepsItself : Bool :=
  match info.opcode with
  | .and | .or => true
  | .mul => info.type = .int 1
  | _ => false

/-- A value of the type of the reduction. -/
def Holds (value : Value) : Prop :=
  match info.type with
  | .int width => ∃ bits, value = .int width bits
  | .pointer => ∃ address, value = .pointer address
  | .float => ∃ bits, value = .float bits

end ReductionInfo

/-- The value of an operand of an update: of a sum where its phi node is read, and else what the
iteration has computed. -/
def readSum (reductions : List ReductionInfo) (sums : List Value) (computed : Operand → Value)
    (operand : Operand) : Value :=
  match reductions.findIdx? fun info => operand = .phi info.phi with
  | some slot => sums.getD slot default
  | none => computed operand

namespace Loop

variable (loop : Loop) (interp : Interpretation) (reductions : List ReductionInfo)

/-- What the updates of an iteration make of the sums. -/
def accumulate (sums : List Value) (computed : Operand → Value) : List Value :=
  reductions.map fun info =>
    match loop.definition info.binop with
    | some { opcode := .binary op, operands := [left, right] } =>
        interp.binary op (readSum reductions sums computed left)
          (readSum reductions sums computed right)
    | _ => default

/-- The partial sums of a chunk of iterations. -/
def partialSums (chunk : List (Operand → Value)) : List Value :=
  chunk.foldl (loop.accumulate interp reductions) (reductions.map (·.getIdentity))

/-- The partial sums folded one by one, and then the initial values. -/
def combineSums (inits : List Value) (taskSums : List (List Value)) : List Value :=
  reductions.mapIdx fun slot info =>
    interp.binary info.opcode (inits.getD slot default) (info.combine interp slot taskSums)

/-- The chunks and the serial loop make the same of all initial values and contributions. -/
def ChunksAgree : Prop :=
  ∀ (inits : List Value) (chunks : List (List (Operand → Value))),
    List.Forall₂ ReductionInfo.Holds reductions inits →
    (∀ chunk ∈ chunks, ∀ computed ∈ chunk, ∀ info ∈ reductions, info.Holds (computed info.rhs)) →
    combineSums interp reductions inits (chunks.map (loop.partialSums interp reductions)) =
      chunks.flatten.foldl (loop.accumulate interp reductions) inits

/-! ## One update -/

variable {loop reductions}

/-- The other operand of an update is no sum, unless it is the sum that is updated. -/
theorem rhs_ne_phi {info other : ReductionInfo}
    (detected : loop.detectReduction info.phi = some info)
    (also : loop.detectReduction other.phi = some other) (single : info.addsItself = false) :
    info.rhs ≠ .phi other.phi := by
  intro same
  obtain ⟨phi, inst, reduction, -, next⟩ := detectReduction_spec detected
  obtain ⟨otherPhi, otherInst, otherReduction, -, -⟩ := detectReduction_spec also
  obtain ⟨-, -, -, left, right, definition, operands⟩ := update_of_detectReduction detected
  have used : info.rhs ∈ [left, right] := by
    rcases operands with ⟨-, rfl⟩ | ⟨-, rfl⟩ <;> simp
  -- Another sum that the update reads has the same update, which only one phi node may use.
  obtain ⟨user, uses, asUser⟩ := mem_users_of_definition definition (same ▸ used)
  have shared : otherPhi.next = info.binop :=
    asUser_inj (otherReduction.phiUsers user uses) asUser
  have twice : User.phi other.phi ∈ loop.users phi.next := by
    rw [← next, ← shared]
    exact mem_users_phi otherReduction.found
  have equal : other.phi = info.phi := User.phi.inj (reduction.updateUsers _ twice)
  simp [ReductionInfo.addsItself, same, equal] at single

/-- The reductions of a set, each detected at its own phi node. -/
structure Detected (loop : Loop) (reductions : List ReductionInfo) : Prop where
  detected : ∀ info ∈ reductions, loop.detectReduction info.phi = some info
  distinct : (reductions.map (·.phi)).Nodup

theorem detected_of_mapM {carried : List Nat} (nodup : carried.Nodup)
    (mapped : carried.mapM loop.detectReduction = some reductions) :
    loop.Detected reductions := by
  have phi {index : Nat} {info : ReductionInfo} (found : loop.detectReduction index = some info) :
      info.phi = index := (update_of_detectReduction found).2.1
  have phis : reductions.map (·.phi) = carried := by
    clear nodup
    induction carried generalizing reductions with
    | nil => cases mapped; rfl
    | cons index carried ih =>
        rw [List.mapM_cons] at mapped
        obtain ⟨info, found, mapped⟩ := Option.bind_eq_some_iff.mp mapped
        obtain ⟨rest, later, mapped⟩ := Option.bind_eq_some_iff.mp mapped
        cases mapped
        rw [List.map_cons, ih later, phi found]
  refine ⟨fun info member => ?_, phis ▸ nodup⟩
  obtain ⟨index, -, found⟩ := (mem_of_mapM mapped).1 info member
  rwa [phi found]

theorem readSum_own (detected : loop.Detected reductions) {slot : Nat} {info : ReductionInfo}
    (found : reductions[slot]? = some info) (sums : List Value) (computed : Operand → Value) :
    readSum reductions sums computed (.phi info.phi) = sums.getD slot default := by
  obtain ⟨bound, same⟩ := List.getElem?_eq_some_iff.mp found
  have first : reductions.findIdx? (fun other => Operand.phi info.phi = .phi other.phi) =
      some slot := by
    refine List.findIdx?_eq_some_iff_getElem.mpr ⟨bound, by simp [same], fun earlier before => ?_⟩
    have apart := List.nodup_iff_injective_getElem.mp detected.distinct
    intro equal
    have equal : reductions[earlier].phi = reductions[slot].phi := by
      simpa [same, eq_comm] using equal
    have index : (⟨earlier, by simpa using before.trans bound⟩ :
        Fin (reductions.map (·.phi)).length) = ⟨slot, by simpa using bound⟩ :=
      apart (by simpa using equal)
    exact before.ne (Fin.mk.inj index)
  rw [readSum, first]

theorem readSum_other {operand : Operand}
    (other : ∀ info ∈ reductions, operand ≠ .phi info.phi) (sums : List Value)
    (computed : Operand → Value) : readSum reductions sums computed operand = computed operand := by
  have none : reductions.findIdx? (fun info => operand = .phi info.phi) = none :=
    List.findIdx?_eq_none_iff.mpr fun info member => decide_eq_false (other info member)
  rw [readSum, none]

/-- What the iteration combines with a sum. -/
def contribution (info : ReductionInfo) (sum : Value) (computed : Operand → Value) : Value :=
  if info.addsItself then sum else computed info.rhs

theorem readSum_rhs (detected : loop.Detected reductions) {slot : Nat} {info : ReductionInfo}
    (found : reductions[slot]? = some info) (sums : List Value) (computed : Operand → Value) :
    readSum reductions sums computed info.rhs =
      contribution info (sums.getD slot default) computed := by
  have member := List.mem_of_getElem? found
  unfold contribution
  cases own : info.addsItself with
  | true =>
      rw [if_pos rfl, of_decide_eq_true own]
      exact readSum_own detected found sums computed
  | false =>
      exact readSum_other (fun other also => rhs_ne_phi (detected.detected info member)
        (detected.detected other also) own) sums computed

/-- One slot of the sums, up to the order of the operands. -/
theorem accumulate_getD (detected : loop.Detected reductions) {slot : Nat} {info : ReductionInfo}
    (found : reductions[slot]? = some info) (sums : List Value) (computed : Operand → Value) :
    let sum := sums.getD slot default
    let added := contribution info sum computed
    (loop.accumulate interp reductions sums computed).getD slot default =
        interp.binary info.opcode sum added ∨
      (loop.accumulate interp reductions sums computed).getD slot default =
        interp.binary info.opcode added sum := by
  intro sum added
  obtain ⟨-, -, -, left, right, definition, operands⟩ :=
    update_of_detectReduction (detected.detected info (List.mem_of_getElem? found))
  have value : (loop.accumulate interp reductions sums computed).getD slot default =
      interp.binary info.opcode (readSum reductions sums computed left)
        (readSum reductions sums computed right) := by
    simp [accumulate, List.getD_eq_getElem?_getD, found, definition]
  have own := readSum_own detected found sums computed
  have rhs := readSum_rhs detected found sums computed
  rcases operands with ⟨rfl, rfl⟩ | ⟨rfl, rfl⟩
  · exact .inl (by rw [value, own, rhs])
  · exact .inr (by rw [value, own, rhs])

/-! ## The sums of a run -/

variable (reductions) in
theorem eq_of_slots {left right : List Value} (leftLength : left.length = reductions.length)
    (rightLength : right.length = reductions.length)
    (same : ∀ slot info, reductions[slot]? = some info →
      left.getD slot default = right.getD slot default) : left = right := by
  refine List.ext_getElem (leftLength.trans rightLength.symm) fun slot inLeft inRight => ?_
  have value := same slot _ (List.getElem?_eq_getElem (leftLength ▸ inLeft))
  simpa [List.getD_eq_getElem?_getD, inLeft, inRight] using value

/-- The values that the phi nodes of the reductions have. -/
def sumsOf (reductions : List ReductionInfo) (state : State) : List Value :=
  reductions.map fun info => state.phis.getD info.phi default

/-- What an iteration computes for the operands of the updates. -/
def computedAt (loop : Loop) (interp : Interpretation) (outer : Nat → Value) (memory : Memory)
    (index : Nat) : Operand → Value :=
  (loop.fullFrame interp outer memory
    { phis := loop.phisAt index, writes := [], log := [] }).resolve

variable {interp} {outer : Nat → Value} {memory : Memory}

theorem Sums.toDetected (sums : loop.Sums reductions)
    (distinct : (reductions.map (·.phi)).Nodup) : loop.Detected reductions :=
  ⟨sums.detected, distinct⟩

theorem finalVals_eq_combineSums (taskSums : List (List Value)) :
    loop.finalVals interp outer reductions taskSums =
      combineSums interp reductions (sumsOf reductions (loop.start outer)) taskSums := by
  refine List.ext_getElem? fun slot => ?_
  simp only [finalVals, combineSums, List.getElem?_mapIdx]
  cases found : reductions[slot]? with
  | none => rfl
  | some info => simp [sumsOf, List.getD_eq_getElem?_getD, found]

/-- An iteration of the original loop updates the sums. -/
theorem Sums.accumulate_iterate (sums : loop.Sums reductions)
    (distinct : (reductions.map (·.phi)).Nodup) {count : Nat} {state : State}
    (reached : loop.Reached interp count state) :
    sumsOf reductions (loop.iterate interp outer memory state) =
      loop.accumulate interp reductions (sumsOf reductions state)
        (loop.computedAt interp outer memory count) := by
  have detected := sums.toDetected distinct
  refine eq_of_slots reductions (by simp [sumsOf]) (by simp [accumulate]) fun slot info found => ?_
  have member := List.mem_of_getElem? found
  obtain ⟨position, left, right, updates⟩ := sums.updates info member
  obtain ⟨phi, phiFound, next, -⟩ := updates.phi
  let frame := loop.fullFrame interp outer memory state
  have sum : (sumsOf reductions state).getD slot default = frame.resolve (.phi info.phi) := by
    simp [sumsOf, frame, List.getD_eq_getElem?_getD, found]
    rfl
  have own : readSum reductions (sumsOf reductions state)
      (loop.computedAt interp outer memory count) (.phi info.phi) =
        frame.resolve (.phi info.phi) :=
    (readSum_own detected found _ _).trans sum
  have rhs : readSum reductions (sumsOf reductions state)
      (loop.computedAt interp outer memory count) info.rhs = frame.resolve info.rhs := by
    rw [readSum_rhs detected found, contribution]
    cases itself : info.addsItself with
    | true => rw [if_pos rfl, sum, of_decide_eq_true itself]
    | false =>
        obtain ⟨visible, unhidden⟩ := sums.rhs_visible member (of_decide_eq_false itself)
        exact (sums.accepted.fullFrame_resolve reached visible unhidden).symm
  have after : (sumsOf reductions (loop.iterate interp outer memory state)).getD slot default =
      interp.binary info.opcode (frame.resolve left) (frame.resolve right) := by
    rw [← fullFrame_binary interp outer memory updates.update, ← next,
      ← iterate_getD interp outer memory phiFound]
    simp [sumsOf, List.getD_eq_getElem?_getD, found]
  have update : loop.definition info.binop =
      some { opcode := .binary info.opcode, operands := [left, right] } := by
    rw [updates.binop]
    exact updates.update
  rw [after]
  simp only [accumulate, List.getD_eq_getElem?_getD, List.getElem?_map, found, Option.map_some,
    Option.getD_some, update]
  rcases updates.operands with ⟨rfl, rfl⟩ | ⟨rfl, rfl⟩
  · rw [own, rhs]
  · rw [own, rhs]

/-- Consecutive iterations fold their updates. -/
theorem Sums.foldl_iterates (sums : loop.Sums reductions)
    (distinct : (reductions.map (·.phi)).Nodup) {first : Nat} {state : State}
    (reached : loop.Reached interp first state) (length : Nat) :
    sumsOf reductions ((loop.iterate interp outer memory)^[length] state) =
      ((List.range' first length).map (loop.computedAt interp outer memory)).foldl
        (loop.accumulate interp reductions) (sumsOf reductions state) := by
  induction length with
  | zero => rfl
  | succ length ih =>
      have next : loop.Reached interp (first + length)
          ((loop.iterate interp outer memory)^[length] state) :=
        reached.iterates sums.accepted.induction length
      rw [Function.iterate_succ_apply', sums.accumulate_iterate distinct next, ih,
        List.range'_concat, List.map_append, List.foldl_append]
      simp

theorem length_accumulators (worker : Worker) (interp : Interpretation)
    (captured : List Value) (undef : Value) (memory : Memory) (index : BitVec 64) (turns : Nat) :
    ((worker.step interp captured undef memory)^[turns] (worker.start index)).accumulators.length =
      worker.reductions.length := by
  cases turns with
  | zero => simp [Worker.start]
  | succ turns =>
      rw [Function.iterate_succ_apply']
      simp [Worker.step]

/-- A worker leaves the partial sums of its chunk. -/
theorem Sums.accumulators_eq (sums : loop.Sums reductions)
    (distinct : (reductions.map (·.phi)).Nodup) (outlinable : loop.Outlinable)
    {index width : Nat} {next : Operand} (induction : loop.IsInduction index width next)
    (undef : Value) (chunk : Chunk) :
    (((loop.workerOf reductions width).step interp (loop.collectCaptures.map outer) undef
        memory)^[chunk.length] ((loop.workerOf reductions width).start
          (BitVec.ofNat 64 chunk.first))).accumulators =
      loop.partialSums interp reductions
        (chunk.iterations.map (loop.computedAt interp outer memory)) := by
  have current := atIteration_chunkPhis reductions sums.accepted.induction chunk.first
  have seed : sumsOf reductions (loop.chunkStart reductions chunk.first) =
      reductions.map (·.getIdentity) :=
    List.map_congr_left fun info member => sums.chunkStart_sum member chunk.first
  have done : loop.SimulatesSums reductions (chunk.first + chunk.length)
      ((loop.iterate interp outer memory)^[chunk.length] (loop.chunkStart reductions chunk.first))
      _ := sums.simulatesSums_chunk outlinable induction undef chunk
  rw [partialSums, Chunk.iterations, ← seed,
    ← sums.foldl_iterates distinct ⟨current, fun _ => rfl⟩ chunk.length]
  refine eq_of_slots reductions ?_ (by simp [sumsOf]) fun slot info found => ?_
  · exact length_accumulators _ _ _ _ _ _ _
  · rw [done.sums slot info found]
    simp [sumsOf, List.getD_eq_getElem?_getD, found]

/-! ## Folds of one slot -/

/-- The bits of an integer in a width. -/
def bitsOf (width : Nat) : Value → BitVec width
  | .int _ bits => bits.setWidth width
  | .pointer _ | .float _ => 0

variable {info : ReductionInfo} {slot width : Nat}
  {onBits : BitVec width → BitVec width → BitVec width}

theorem eq_bitsOf (type : info.type = .int width) {value : Value} (holds : info.Holds value) :
    value = .int width (bitsOf width value) := by
  rw [ReductionInfo.Holds, type] at holds
  obtain ⟨bits, rfl⟩ := holds
  simp [bitsOf]

/-- One update of integers. -/
theorem accumulate_int (detected : loop.Detected reductions) (integral : interp.Integral)
    (found : reductions[slot]? = some info) (known : info.opcode.onBits = some onBits)
    {sums : List Value} {computed : Operand → Value} {bits added : BitVec width}
    (sum : sums.getD slot default = .int width bits)
    (adds : contribution info (.int width bits) computed = .int width added) :
    (loop.accumulate interp reductions sums computed).getD slot default =
      .int width (onBits bits added) := by
  have update := accumulate_getD interp detected found sums computed
  simp only [sum, adds] at update
  rcases update with left | right
  · rw [left, integral _ _ _ known]
  · rw [right, integral _ _ _ known, (laws_onBits known).2.comm]

/-- Updates with operands of their own fold the contributions. -/
theorem foldl_accumulate (detected : loop.Detected reductions) (integral : interp.Integral)
    (found : reductions[slot]? = some info) (type : info.type = .int width)
    (known : info.opcode.onBits = some onBits) (single : info.addsItself = false)
    {chunk : List (Operand → Value)}
    (typed : ∀ computed ∈ chunk, info.Holds (computed info.rhs)) {sums : List Value}
    {bits : BitVec width} (sum : sums.getD slot default = .int width bits) :
    (chunk.foldl (loop.accumulate interp reductions) sums).getD slot default =
      .int width
        ((chunk.map fun computed => bitsOf width (computed info.rhs)).foldl onBits bits) := by
  induction chunk generalizing sums bits with
  | nil => exact sum
  | cons computed chunk ih =>
      obtain ⟨here, later⟩ := List.forall_mem_cons.mp typed
      have adds : contribution info (.int width bits) computed =
          .int width (bitsOf width (computed info.rhs)) := by
        rw [contribution, single]
        exact eq_bitsOf type here
      exact ih later (accumulate_int detected integral found known sum adds)

/-- Updates of a sum with itself. -/
theorem foldl_accumulate_itself (detected : loop.Detected reductions) (integral : interp.Integral)
    (found : reductions[slot]? = some info) (known : info.opcode.onBits = some onBits)
    (itself : info.addsItself = true) {bits : BitVec width} (keeps : onBits bits bits = bits)
    (chunk : List (Operand → Value)) {sums : List Value}
    (sum : sums.getD slot default = .int width bits) :
    (chunk.foldl (loop.accumulate interp reductions) sums).getD slot default =
      .int width bits := by
  induction chunk generalizing sums with
  | nil => exact sum
  | cons computed chunk ih =>
      have adds : contribution info (.int width bits) computed = .int width bits := by
        rw [contribution, itself]
        rfl
      have next := accumulate_int detected integral found known sum adds
      rw [keeps] at next
      exact ih next

theorem combineSums_getD (integral : interp.Integral) (found : reductions[slot]? = some info)
    (known : info.opcode.onBits = some onBits) {unit bits : BitVec width}
    (identity : info.getIdentity = .int width unit) {inits : List Value}
    (initial : inits.getD slot default = .int width bits) {taskSums : List (List Value)}
    {sums : List (BitVec width)}
    (same : taskSums.map (·.getD slot default) = sums.map (.int width)) :
    (combineSums interp reductions inits taskSums).getD slot default =
      .int width (onBits bits (sums.foldl onBits unit)) := by
  have combined := foldl_binary integral known same unit
  rw [← identity] at combined
  have value : (combineSums interp reductions inits taskSums).getD slot default =
      interp.binary info.opcode (inits.getD slot default) (info.combine interp slot taskSums) := by
    simp [combineSums, List.getD_eq_getElem?_getD, found]
  rw [value, initial, ReductionInfo.combine, combined, integral _ _ _ known]

/-! ## All slots -/

theorem identity_getD (found : reductions[slot]? = some info) :
    (reductions.map (·.getIdentity)).getD slot default = info.getIdentity := by
  simp [List.getD_eq_getElem?_getD, found]

/-- The chunks make of a slot what the serial loop makes of it. -/
theorem combineSums_partialSums (detected : loop.Detected reductions) (integral : interp.Integral)
    (found : reductions[slot]? = some info) (type : info.type = .int width)
    (known : info.opcode.onBits = some onBits)
    (keeps : info.addsItself = true → ∀ bits, onBits bits bits = bits) {inits : List Value}
    {bits : BitVec width} (initial : inits.getD slot default = .int width bits)
    {chunks : List (List (Operand → Value))}
    (typed : ∀ chunk ∈ chunks, ∀ computed ∈ chunk, info.Holds (computed info.rhs)) :
    (combineSums interp reductions inits
        (chunks.map (loop.partialSums interp reductions))).getD slot default =
      (chunks.flatten.foldl (loop.accumulate interp reductions) inits).getD slot default := by
  obtain ⟨unit, identity, neutral⟩ := neutral_onBits type known
  have seed := (identity_getD found).trans identity
  cases itself : info.addsItself with
  | false =>
      have assoc := (laws_onBits known).1
      let added : List (List (BitVec width)) := chunks.map fun chunk => chunk.map fun computed =>
        bitsOf width (computed info.rhs)
      have parts : (chunks.map (loop.partialSums interp reductions)).map (·.getD slot default) =
          (added.map (·.foldl onBits unit)).map (.int width) := by
        simp only [added, List.map_map]
        refine List.map_congr_left fun chunk member => ?_
        exact foldl_accumulate detected integral found type known itself (typed chunk member) seed
      have every : ∀ computed ∈ chunks.flatten, info.Holds (computed info.rhs) := by
        intro computed member
        obtain ⟨chunk, inside, here⟩ := List.mem_flatten.mp member
        exact typed chunk inside computed here
      rw [combineSums_getD integral found known identity initial parts,
        foldl_accumulate detected integral found type known itself every initial,
        ChunkFold.op_foldl_chunks neutral, List.map_flatten]
  | true =>
      have parts : (chunks.map (loop.partialSums interp reductions)).map (·.getD slot default) =
          (chunks.map fun _ => unit).map (.int width) := by
        simp only [List.map_map]
        refine List.map_congr_left fun chunk _ => ?_
        exact foldl_accumulate_itself detected integral found known itself (neutral unit) chunk seed
      have units : (chunks.map fun _ => unit).foldl onBits unit = unit := by
        rw [List.foldl_map]
        clear parts typed
        induction chunks with
        | nil => rfl
        | cons chunk chunks ih => rw [List.foldl_cons, neutral, ih]
      rw [combineSums_getD integral found known identity initial parts, units, neutral,
        foldl_accumulate_itself detected integral found known itself (keeps itself bits) _ initial]

theorem length_foldl_accumulate {inits : List Value} (length : inits.length = reductions.length)
    (chunk : List (Operand → Value)) :
    (chunk.foldl (loop.accumulate interp reductions) inits).length = reductions.length := by
  induction chunk generalizing inits with
  | nil => exact length
  | cons computed chunk ih => exact ih (List.length_map _)

theorem onBits_of_isInteger {op : BinaryOp} (integer : op.isInteger = true) (width : Nat) :
    ∃ onBits : BitVec width → BitVec width → BitVec width, op.onBits = some onBits := by
  cases op <;> simp_all [BinaryOp.isInteger, BinaryOp.onBits]

theorem two_mul_two_ne (wide : 1 < width) :
    BitVec.ofNat width 2 * BitVec.ofNat width 2 ≠ BitVec.ofNat width 2 := by
  obtain ⟨more, rfl⟩ := Nat.exists_eq_add_of_le wide
  have power : 2 ^ (1 + 1 + more) = 4 * 2 ^ more := by
    rw [pow_add]
    norm_num
  have positive : 0 < 2 ^ more := Nat.two_pow_pos more
  intro same
  have value := congrArg BitVec.toNat same
  rw [BitVec.toNat_mul, BitVec.toNat_ofNat, power, Nat.mod_eq_of_lt (by omega : 2 < 4 * 2 ^ more),
    Nat.mul_mod_mul_left 4 1 (2 ^ more)] at value
  omega

/-- The operations that leave a value combined with itself as it is. -/
theorem keepsItself_iff (type : info.type = .int width) (positive : 0 < width)
    (known : info.opcode.onBits = some onBits) :
    info.keepsItself = true ↔ ∀ bits, onBits bits bits = bits := by
  have one : BitVec.ofNat width 1 ≠ BitVec.ofNat width 0 := ofNat_succ_ne positive 0
  cases opcode : info.opcode with
  | add =>
      rw [opcode] at known
      cases known
      simp only [ReductionInfo.keepsItself, opcode, Bool.false_eq_true, false_iff]
      exact fun keeps => one (BitVec.add_right_eq_self.mp (keeps (BitVec.ofNat width 1)))
  | xor =>
      rw [opcode] at known
      cases known
      simp only [ReductionInfo.keepsItself, opcode, Bool.false_eq_true, false_iff]
      exact fun keeps => one ((keeps (BitVec.ofNat width 1)).symm.trans BitVec.xor_self)
  | and =>
      rw [opcode] at known
      cases known
      simp [ReductionInfo.keepsItself, opcode]
  | or =>
      rw [opcode] at known
      cases known
      simp [ReductionInfo.keepsItself, opcode]
  | mul =>
      rw [opcode] at known
      cases known
      simp only [ReductionInfo.keepsItself, opcode, type, decide_eq_true_eq, PhiType.int.injEq]
      constructor
      · rintro rfl
        decide
      · intro keeps
        by_contra other
        exact two_mul_two_ne (by omega) (keeps (BitVec.ofNat width 2))
  | _ => simp [opcode, BinaryOp.onBits] at known

/-- A constant of the type of a reduction. -/
theorem holds_constant (info : ReductionInfo) : info.Holds (info.type.constant 0 0) := by
  unfold ReductionInfo.Holds PhiType.constant
  cases info.type <;> exact ⟨_, rfl⟩

/-- Where the chunks agree, a sum that is combined with itself stays the same. -/
theorem ChunksAgree.keeps (agree : loop.ChunksAgree interp reductions)
    (detected : loop.Detected reductions) (integral : interp.Integral)
    (found : reductions[slot]? = some info) (type : info.type = .int width)
    (known : info.opcode.onBits = some onBits) (itself : info.addsItself = true)
    (computed : Operand → Value) (typed : ∀ other ∈ reductions, other.Holds (computed other.rhs))
    (bits : BitVec width) : onBits bits bits = bits := by
  obtain ⟨unit, identity, neutral⟩ := neutral_onBits type known
  let inits := reductions.map fun other =>
    if other = info then .int width bits else other.type.constant 0 0
  have initial : inits.getD slot default = .int width bits := by
    simp [inits, List.getD_eq_getElem?_getD, found]
  have holds : List.Forall₂ ReductionInfo.Holds reductions inits := by
    refine List.forall₂_map_right_iff.mpr (List.forall₂_same.mpr fun other _ => ?_)
    split
    · rename_i same
      rw [same, ReductionInfo.Holds, type]
      exact ⟨bits, rfl⟩
    · exact holds_constant other
  have same := agree inits [[computed]] holds (by simpa using typed)
  -- One iteration in one chunk: the partial sum is the identity.
  have adds {bits : BitVec width} : contribution info (.int width bits) computed =
      .int width bits := by
    rw [contribution, itself]
    rfl
  have partialSum := accumulate_int detected integral found known
    ((identity_getD found).trans identity) adds
  have parts : ([[computed]].map (loop.partialSums interp reductions)).map
      (·.getD slot default) = [onBits unit unit].map (.int width) := by
    simpa [partialSums] using partialSum
  have chunked := combineSums_getD integral found known identity initial parts
  have serial := accumulate_int detected integral found known initial adds
  rw [same] at chunked
  have value := serial.symm.trans chunked
  rw [List.foldl_cons, List.foldl_nil, neutral, neutral, neutral] at value
  exact eq_of_heq (Value.int.inj value).2

/-- Where the chunks agree, the combine of a partitioned loop has the sums of the serial loop. -/
theorem ChunksAgree.finalVals_eq (agree : loop.ChunksAgree interp reductions)
    (sums : loop.Sums reductions) (distinct : (reductions.map (·.phi)).Nodup)
    (outlinable : loop.Outlinable) {index width : Nat} {next : Operand}
    (induction : loop.IsInduction index width next) (undef : Value) (config : LoopParallelConfig)
    (tripCount : BitVec 64)
    (initial : List.Forall₂ ReductionInfo.Holds reductions (sumsOf reductions (loop.start outer)))
    (typed : ∀ iteration, ∀ info ∈ reductions,
      info.Holds (loop.computedAt interp outer memory iteration info.rhs)) :
    loop.finalVals interp outer reductions ((config.parts tripCount).map fun part =>
      (((loop.workerOf reductions width).step interp (loop.collectCaptures.map outer) undef
        memory)^[part.chunk.length]
          ((loop.workerOf reductions width).start part.start)).accumulators) =
      sumsOf reductions ((loop.iterate interp outer memory)^[tripCount.toNat]
        (loop.start outer)) := by
  let chunks := (config.parts tripCount).map fun part =>
    part.chunk.iterations.map (loop.computedAt interp outer memory)
  have parts : ((config.parts tripCount).map fun part =>
      (((loop.workerOf reductions width).step interp (loop.collectCaptures.map outer) undef
        memory)^[part.chunk.length]
          ((loop.workerOf reductions width).start part.start)).accumulators) =
      chunks.map (loop.partialSums interp reductions) := by
    simp only [chunks, List.map_map]
    refine List.map_congr_left fun part _ => ?_
    have chunk := @Sums.accumulators_eq _ interp _ outer memory sums distinct outlinable _ _ _
      induction undef part.chunk
    simpa [SpawnedPart.chunk] using chunk
  have covered : chunks.flatten =
      (List.range' 0 tripCount.toNat).map (loop.computedAt interp outer memory) := by
    rw [← List.range_eq_range', ← config.flatMap_parts tripCount, List.map_flatMap]
    rfl
  have together := agree (sumsOf reductions (loop.start outer)) chunks initial (by
    intro chunk member computed inside
    obtain ⟨part, -, rfl⟩ := List.mem_map.mp member
    obtain ⟨iteration, -, rfl⟩ := List.mem_map.mp inside
    exact typed iteration)
  rw [parts, finalVals_eq_combineSums, together, covered,
    sums.foldl_iterates distinct (reached_start sums.accepted.induction interp outer)]

/-- **Chunked reductions.** The partial sums of consecutive chunks, folded from the identities and
combined with the initial values, are the sums of the serial loop exactly if every sum that is
combined with itself has an operation that leaves it as it is. -/
theorem chunks_agree_iff (loop : Loop) (interp : Interpretation) (integral : interp.Integral)
    {carried : List Nat} (nodup : carried.Nodup) {reductions : List ReductionInfo}
    (mapped : carried.mapM loop.detectReduction = some reductions)
    (integer : ∀ info ∈ reductions, info.IsInteger) (typeOf : Operand → PhiType)
    (typed : ∀ info ∈ reductions, typeOf info.rhs = info.type) :
    loop.ChunksAgree interp reductions ↔
      ∀ info ∈ reductions, info.addsItself = true → info.keepsItself = true := by
  have detected := detected_of_mapM nodup mapped
  constructor
  · intro agree info member itself
    obtain ⟨op, width, positive, type⟩ := integer info member
    obtain ⟨onBits, known⟩ := onBits_of_isInteger op width
    obtain ⟨slot, found⟩ := List.mem_iff_getElem?.mp member
    have constants : ∀ other ∈ reductions, other.Holds ((typeOf other.rhs).constant 0 0) := by
      intro other also
      rw [typed other also]
      exact holds_constant other
    exact (keepsItself_iff type positive known).mpr
      (agree.keeps detected integral found type known itself
        (fun operand => (typeOf operand).constant 0 0) constants)
  · intro kept inits chunks initial typed
    obtain ⟨length, holds⟩ := List.forall₂_iff_get.mp initial
    refine eq_of_slots reductions (by simp [combineSums]) (length_foldl_accumulate length.symm _)
      fun slot info found => ?_
    have member := List.mem_of_getElem? found
    obtain ⟨op, width, positive, type⟩ := integer info member
    obtain ⟨onBits, known⟩ := onBits_of_isInteger op width
    obtain ⟨bound, same⟩ := List.getElem?_eq_some_iff.mp found
    have value : info.Holds (inits.getD slot default) := by
      have there := holds slot bound (length ▸ bound)
      simpa [List.getD_eq_getElem?_getD, length ▸ bound, same] using there
    exact combineSums_partialSums detected integral found type known
      (fun itself => (keepsItself_iff type positive known).mp (kept info member itself))
      (eq_bitsOf type value) fun chunk inside computed here =>
        typed chunk inside computed here info member

theorem chunks_agree_summing : summingBottom.ChunksAgree wordwise [summingReduction] :=
  (chunks_agree_iff summingBottom wordwise wordwise_integral (List.nodup_singleton 1)
    (show [1].mapM summingBottom.detectReduction = some [summingReduction] by decide)
    (by simpa [ReductionInfo.IsInteger] using ⟨rfl, 32, by decide, rfl⟩)
    (fun _ => .int 32) (by simp [summingReduction])).mpr (by decide)

/-- `i = 0; s = 3; do { s *= s; i++; } while (i < 4)`, with the test in the latch block. -/
def squaring : Loop where
  phis :=
    [{ type := .int 32, init := .const (.int 32 0), next := .body 1 },
      { type := .int 32, init := .const (.int 32 3), next := .body 0 }]
  header := []
  bodyPhis := []
  body :=
    [{ opcode := .binary .mul, operands := [.phi 1, .phi 1] },
      { opcode := .binary .add, operands := [.phi 0, .const (.int 32 1)] },
      { opcode := .pure ['i', 'c', 'm', 'p'], operands := [.body 1, .const (.int 32 4)] }]
  shape := .bottomTested
  exit := { condition := .body 2, cases := [.int 1 0], onMatch := true }
  single := nofun
  headerDominated := by decide
  bodyDominated := by decide

def squaringReduction : ReductionInfo where
  phi := 1
  type := .int 32
  binop := .body 0
  rhs := .phi 1
  opcode := .mul

/-- One iteration squares 3, but its partial product is 1 and the combine leaves 3. -/
theorem squares_lost :
    [1].mapM squaring.detectReduction = some [squaringReduction] ∧ squaringReduction.IsInteger ∧
      (∀ computed, [[computed]].flatten.foldl (squaring.accumulate wordwise [squaringReduction])
          [.int 32 3] = [.int 32 9] ∧
        combineSums wordwise [squaringReduction] [.int 32 3]
          ([[computed]].map (squaring.partialSums wordwise [squaringReduction])) = [.int 32 3]) ∧
      ¬ squaring.ChunksAgree wordwise [squaringReduction] := by
  refine ⟨by decide, ⟨rfl, 32, by decide, rfl⟩, fun _ => ⟨rfl, rfl⟩, fun agree => ?_⟩
  have same := agree [.int 32 3] [[fun _ => .int 32 3]] (.cons ⟨3, rfl⟩ .nil)
    (by simp [ReductionInfo.Holds, squaringReduction])
  revert same
  decide

end Loop
end Transforms
end TopoLlvm
