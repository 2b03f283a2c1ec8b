import TopoLlvm.Transforms.OutlineFidelity

/-!
# The order of chunks

A loop that passes the gates does not both read and write memory, so what an iteration writes does
not depend on the iterations before it.  Running the iterations in chunks, whole chunks in any
order, therefore leaves the memory of the serial run exactly if any two iterations leave the same
in every cell that both write.
-/

namespace TopoLlvm
namespace Transforms

open Overwrite

section Blocks

variable {Ref : Type} {interp : Interpretation} {memory other : Memory}
  {resolve : List Value → Ref → Value} {observe : Nat → Inst Ref → (Ref → Value) → List Event}

/-- The outcome follows writes that came before the block. -/
structure Outcome.Follows (before : Writes) (outcome alone : Outcome) : Prop where
  values : outcome.values = alone.values
  writes : outcome.writes = before ++ alone.writes

variable (memory other resolve observe) in
/-- Code that does not read memory does the same whatever was written before it. -/
theorem Outcome.Follows.execInsts {before : Writes} {insts : List (Inst Ref)}
    {outcome alone : Outcome} (follows : outcome.Follows before alone)
    (unread : ∀ inst ∈ insts, ∀ operands first second,
      interp.exec inst.opcode operands first = interp.exec inst.opcode operands second) :
    (Transforms.execInsts interp memory resolve observe outcome insts).Follows before
      (Transforms.execInsts interp other resolve observe alone insts) := by
  induction insts generalizing outcome alone with
  | nil => exact follows
  | cons inst insts ih =>
      rw [execInsts_cons, execInsts_cons]
      refine ih ?_ fun inst member => unread inst (List.mem_cons_of_mem _ member)
      have result := unread inst (List.mem_cons_self ..)
        (inst.operands.map (resolve alone.values)) (overwrite memory outcome.writes)
        (overwrite other alone.writes)
      constructor
      · rw [execInst, execInst, follows.values, result]
      · rw [execInst, execInst, follows.values, result, ← List.append_assoc, ← follows.writes]

/-- Code that does not write memory leaves no writes. -/
theorem execInsts_unwritten {insts : List (Inst Ref)}
    (unwritten : ∀ inst ∈ insts, ∀ operands first, (interp.exec inst.opcode operands first).2 = [])
    (outcome : Outcome) :
    (execInsts interp memory resolve observe outcome insts).writes = outcome.writes := by
  induction insts generalizing outcome with
  | nil => rfl
  | cons inst insts ih =>
      rw [execInsts_cons, ih fun inst member => unwritten inst (List.mem_cons_of_mem _ member)]
      simp only [execInst, unwritten inst (List.mem_cons_self ..), List.append_nil]

end Blocks

namespace Loop

variable {loop : Loop} {reductions : List ReductionInfo}

/-- No instruction of the loop reads memory. -/
def Unread (loop : Loop) (interp : Interpretation) : Prop :=
  ∀ inst ∈ loop.insts, ∀ operands first second,
    interp.exec inst.opcode operands first = interp.exec inst.opcode operands second

/-- No instruction of the loop writes memory. -/
def Unwritten (loop : Loop) (interp : Interpretation) : Prop :=
  ∀ inst ∈ loop.insts, ∀ operands memory, (interp.exec inst.opcode operands memory).2 = []

/-- A loop that passes the gates does not both read and write memory. -/
theorem Accepted.unread_or_unwritten (accepted : loop.Accepted reductions)
    (interp : Interpretation) : loop.Unread interp ∨ loop.Unwritten interp := by
  have plain := List.any_eq_false.mp accepted.synchronized
  rcases Bool.and_eq_false_iff.mp accepted.independent with unread | unwritten
  · left
    intro inst member operands first second
    have silent := List.any_eq_false.mp unread inst member
    have plain := plain inst member
    cases opcode : inst.opcode with
    | binary op => rfl
    | pure name => rfl
    | store type => rfl
    | load type => simp [hasLoad, opcode] at silent
    | call site =>
        refine interp.call_unread site ?_ operands first second
        simpa [hasLoad, opcode] using silent
    | _ => simp [opcode] at plain
  · right
    intro inst member operands memory
    have silent := List.any_eq_false.mp unwritten inst member
    have plain := plain inst member
    cases opcode : inst.opcode with
    | binary op => rfl
    | pure name => rfl
    | load type => rfl
    | store type => simp [hasStore, opcode] at silent
    | call site =>
        refine interp.call_unwritten site ?_ operands memory
        simpa [hasStore, opcode] using silent
    | _ => simp [opcode] at plain

section Writes

variable (loop) (interp : Interpretation) (outer : Nat → Value) (memory : Memory)

/-- What an iteration writes. -/
def iterationWrites (index : Nat) : Writes :=
  (loop.iterate interp outer memory
    { phis := loop.phisAt index, writes := [], log := [] }).writes

/-- What the evaluation of the header that leaves the loop writes. -/
def closingWrites (count : Nat) : Writes :=
  if loop.shape = .topTested then
    (loop.execHeader interp outer memory (loop.phisAt count) []).writes
  else []

end Writes

variable (interp : Interpretation) (outer : Nat → Value) (memory other : Memory)

variable {interp} in
theorem Unread.execHeader (unread : loop.Unread interp) (phis : List Value) (writes : Writes) :
    (loop.execHeader interp outer other phis writes).Follows writes
      (loop.execHeader interp outer memory phis []) :=
  Outcome.Follows.execInsts other memory _ _ ⟨rfl, (List.append_nil _).symm⟩
    fun inst member => unread inst (List.mem_append_left _ member)

variable {interp} in
theorem Unread.execBody (unread : loop.Unread interp) (phis : List Value) {writes : Writes}
    {header alone : Outcome} (follows : header.Follows writes alone) :
    (loop.execBody interp outer other phis header).Follows writes
      (loop.execBody interp outer memory phis alone) := by
  unfold Loop.execBody
  rw [follows.values]
  exact Outcome.Follows.execInsts other memory _ _ ⟨rfl, follows.writes⟩
    fun inst member => unread inst (List.mem_append_right _ member)

variable {interp} in
theorem Unwritten.execHeader (unwritten : loop.Unwritten interp) (phis : List Value)
    (writes : Writes) : (loop.execHeader interp outer memory phis writes).writes = writes :=
  execInsts_unwritten (fun inst member => unwritten inst (List.mem_append_left _ member)) _

variable {interp} in
theorem Unwritten.execBody (unwritten : loop.Unwritten interp) (phis : List Value)
    (header : Outcome) : (loop.execBody interp outer memory phis header).writes = header.writes :=
  execInsts_unwritten (fun inst member => unwritten inst (List.mem_append_right _ member)) _

/-- The header writes the same whatever was written before it. -/
theorem Accepted.execHeader_writes (accepted : loop.Accepted reductions) {phis : List Value}
    {index : Nat} (current : loop.AtIteration index phis) (writes : Writes) :
    (loop.execHeader interp outer other phis writes).writes =
      writes ++ (loop.execHeader interp outer memory (loop.phisAt index) []).writes := by
  rcases accepted.unread_or_unwritten interp with unread | unwritten
  · rw [(unread.execHeader outer memory other phis writes).writes,
      (accepted.execHeader_related current.agree []).writes]
  · rw [unwritten.execHeader, unwritten.execHeader, List.append_nil]

/-- An iteration writes the same whatever was written before it. -/
theorem Accepted.iterate_writes (accepted : loop.Accepted reductions) {state : State}
    {index : Nat} (current : loop.AtIteration index state.phis) :
    (loop.iterate interp outer other state).writes =
      state.writes ++ loop.iterationWrites interp outer memory index := by
  simp only [iterationWrites, iterate]
  rcases accepted.unread_or_unwritten interp with unread | unwritten
  · have header := unread.execHeader outer memory other state.phis state.writes
    rw [(unread.execBody outer memory other state.phis header).writes,
      (accepted.execBody_related current.agree
        (accepted.execHeader_related current.agree [])).writes]
  · rw [unwritten.execBody, unwritten.execHeader, unwritten.execBody, unwritten.execHeader,
      List.append_nil]

/-- Consecutive iterations write what each of them writes. -/
theorem Accepted.iterates_writes (accepted : loop.Accepted reductions) {first : Nat}
    {state : State} (current : loop.AtIteration first state.phis) (length : Nat) :
    ((loop.iterate interp outer other)^[length] state).writes = state.writes ++
      (List.range' first length).flatMap (loop.iterationWrites interp outer memory) := by
  induction length with
  | zero => exact (List.append_nil _).symm
  | succ length ih =>
      have next := current.iterates interp outer other accepted.induction length
      rw [Function.iterate_succ_apply', accepted.iterate_writes interp outer memory other next, ih,
        List.append_assoc, List.range'_concat, List.flatMap_append, List.flatMap_singleton,
        Nat.one_mul]

/-- A serial run writes what its iterations write, and what the header writes when it leaves. -/
theorem Accepted.run_writes (accepted : loop.Accepted reductions) {fuel : Nat} {result : Result}
    (returns : loop.run interp outer memory fuel (loop.start outer) = some result) :
    result.writes =
      (List.range result.log.length).flatMap (loop.iterationWrites interp outer memory) ++
        loop.closingWrites interp outer memory result.log.length := by
  obtain ⟨count, last, rounds, leaves⟩ := turns_of_run returns
  have counted := length_log_of_turns rounds
  have began := atIteration_start outer accepted.induction
  have current := began.iterates interp outer memory accepted.induction count
  have writes := accepted.iterates_writes interp outer memory memory began count
  rw [← turns_eq_iterate rounds, ← List.range_eq_range',
    show (loop.start outer).writes = [] from rfl, List.nil_append] at writes
  rw [← turns_eq_iterate rounds, Nat.zero_add] at current
  rcases loop.turn_cases interp outer memory last with ⟨top, went⟩ | ⟨bottom, went⟩ | went
  · cases leaves.symm.trans went
    rw [accepted.execHeader_writes interp outer memory memory current, writes, counted,
      closingWrites, if_pos top]
  · cases leaves.symm.trans went
    rw [accepted.iterate_writes interp outer memory memory current, writes, closingWrites,
      if_neg bottom, List.append_nil]
    simp only [iterate, List.length_append, List.length_singleton, counted, List.range_succ,
      List.flatMap_append, List.flatMap_singleton]
  · cases leaves.symm.trans went

end Loop

/-- Consecutive iterations that one task executes. -/
structure Chunk where
  first : Nat
  length : Nat

def Chunk.iterations (chunk : Chunk) : List Nat := List.range' chunk.first chunk.length

/-- The iteration range, split into consecutive chunks. -/
structure Partition (count : Nat) where
  chunks : List Chunk
  covers : chunks.flatMap Chunk.iterations = List.range count

/-- An iteration in a chunk of its own. -/
def Chunk.single (index : Nat) : Chunk where
  first := index
  length := 1

theorem flatMap_single (order : List Nat) :
    (order.map Chunk.single).flatMap Chunk.iterations = order := by
  rw [List.flatMap_map]
  exact List.flatMap_singleton' order

/-- Every iteration in a chunk of its own. -/
def Partition.singles (count : Nat) : Partition count where
  chunks := (List.range count).map Chunk.single
  covers := flatMap_single _

namespace Loop

variable (loop : Loop) (interp : Interpretation) (outer : Nat → Value) (memory : Memory)
  (reductions : List ReductionInfo)

/-- The phi nodes with which a chunk begins: partial sums begin at the identity. -/
def chunkPhis (first : Nat) : List Value :=
  loop.phis.mapIdx fun index phi =>
    if loop.canonicalInductionVariable = some index then
      match phi.type with
      | .int width => .int width (BitVec.ofNat width first)
      | _ => default
    else match reductions.find? (·.phi = index) with
      | some info => info.getIdentity
      | none => default

/-- Run the iterations of a chunk on a memory. -/
def runChunk (memory : Memory) (chunk : Chunk) : Memory :=
  overwrite memory ((loop.iterate interp outer memory)^[chunk.length]
    { phis := loop.chunkPhis reductions chunk.first, writes := [], log := [] }).writes

/-- Run chunks one after another, and the header's last evaluation after them. -/
def runChunks (count : Nat) (memory : Memory) (chunks : List Chunk) : Memory :=
  let reached := chunks.foldl (loop.runChunk interp outer reductions) memory
  overwrite reached (loop.closingWrites interp outer reached count)

/-- However the iterations are split and in whatever order the chunks run, they leave the memory
of the serial run. -/
def OrderIrrelevant (result : Result) : Prop :=
  ∀ (partition : Partition result.log.length) (order : List Chunk),
    order.Perm partition.chunks →
      loop.runChunks interp outer reductions result.log.length memory order =
        overwrite memory result.writes

/-- Any two iterations leave the same in every cell that both write, unless the header writes it
when it leaves the loop. -/
def IterationsAgree (count : Nat) : Prop :=
  ∀ left < count, ∀ right < count,
    Overwrite.Agree (loop.iterationWrites interp outer memory)
      (loop.closingWrites interp outer memory count) left right

variable {loop reductions}

variable (reductions) in
theorem atIteration_chunkPhis (canonical : loop.canonicalInductionVariable ≠ none) (first : Nat) :
    loop.AtIteration first (loop.chunkPhis reductions first) := by
  obtain ⟨index, width, next, induction⟩ := exists_induction canonical
  apply induction.atIteration (by simp [chunkPhis])
  rw [List.getD_eq_getElem?_getD, chunkPhis, List.getElem?_mapIdx, induction.found,
    Option.map_some, Option.getD_some, if_pos induction.canonical]

/-- The worker of an outlinable loop runs a chunk and returns; it leaves the memory that the
iterations leave. -/
theorem Accepted.run_worker (accepted : loop.Accepted reductions) (outlinable : loop.Outlinable)
    {width : Nat} (found : loop.inductionWidth = some width) (undef : Value) {chunk : Chunk}
    (small : chunk.first + chunk.length < 2 ^ 63) :
    let worker := loop.workerOf reductions width
    ∃ turns state,
      worker.run interp (worker.captures.map outer) undef memory
        (BitVec.ofNat 64 (chunk.first + chunk.length)) turns
          (worker.start (BitVec.ofNat 64 chunk.first)) = some state ∧
      overwrite memory state.writes = loop.runChunk interp outer reductions memory chunk := by
  intro worker
  obtain ⟨index, other, next, induction⟩ := exists_induction accepted.induction
  obtain rfl : other = width := Option.some.inj (induction.inductionWidth.symm.trans found)
  have began : loop.Simulates chunk.first
      { phis := loop.chunkPhis reductions chunk.first, writes := [], log := [] }
      (worker.start (BitVec.ofNat 64 chunk.first)) :=
    ⟨atIteration_chunkPhis reductions accepted.induction chunk.first, rfl, rfl, rfl⟩
  have done := accepted.simulates_iterates interp outer memory undef outlinable induction began
    chunk.length
  have stop : (BitVec.ofNat 64 (chunk.first + chunk.length)).toNat = chunk.first + chunk.length :=
    Nat.mod_eq_of_lt (by omega)
  have first : (BitVec.ofNat 64 chunk.first).toNat = chunk.first := Nat.mod_eq_of_lt (by omega)
  refine ⟨chunk.length + 1, _,
    worker.run_eq_iterate _ _ _ _ (stop.trans_lt small) chunk.length ?_, ?_⟩
  · simp only [Worker.start, first, stop]
  · exact congrArg (overwrite memory) done.writes

/-- A chunk writes what its iterations write. -/
theorem Accepted.runChunk_eq (accepted : loop.Accepted reductions) (other : Memory)
    (chunk : Chunk) :
    loop.runChunk interp outer reductions other chunk =
      overwrite other (chunk.iterations.flatMap (loop.iterationWrites interp outer memory)) := by
  have current := atIteration_chunkPhis reductions accepted.induction chunk.first
  rw [runChunk, accepted.iterates_writes interp outer memory other current]
  rfl

/-- Chunks write what their iterations write. -/
theorem Accepted.foldl_runChunk (accepted : loop.Accepted reductions) (chunks : List Chunk)
    (other : Memory) :
    chunks.foldl (loop.runChunk interp outer reductions) other =
      overwrite other ((chunks.flatMap Chunk.iterations).flatMap
        (loop.iterationWrites interp outer memory)) := by
  induction chunks generalizing other with
  | nil => rfl
  | cons chunk chunks ih =>
      rw [List.foldl_cons, ih, accepted.runChunk_eq interp outer memory, List.flatMap_cons,
        List.flatMap_append, overwrite_append]

/-- The header writes the same when it leaves the loop in any memory. -/
theorem Accepted.closingWrites_eq (accepted : loop.Accepted reductions) (other : Memory)
    (count : Nat) :
    loop.closingWrites interp outer other count = loop.closingWrites interp outer memory count := by
  have current := atIteration_chunkPhis reductions accepted.induction count
  unfold closingWrites
  split
  · have same := accepted.execHeader_writes interp outer memory other current []
    have here := accepted.execHeader_writes interp outer other other current []
    exact here.symm.trans same
  · rfl

theorem Accepted.runChunks_eq (accepted : loop.Accepted reductions) (count : Nat)
    (chunks : List Chunk) :
    loop.runChunks interp outer reductions count memory chunks =
      overwrite memory ((chunks.flatMap Chunk.iterations).flatMap
        (loop.iterationWrites interp outer memory) ++
          loop.closingWrites interp outer memory count) := by
  simp only [runChunks]
  rw [accepted.closingWrites_eq interp outer memory, accepted.foldl_runChunk interp outer memory,
    overwrite_append]

/-- For a loop that passes the gates, and a run of it that terminates, neither the partition of
the iterations nor the order of the chunks matters exactly if any two iterations agree on the cells
that both write. -/
theorem gates_sound_iff (loop : Loop) (interp : Interpretation) (reductionEnabled : Bool)
    {reductions : List ReductionInfo}
    (candidate : loop.candidateReductions reductionEnabled = some reductions)
    (outer : Nat → Value) (memory : Memory) {fuel : Nat} {result : Result}
    (returns : loop.run interp outer memory fuel (loop.start outer) = some result) :
    loop.OrderIrrelevant interp outer memory reductions result ↔
      loop.IterationsAgree interp outer memory result.log.length := by
  have accepted := accepted_of_candidate candidate
  have serial := accepted.run_writes interp outer memory returns
  constructor
  · intro irrelevant left leftBound right rightBound
    have chunked (order : List Nat) (perm : order.Perm (List.range result.log.length)) :
        overwrite memory (order.flatMap (loop.iterationWrites interp outer memory) ++
          loop.closingWrites interp outer memory result.log.length) =
        overwrite memory result.writes := by
      have same := irrelevant (.singles _) _ (perm.map Chunk.single)
      rwa [accepted.runChunks_eq, flatMap_single] at same
    rw [serial] at chunked
    exact agree_of_overwrite_perm chunked (List.mem_range.mpr leftBound)
      (List.mem_range.mpr rightBound)
  · intro agree partition order perm
    rw [accepted.runChunks_eq, serial]
    refine overwrite_perm ?_ (fun left leftMember right rightMember => ?_) memory
    · exact partition.covers ▸ perm.flatMap_right _
    · exact agree left (List.mem_range.mp leftMember) right (List.mem_range.mp rightMember)

/-- Iterations that write to cells of their own. -/
theorem gates_sound_testingHeader :
    testingHeader.candidateReductions false = some [] ∧
      ∃ result,
        testingHeader.run bytewise (fun _ => .pointer 0) (fun _ => 7) 3
          (testingHeader.start fun _ => .pointer 0) = some result ∧
        testingHeader.OrderIrrelevant bytewise (fun _ => .pointer 0) (fun _ => 7) [] result := by
  have candidate : testingHeader.candidateReductions false = some [] := by decide
  have writes {index : Nat} (bound : index < 2) :
      testingHeader.iterationWrites bytewise (fun _ => .pointer 0) (fun _ => 7) index =
        [(index, UInt8.ofNat index)] := by
    obtain rfl | rfl : index = 0 ∨ index = 1 := by omega
    · rfl
    · rfl
  obtain ⟨result, returns, length⟩ : ∃ result,
      testingHeader.run bytewise (fun _ => .pointer 0) (fun _ => 7) 3
        (testingHeader.start fun _ => .pointer 0) = some result ∧ result.log.length = 2 :=
    ⟨_, rfl, rfl⟩
  refine ⟨candidate, result, returns, ?_⟩
  apply (gates_sound_iff testingHeader bytewise false candidate _ _ returns).mpr
  rw [length]
  intro left leftBound right rightBound cell first second one other uncovered
  rw [writes leftBound, lastWrite_singleton, Option.ite_none_right_eq_some] at one
  rw [writes rightBound, lastWrite_singleton, Option.ite_none_right_eq_some] at other
  obtain rfl : left = right := one.1.trans other.1.symm
  exact Option.some.inj (one.2.symm.trans other.2)

/-- `for (i = 0; i < 2; i++) *p = i`. -/
def storingOnce : Loop where
  phis := [{ type := .int 32, init := .const (.int 32 0), next := .body 1 }]
  header := [{ opcode := .pure ['i', 'c', 'm', 'p'], operands := [.phi 0, .const (.int 32 2)] }]
  bodyPhis := []
  body :=
    [{ opcode := .store ['i', '8'], operands := [.phi 0, .outer 0] },
      { opcode := .binary .add, operands := [.phi 0, .const (.int 32 1)] }]
  shape := .topTested
  exit := { condition := .header 0, cases := [.int 1 0], onMatch := true }
  single := nofun
  headerDominated := by decide
  bodyDominated := by decide

/-- Two iterations that store to one cell pass the gates; the last of them should win, but any of
them can come last. -/
theorem gates_unsound_storingOnce :
    storingOnce.candidateReductions false = some [] ∧
      ∃ result,
        storingOnce.run bytewise (fun _ => .pointer 0) (fun _ => 7) 3
          (storingOnce.start fun _ => .pointer 0) = some result ∧
        ¬ storingOnce.OrderIrrelevant bytewise (fun _ => .pointer 0) (fun _ => 7) [] result := by
  refine ⟨by decide, _, rfl, fun irrelevant => ?_⟩
  have reversed := irrelevant (.singles 2) [.single 1, .single 0] (.swap ..)
  exact absurd (congrFun reversed 0) (by decide)

end Loop
end Transforms
end TopoLlvm
