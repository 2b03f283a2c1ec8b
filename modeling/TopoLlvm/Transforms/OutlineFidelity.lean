import TopoLlvm.Transforms.OutlineLoopBody
import TopoLlvm.Transforms.LoopInduction

/-!
# What the worker reproduces

The worker executes the clones of the latch block as often as the original loop executes its body.
It does not execute the header, and phi nodes of the latch block have no counterpart in it.  So it
reproduces exactly the loops whose header does nothing but control the loop and whose body reads
neither header instructions nor its own phi nodes.
-/

namespace TopoLlvm
namespace Transforms

open Overwrite

/-- A value that the worker does not compute. -/
def Operand.isUncloned : Operand → Bool
  | .header _ | .bodyPhi _ => true
  | .const _ | .outer _ | .phi _ | .body _ => false

namespace Loop

/-- The header is all control, the body reads nothing else of it, and the induction variable fits
the worker's. -/
structure Outlinable (loop : Loop) : Prop where
  header : ∀ entry ∈ loop.header.zipIdx, loop.controls entry.2 entry.1 = true
  operands : ∀ inst ∈ loop.body, ∀ operand ∈ inst.operands, operand.isUncloned = false
  width : ∀ width, loop.inductionWidth = some width → width ≤ 64

/-- From every memory and all live-in values the loop returns, its body is executed as often as
the trip count says, and the worker over all iterations executes the same instructions with the
same operands in every iteration and writes the same bytes in the same order. -/
def Faithful (loop : Loop) (interp : Interpretation) (reductions : List ReductionInfo)
    (tripCount : BitVec 64) : Prop :=
  ∃ worker, loop.outlineLoopBody reductions = some worker ∧
    ∀ outer memory undef,
      ∃ fuel result, loop.run interp outer memory fuel (loop.start outer) = some result ∧
        ∃ turns state,
          worker.run interp (worker.captures.map outer) undef memory tripCount turns
            (worker.start 0) = some state ∧
          result.log.length = tripCount.toNat ∧ state.log = result.log ∧ result.closing = [] ∧
          state.writes = result.writes

variable {loop : Loop} {interp : Interpretation} {outer : Nat → Value} {memory : Memory}
  {reductions : List ReductionInfo} {undef : Value}

theorem IsInduction.inductionWidth {index width : Nat} {next : Operand}
    (induction : loop.IsInduction index width next) : loop.inductionWidth = some width := by
  rw [Loop.inductionWidth, induction.canonical, Option.bind_some, induction.found]

theorem outlineLoopBody_eq_some {worker : Worker} :
    loop.outlineLoopBody reductions = some worker ↔
      ∃ width, loop.inductionWidth = some width ∧ width ≤ 64 ∧
        loop.workerOf reductions width = worker := by
  simp only [outlineLoopBody, Option.bind_eq_some_iff]
  refine exists_congr fun width => and_congr_right fun _ => ?_
  split
  · rename_i wide
    exact ⟨nofun, fun ⟨narrow, _⟩ => absurd wide (Nat.not_lt.mpr narrow)⟩
  · rename_i narrow
    rw [Option.some.injEq]
    exact ⟨fun same => ⟨Nat.not_lt.mp narrow, same⟩, fun ⟨_, same⟩ => same⟩

theorem mem_collectCaptures {name : Nat} (used : .outer name ∈ loop.operands) :
    name ∈ loop.collectCaptures := by
  rw [collectCaptures, List.mem_eraseDups]
  exact List.mem_filterMap.mpr ⟨.outer name, used, rfl⟩

theorem mem_operands_body {inst : Inst Operand} (member : inst ∈ loop.body) {operand : Operand}
    (used : operand ∈ inst.operands) : operand ∈ loop.operands := by
  simp only [operands, List.mem_append, List.mem_flatMap]
  exact .inl (.inr ⟨inst, member, used⟩)

/-- The parent stores the captured values where the worker loads them. -/
theorem captured_getD {name : Nat} (captured : name ∈ loop.collectCaptures) :
    (loop.collectCaptures.map outer).getD (loop.collectCaptures.idxOf name) default =
      outer name := by
  rw [List.getD_eq_getElem?_getD, List.getElem?_map, List.getElem?_idxOf captured]
  rfl

/-- A partial sum has an accumulator in the worker. -/
theorem Accepted.findIdx?_isSome (accepted : loop.Accepted reductions) {index : Nat}
    (carried : loop.Carried index) :
    (reductions.findIdx? (·.phi = index)).isSome := by
  obtain ⟨info, member, detected⟩ := accepted.carried index carried.1 carried.2
  obtain ⟨phi, inst, -, same, -⟩ := detectReduction_spec detected
  rw [List.findIdx?_isSome, List.any_eq_true]
  exact ⟨info, member, decide_eq_true same⟩

/-- Partial sums, and nothing else, are remapped to accumulators. -/
theorem Accepted.isAccumulator_remap (accepted : loop.Accepted reductions) {position : Nat}
    {inst : Inst Operand} (found : loop.body[position]? = some inst) {operand : Operand}
    (used : operand ∈ inst.operands) :
    (loop.remap reductions position operand).isAccumulator = loop.isAccumulator operand := by
  have available := loop.bodyDominated (inst, position) (List.mem_zipIdx_iff_getElem?.mpr found)
    operand used
  cases operand with
  | phi index =>
      simp only [remap, isAccumulator]
      by_cases induction : loop.canonicalInductionVariable = some index
      · simp [induction, WorkerRef.isAccumulator]
      · have carried : loop.Carried index := ⟨of_decide_eq_true available, induction⟩
        obtain ⟨slot, there⟩ := Option.isSome_iff_exists.mp (accepted.findIdx?_isSome carried)
        simp [induction, there, WorkerRef.isAccumulator]
  | body index =>
      simp only [remap, isAccumulator]
      split <;> rfl
  | _ => rfl

/-- The worker observes the operands that the original observes. -/
theorem Accepted.observe_remap (accepted : loop.Accepted reductions) {position : Nat}
    {inst : Inst Operand} (found : loop.body[position]? = some inst) (value : WorkerRef → Value) :
    Worker.observe position
        { opcode := inst.opcode, operands := inst.operands.map (loop.remap reductions position) }
        value =
      [{ position := .body position
         operands := loop.observed (value ∘ loop.remap reductions position) inst }] := by
  have kept : (inst.operands.map (loop.remap reductions position)).filter
      (fun operand => !operand.isAccumulator) =
      (inst.operands.filter fun operand => !loop.isAccumulator operand).map
        (loop.remap reductions position) := by
    rw [List.filter_map]
    refine congrArg _ (List.filter_congr fun operand used => ?_)
    rw [Function.comp_apply, accepted.isAccumulator_remap found used]
  simp only [Worker.observe, observed, kept, List.map_map]

/-- The worker's state before an iteration, beside the state of the original loop. -/
structure Simulates (loop : Loop) (count : Nat) (state : State) (worker : Worker.State) :
    Prop where
  current : loop.AtIteration count state.phis
  index : worker.index = BitVec.ofNat 64 count
  writes : worker.writes = state.writes
  log : worker.log = state.log

variable (interp outer memory undef)

/-- An operand of the body has the value of its counterpart in the worker. -/
theorem Accepted.resolve_remap (accepted : loop.Accepted reductions) {index width : Nat}
    {next : Operand} (induction : loop.IsInduction index width next) (narrow : width ≤ 64)
    {count : Nat} {state : State} {worker : Worker.State}
    (simulates : loop.Simulates count state worker) {position : Nat} {inst : Inst Operand}
    (found : loop.body[position]? = some inst) {operand : Operand}
    (used : operand ∈ inst.operands) (cloned : operand.isUncloned = false)
    (visible : ∀ phi, operand = .phi phi → ¬ loop.Carried phi) (header : List Value)
    {values clones : List Value}
    (agree : ∀ other, ¬ loop.Accumulates (.body other) →
      values.getD other default = clones.getD other default) :
    { loop.bodyFrame outer state.phis header with body := values }.resolve operand =
      (loop.workerOf reductions width).resolve (loop.collectCaptures.map outer) undef worker clones
        (loop.remap reductions position operand) := by
  have available := loop.bodyDominated (inst, position) (List.mem_zipIdx_iff_getElem?.mpr found)
    operand used
  cases operand with
  | const value => rfl
  | outer name =>
      have captured := mem_collectCaptures
        (mem_operands_body (List.mem_of_getElem? found) used)
      exact (captured_getD captured).symm
  | phi phi =>
      have bound : phi < loop.phis.length := of_decide_eq_true available
      have canonical : loop.canonicalInductionVariable = some phi := by
        by_contra other
        exact visible phi rfl ⟨bound, other⟩
      obtain rfl : index = phi := Option.some.inj (induction.canonical.symm.trans canonical)
      have counts := simulates.current.agree index fun carried => carried.2 canonical
      rw [induction.phisAt_getD] at counts
      simp only [remap, canonical, if_true, Worker.resolve, simulates.index, workerOf]
      refine counts.trans (congrArg _ ?_)
      rw [BitVec.setWidth_ofNat_of_le narrow]
  | header other => cases cloned
  | bodyPhi other => cases cloned
  | body other =>
      have before : other < position := of_decide_eq_true available
      simp only [remap, before, if_true, Worker.resolve]
      have definition : loop.definition (.body position) = some inst := found
      exact agree other (accepted.not_accumulates definition used)

/-- The worker's iteration writes and does what the body of the original loop does. -/
theorem Accepted.execBody_worker (accepted : loop.Accepted reductions) {index width : Nat}
    {next : Operand} (induction : loop.IsInduction index width next) (narrow : width ≤ 64)
    (cloned : ∀ inst ∈ loop.body, ∀ operand ∈ inst.operands, operand.isUncloned = false)
    {count : Nat} {state : State} {worker : Worker.State}
    (simulates : loop.Simulates count state worker) {header : Outcome}
    (silent : header.writes = state.writes) :
    (loop.execBody interp outer memory state.phis header).Related
      (fun index => loop.Accumulates (.body index))
      ((loop.workerOf reductions width).execBody interp (loop.collectCaptures.map outer) undef
        memory worker) := by
  refine Outcome.Related.execInsts interp memory (by simp [workerOf]) 0 rfl
    ⟨rfl, fun _ _ => rfl, silent.trans simulates.writes.symm, rfl⟩ ?_
  intro position inst clone found clonedAt before after related length
  rw [Nat.zero_add] at length
  simp only [workerOf, List.getElem?_mapIdx, found, Option.map_some, Option.some.injEq] at clonedAt
  subst clonedAt
  have resolved {operand : Operand} (used : operand ∈ inst.operands) :=
    accepted.resolve_remap outer undef induction narrow simulates found used
      (cloned inst (List.mem_of_getElem? found) operand used)
  refine ⟨rfl, fun secret => ?_, fun visible => ?_, ?_⟩
  · exact accepted.silent_of_accumulates secret (by rw [length]; exact found)
  · rw [length] at visible
    rw [List.map_map]
    apply List.map_congr_left
    intro operand used
    refine resolved used (fun phi same => ?_) header.values related.values
    have definition : loop.definition (.body position) = some inst := found
    exact accepted.not_carried definition visible (same ▸ used)
  · rw [← related.length, length, accepted.observe_remap found, observeBody]
    refine congrArg (fun operands => [Event.mk (.body position) operands]) ?_
    apply List.map_congr_left
    intro operand member
    obtain ⟨used, visible⟩ := List.mem_filter.mp member
    exact resolved used (not_carried_of_isAccumulator (by simpa using visible)) header.values
      related.values

/-- Pure instructions that nobody observes leave no trace. -/
theorem execInsts_silent {Ref : Type} {resolve : List Value → Ref → Value}
    {observe : Nat → Inst Ref → (Ref → Value) → List Event} (insts : List (Inst Ref))
    (outcome : Outcome)
    (silent : ∀ entry ∈ insts.zipIdx outcome.values.length, entry.1.opcode.isPure = true ∧
      ∀ value, observe entry.2 entry.1 value = []) :
    (execInsts interp memory resolve observe outcome insts).writes = outcome.writes ∧
      (execInsts interp memory resolve observe outcome insts).log = outcome.log := by
  induction insts generalizing outcome with
  | nil => exact ⟨rfl, rfl⟩
  | cons inst insts ih =>
      obtain ⟨pure, unobserved⟩ := silent (inst, outcome.values.length)
        (List.mem_cons_self ..)
      obtain ⟨writes, log⟩ := ih (execInst interp memory resolve observe outcome inst)
        fun entry member => silent entry (by
          rw [List.zipIdx_cons]
          apply List.mem_cons_of_mem _
          simpa [execInst] using member)
      rw [execInsts_cons, writes, log]
      exact ⟨by simp [execInst, interp.exec_isPure pure], by simp [execInst, unobserved]⟩

/-- A header that only controls the loop leaves no trace. -/
theorem Outlinable.execHeader (outlinable : loop.Outlinable) (phis : List Value)
    (writes : Writes) :
    (loop.execHeader interp outer memory phis writes).writes = writes ∧
      (loop.execHeader interp outer memory phis writes).log = [] := by
  apply execInsts_silent interp memory loop.header _
  intro entry member
  have controls := outlinable.header entry member
  refine ⟨(Bool.and_eq_true_iff.mp controls).1, fun value => ?_⟩
  rw [observeHeader, if_pos controls]

/-- The worker follows the original loop through an iteration. -/
theorem Accepted.simulates_iterate (accepted : loop.Accepted reductions)
    (outlinable : loop.Outlinable) {index width : Nat} {next : Operand}
    (induction : loop.IsInduction index width next) {count : Nat} {state : State}
    {worker : Worker.State} (simulates : loop.Simulates count state worker) :
    loop.Simulates (count + 1) (loop.iterate interp outer memory state)
      ((loop.workerOf reductions width).step interp (loop.collectCaptures.map outer) undef memory
        worker) := by
  obtain ⟨silent, quiet⟩ := outlinable.execHeader interp outer memory state.phis
    state.writes
  have related := accepted.execBody_worker interp outer memory undef induction
    (outlinable.width width induction.inductionWidth)
    outlinable.operands simulates silent
  refine ⟨simulates.current.iterate interp outer memory accepted.induction, ?_,
    related.writes.symm, ?_⟩
  · simp only [Worker.step, simulates.index, BitVec.ofNat_add]
  · simp only [iterate, Worker.step, simulates.log, quiet, List.nil_append, related.log]

/-- The worker follows the original loop through any number of iterations. -/
theorem Accepted.simulates_iterates (accepted : loop.Accepted reductions)
    (outlinable : loop.Outlinable) {index width : Nat} {next : Operand}
    (induction : loop.IsInduction index width next) {first : Nat} {state : State}
    {worker : Worker.State} (simulates : loop.Simulates first state worker) (length : Nat) :
    loop.Simulates (first + length) ((loop.iterate interp outer memory)^[length] state)
      (((loop.workerOf reductions width).step interp (loop.collectCaptures.map outer) undef
        memory)^[length] worker) := by
  induction length with
  | zero => exact simulates
  | succ length ih =>
      rw [Function.iterate_succ_apply', Function.iterate_succ_apply']
      exact accepted.simulates_iterate interp outer memory undef outlinable induction ih

end Loop

namespace Worker

variable (worker : Worker) (interp : Interpretation) (captured : List Value) (undef : Value)
  (memory : Memory)

/-- The signed comparison of the worker's header on small numbers. -/
theorem slt_iff {index stop : BitVec 64} (index_lt : index.toNat < 2 ^ 63)
    (stop_lt : stop.toNat < 2 ^ 63) : index.slt stop = true ↔ index.toNat < stop.toNat := by
  rw [BitVec.slt_iff_toInt_lt, BitVec.toInt_eq_toNat_cond, BitVec.toInt_eq_toNat_cond,
    if_pos (by omega), if_pos (by omega)]
  exact Int.ofNat_lt

/-- The worker runs the iterations that remain and returns. -/
theorem run_eq_iterate {stop : BitVec 64} (stop_lt : stop.toNat < 2 ^ 63) (remaining : Nat)
    {state : State} (counts : state.index.toNat + remaining = stop.toNat) :
    worker.run interp captured undef memory stop (remaining + 1) state =
      some ((worker.step interp captured undef memory)^[remaining] state) := by
  induction remaining generalizing state with
  | zero =>
      have done : ¬ state.index.slt stop = true := by
        rw [slt_iff (by omega) stop_lt]
        omega
      rw [run, if_neg done]
      rfl
  | succ remaining ih =>
      have more : state.index.slt stop = true := by
        rw [slt_iff (by omega) stop_lt]
        omega
      rw [run, if_pos more, ih, Function.iterate_succ_apply]
      simp only [step, BitVec.toNat_add, BitVec.toNat_ofNat]
      omega

/-- A run of the worker only appends to the log. -/
theorem run_log {stop : BitVec 64} {fuel : Nat} {state last : State}
    (returns : worker.run interp captured undef memory stop fuel state = some last) :
    ∃ rest, last.log = state.log ++ rest := by
  induction fuel generalizing state with
  | zero => cases returns
  | succ fuel ih =>
      rw [run] at returns
      split at returns
      · obtain ⟨rest, extended⟩ := ih returns
        exact ⟨_, by rw [extended, step, List.append_assoc]⟩
      · cases returns
        exact ⟨[], (List.append_nil _).symm⟩

/-- The first iteration of a worker that executes its body at all. -/
theorem run_head {stop : BitVec 64} {fuel : Nat} {last : State}
    (returns : worker.run interp captured undef memory stop fuel (worker.start 0) = some last)
    (nonempty : 0 < last.log.length) :
    last.log.head? =
      some (worker.execBody interp captured undef memory (worker.start 0)).log := by
  cases fuel with
  | zero => cases returns
  | succ fuel =>
      rw [run] at returns
      split at returns
      · obtain ⟨rest, extended⟩ := worker.run_log interp captured undef memory returns
        rw [extended]
        rfl
      · cases returns
        cases nonempty

/-- The worker executes clones of body instructions only. -/
theorem execBody_positions (state : State) :
    ∀ event ∈ (worker.execBody interp captured undef memory state).log,
      ∃ index, event.position = .body index := by
  refine execInsts_log_forall _ _ _ _ (fun index inst value event member => ?_) _ _ nofun
  rw [List.mem_singleton.mp member]
  exact ⟨index, rfl⟩

end Worker

namespace Loop

variable {loop : Loop} {interp : Interpretation} {reductions : List ReductionInfo}

/-- The events of the header are recognizable. -/
theorem execHeader_positions (outer : Nat → Value) (memory : Memory) (phis : List Value)
    (writes : Writes) :
    ∀ event ∈ (loop.execHeader interp outer memory phis writes).log,
      ∃ index, event.position = .header index := by
  refine execInsts_log_forall _ _ _ _ (fun index inst value event member => ?_) _ _ nofun
  unfold observeHeader at member
  split at member
  · cases member
  · rw [List.mem_singleton.mp member]
    exact ⟨index, rfl⟩

/-- A header that leaves no trace does nothing but control the loop. -/
theorem controls_of_execHeader {outer : Nat → Value} {memory : Memory} {phis : List Value}
    {writes : Writes} (quiet : (loop.execHeader interp outer memory phis writes).log = [])
    {index : Nat} {inst : Inst Operand} (found : loop.header[index]? = some inst) :
    loop.controls index inst = true := by
  by_contra busy
  obtain ⟨before, values, later, -, length, -, logged⟩ := exists_before interp memory
    (fun values => { entryFrame outer phis with header := values }.resolve) loop.observeHeader
    { values := [], writes, log := [] } found
  rw [execHeader, logged] at quiet
  have silent := (List.append_eq_nil_iff.mp (List.append_eq_nil_iff.mp quiet).1).2
  rw [List.length_nil, Nat.zero_add] at length
  rw [length, observeHeader, if_neg busy] at silent
  cases silent

/-- In the first iteration a faithful worker executes what the loop executes. -/
theorem Faithful.head {tripCount : BitVec 64} (positive : 0 < tripCount.toNat)
    {worker : Worker}
    (reproduces : ∀ outer memory undef,
      ∃ fuel result, loop.run interp outer memory fuel (loop.start outer) = some result ∧
        ∃ turns state,
          worker.run interp (worker.captures.map outer) undef memory tripCount turns
            (worker.start 0) = some state ∧
          result.log.length = tripCount.toNat ∧ state.log = result.log ∧ result.closing = [] ∧
          state.writes = result.writes)
    (outer : Nat → Value) (memory : Memory) (undef : Value) :
    let header := loop.execHeader interp outer memory (loop.start outer).phis []
    let body := loop.execBody interp outer memory (loop.start outer).phis header
    header.log = [] ∧ body.log =
      (worker.execBody interp (worker.captures.map outer) undef memory (worker.start 0)).log := by
  intro header body
  obtain ⟨fuel, result, returns, turns, state, finishes, length, same, -, -⟩ :=
    reproduces outer memory undef
  have nonempty : 0 < result.log.length := length ▸ positive
  have whole := run_head returns nonempty
  have part := worker.run_head interp _ undef memory finishes (same ▸ nonempty)
  rw [same, whole, Option.some.injEq] at part
  have quiet : header.log = [] := by
    apply List.eq_nil_iff_forall_not_mem.mpr
    intro event member
    obtain ⟨index, place⟩ := execHeader_positions _ _ _ _ event member
    obtain ⟨other, elsewhere⟩ := worker.execBody_positions interp _ undef memory _ event
      (part ▸ List.mem_append_left _ member)
    cases place.symm.trans elsewhere
  refine ⟨quiet, ?_⟩
  rw [← part]
  exact (congrArg (· ++ body.log) quiet).symm

/-- A value different from a given one. -/
theorem exists_other_value (value : Value) : ∃ other, other ≠ value := by
  by_cases null : value = .pointer 0
  · exact ⟨.pointer 1, by simp [null]⟩
  · exact ⟨.pointer 0, Ne.symm null⟩

/-- Equal observations have equal observable operands. -/
theorem observed_congr {inst : Inst Operand} {left right : Operand → Value}
    (same : loop.observed left inst = loop.observed right inst) {operand : Operand}
    (used : operand ∈ inst.operands) (visible : loop.isAccumulator operand = false) :
    left operand = right operand :=
  List.map_inj_left.mp same operand (List.mem_filter.mpr ⟨used, by simpa using visible⟩)

/-- Where body and worker do the same in the first iteration, an instruction reads a value that
the worker does not compute only if it is the undefined one. -/
theorem Accepted.resolve_eq_undef (accepted : loop.Accepted reductions) {width : Nat}
    {outer : Nat → Value} {memory : Memory} {undef : Value} {phis : List Value} {header : Outcome}
    {state : Worker.State}
    (same : (loop.execBody interp outer memory phis header).log =
      ((loop.workerOf reductions width).execBody interp (loop.collectCaptures.map outer) undef
        memory state).log)
    {index : Nat} {inst : Inst Operand} (found : loop.body[index]? = some inst)
    {operand : Operand} (used : operand ∈ inst.operands) (uncloned : operand.isUncloned = true) :
    (loop.bodyFrame outer phis header.values).resolve operand = undef := by
  have cloned : (loop.workerOf reductions width).body[index]? =
      some { opcode := inst.opcode
             operands := inst.operands.map (loop.remap reductions index) } := by
    rw [workerOf, List.getElem?_mapIdx, found, Option.map_some]
  obtain ⟨values, original⟩ := execInsts_event interp memory
    (fun values => { loop.bodyFrame outer phis header.values with body := values }.resolve)
    loop.observeBody (fun _ _ _ => rfl) header.writes found
  obtain ⟨clones, copy⟩ := execInsts_event interp memory
    ((loop.workerOf reductions width).resolve (loop.collectCaptures.map outer) undef state)
    Worker.observe (fun _ _ _ => rfl) state.writes cloned
  have events := original.symm.trans ((congrArg (·[index]?) same).trans copy)
  have remapped := accepted.observe_remap found
    ((loop.workerOf reductions width).resolve (loop.collectCaptures.map outer) undef state clones)
  rw [Worker.observe, List.singleton_inj] at remapped
  rw [remapped, Option.some.injEq, Event.mk.injEq] at events
  cases operand with
  | header other => exact observed_congr events.2 used rfl
  | bodyPhi other => exact observed_congr events.2 used rfl
  | _ => cases uncloned

/-- A faithful worker's loop is outlinable. -/
theorem Accepted.outlinable_of_faithful (accepted : loop.Accepted reductions)
    {tripCount : BitVec 64} (positive : 0 < tripCount.toNat)
    (faithful : loop.Faithful interp reductions tripCount) : loop.Outlinable := by
  obtain ⟨worker, outlined, reproduces⟩ := faithful
  obtain ⟨width, induction, narrow, rfl⟩ := outlineLoopBody_eq_some.mp outlined
  have head := Faithful.head positive reproduces
  let outer : Nat → Value := fun _ => default
  let memory : Memory := fun _ => 0
  refine ⟨fun entry member => ?_, fun inst member operand used => ?_, fun other same => ?_⟩
  · have found := List.mem_zipIdx_iff_getElem?.mp member
    exact controls_of_execHeader (head outer memory default).1 found
  · by_contra uncloned
    obtain ⟨index, found⟩ := List.mem_iff_getElem?.mp member
    -- The clone may read any value where the original reads the one that it has computed.
    let header := loop.execHeader interp outer memory (loop.start outer).phis []
    let computed := (loop.bodyFrame outer (loop.start outer).phis header.values).resolve operand
    obtain ⟨other, differs⟩ := exists_other_value computed
    exact differs (accepted.resolve_eq_undef (head outer memory other).2 found used
      (by simpa using uncloned)).symm
  · rw [induction] at same
    cases same
    exact narrow

/-- The worker reproduces an outlinable loop. -/
theorem Accepted.faithful (accepted : loop.Accepted reductions) (outlinable : loop.Outlinable)
    {exitCount : ExitCount}
    (sound : ∀ outer memory, loop.takesBackedge interp outer memory exitCount.bits.toNat)
    {tripCount : BitVec 64} (found : loop.getTripCountValue (some exitCount) = some tripCount)
    (fits : exitCount.bits.toNat < 2 ^ 64) : loop.Faithful interp reductions tripCount := by
  obtain ⟨index, width, next, induction⟩ := exists_induction accepted.induction
  have narrow := outlinable.width width induction.inductionWidth
  refine ⟨_, outlineLoopBody_eq_some.mpr ⟨width, induction.inductionWidth, narrow, rfl⟩, ?_⟩
  intro outer memory undef
  obtain ⟨executions, small⟩ := toNat_getTripCountValue found fits
  obtain ⟨last, result, rounds, leaves⟩ := sound outer memory
  have began : loop.Simulates 0 (loop.start outer) ((loop.workerOf reductions width).start 0) :=
    ⟨atIteration_start outer accepted.induction, rfl, rfl, rfl⟩
  have simulates := accepted.simulates_iterates interp outer memory undef outlinable induction
    began
  have reached := turns_eq_iterate rounds
  have counted := length_log_of_turns rounds
  refine ⟨_, result, run_of_turns rounds leaves, tripCount.toNat + 1, _,
    Worker.run_eq_iterate _ _ _ _ _ small _ (by simp [Worker.start]), ?_⟩
  rcases loop.turn_cases interp outer memory last with ⟨top, went⟩ | ⟨bottom, went⟩ | went
  · -- A top-tested loop leaves from the header, after which the worker has nothing to do.
    cases leaves.symm.trans went
    obtain ⟨silent, quiet⟩ := outlinable.execHeader interp outer memory last.phis last.writes
    have executions : tripCount.toNat = exitCount.bits.toNat := by
      simpa [bodyExecutions, bottomTested, top] using executions
    have there := simulates exitCount.bits.toNat
    rw [← reached] at there
    rw [executions, silent]
    exact ⟨counted, there.log, quiet, there.writes⟩
  · cases leaves.symm.trans went
    have executions : tripCount.toNat = exitCount.bits.toNat + 1 := by
      simpa [bodyExecutions, bottomTested, bottom] using executions
    have there := simulates (exitCount.bits.toNat + 1)
    rw [Function.iterate_succ_apply', ← reached] at there
    rw [executions]
    exact ⟨by simp [iterate, counted], there.log, rfl, there.writes⟩
  · cases leaves.symm.trans went

/-- A loop that takes its backedge a number of times executes its body as often or once more. -/
theorem le_log_of_takesBackedge {outer : Nat → Value} {memory : Memory} {count fuel : Nat}
    {result : Result} (taken : loop.takesBackedge interp outer memory count)
    (returns : loop.run interp outer memory fuel (loop.start outer) = some result) :
    count ≤ result.log.length := by
  obtain ⟨last, other, rounds, leaves⟩ := taken
  obtain rfl := run_unique returns (run_of_turns rounds leaves)
  have counted := length_log_of_turns rounds
  rcases loop.turn_cases interp outer memory last with ⟨-, went⟩ | ⟨-, went⟩ | went
  · cases leaves.symm.trans went
    exact counted.ge
  · cases leaves.symm.trans went
    simp only [iterate, List.length_append, counted]
    exact Nat.le_add_right ..
  · cases leaves.symm.trans went

/-- For a loop that is partitioned and whose exit count scalar evolution knows, the outlined worker
is faithful exactly if the loop is outlinable and its exit count has at most 64 bits. -/
theorem outlineLoopBody_faithful (loop : Loop) (interp : Interpretation) (reductionEnabled : Bool)
    {reductions : List ReductionInfo} {tripCount : BitVec 64} (exitCount : ExitCount)
    (partitioned :
      loop.partitionLoop reductionEnabled (some exitCount) = some (reductions, tripCount))
    (sound : ∀ outer memory, loop.takesBackedge interp outer memory exitCount.bits.toNat) :
    loop.Faithful interp reductions tripCount ↔
      loop.Outlinable ∧ exitCount.bits.toNat < 2 ^ 64 := by
  obtain ⟨candidate, found⟩ := partitionLoop_eq_some partitioned
  have accepted := accepted_of_candidate candidate
  constructor
  · intro faithful
    refine ⟨accepted.outlinable_of_faithful (getTripCountValue_pos found) faithful, ?_⟩
    obtain ⟨worker, -, reproduces⟩ := faithful
    obtain ⟨fuel, result, returns, turns, state, -, length, -⟩ :=
      reproduces (fun _ => default) (fun _ => 0) default
    have bound := le_log_of_takesBackedge (sound _ _) returns
    exact (length ▸ bound).trans_lt tripCount.isLt
  · rintro ⟨outlinable, fits⟩
    exact accepted.faithful outlinable sound found fits

/-- Unsigned comparison, byte offsets, and loads and stores of single bytes. -/
def bytewise : Interpretation where
  binary op left right :=
    match op, left, right with
    | .add, .int width left, .int _ right => .int width (left + right.setWidth width)
    | _, _, _ => default
  pure _ operands :=
    match operands with
    | [.int _ left, .int _ right] => .int 1 (BitVec.ofBool (left.toNat < right.toNat))
    | [.pointer base, .int _ offset] => .pointer (base + offset.toNat)
    | _ => default
  load _ operands memory :=
    match operands with
    | [.pointer address] => .int 8 (memory address).toBitVec
    | _ => default
  store _ operands :=
    match operands with
    | [.int _ value, .pointer address] => [(address, UInt8.ofNat value.toNat)]
    | _ => []
  call _ _ _ := (default, [])
  atomic _ _ _ := (default, [])
  binary_add width left right := by simp
  call_unread _ _ _ _ _ := rfl
  call_unwritten _ _ _ _ := rfl

/-- `for (i = 0; i < 2; i++) p[i] = i`, with the test in the header. -/
def testingHeader : Loop where
  phis := [{ type := .int 32, init := .const (.int 32 0), next := .body 2 }]
  header := [{ opcode := .pure ['i', 'c', 'm', 'p'], operands := [.phi 0, .const (.int 32 2)] }]
  bodyPhis := []
  body :=
    [{ opcode := .pure ['g', 'e', 'p'], operands := [.outer 0, .phi 0] },
      { opcode := .store ['i', '8'], operands := [.phi 0, .body 0] },
      { opcode := .binary .add, operands := [.phi 0, .const (.int 32 1)] }]
  shape := .topTested
  exit := { condition := .header 0, cases := [.int 1 0], onMatch := true }
  single := nofun
  headerDominated := by decide
  bodyDominated := by decide

theorem outlineLoopBody_faithful_testingHeader :
    testingHeader.partitionLoop false (some ⟨32, 2⟩) = some ([], 2) ∧
      testingHeader.Faithful bytewise [] 2 := by
  refine ⟨by decide, ?_⟩
  refine (outlineLoopBody_faithful testingHeader bytewise false ⟨32, 2⟩ (by decide) ?_).mpr
    ⟨⟨by decide, by decide, ?_⟩, by decide⟩
  · intro outer memory
    exact ⟨_, _, rfl, rfl⟩
  · intro width found
    cases found
    decide

/-- The same loop in a single block. -/
def singleBlock : Loop where
  phis := [{ type := .int 32, init := .const (.int 32 0), next := .header 2 }]
  header :=
    [{ opcode := .pure ['g', 'e', 'p'], operands := [.outer 0, .phi 0] },
      { opcode := .store ['i', '8'], operands := [.phi 0, .header 0] },
      { opcode := .binary .add, operands := [.phi 0, .const (.int 32 1)] },
      { opcode := .pure ['i', 'c', 'm', 'p'], operands := [.header 2, .const (.int 32 2)] }]
  bodyPhis := []
  body := []
  shape := .single
  exit := { condition := .header 3, cases := [.int 1 0], onMatch := true }
  single _ := ⟨rfl, rfl⟩
  headerDominated := by decide
  bodyDominated := by decide

/-- A loop that stores in its only block is partitioned; its worker stores nothing. -/
theorem outlineLoopBody_drops_singleBlock :
    singleBlock.partitionLoop false (some ⟨32, 1⟩) = some ([], 2) ∧
      (∀ outer memory, singleBlock.takesBackedge bytewise outer memory 1) ∧
      ¬ singleBlock.Faithful bytewise [] 2 := by
  have partitioned : singleBlock.partitionLoop false (some ⟨32, 1⟩) = some ([], 2) := by decide
  refine ⟨partitioned, fun outer memory => ⟨_, _, rfl, rfl⟩, fun faithful => ?_⟩
  have accepted := accepted_of_candidate (partitionLoop_eq_some partitioned).1
  exact absurd (accepted.outlinable_of_faithful (by decide) faithful).header (by decide)

end Loop
end Transforms
end TopoLlvm
