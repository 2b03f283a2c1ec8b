import TopoLlvm.Transforms.LoopAccumulators

/-!
# The induction variable of a run

The canonical induction variable counts the iterations, in the arithmetic of its type, whatever
else the loop does.  Up to partial sums the phi nodes of an iteration are therefore known.
-/

namespace TopoLlvm
namespace Transforms

open Overwrite

section Blocks

variable {Ref : Type} (interp : Interpretation) (memory : Memory)
  (resolve : List Value → Ref → Value) (observe : Nat → Inst Ref → (Ref → Value) → List Event)

/-- Executing a block appends the results and the events of its instructions. -/
theorem execInsts_extends (outcome : Outcome) (insts : List (Inst Ref)) :
    ∃ values log,
      (execInsts interp memory resolve observe outcome insts).values = outcome.values ++ values ∧
        values.length = insts.length ∧
        (execInsts interp memory resolve observe outcome insts).log = outcome.log ++ log := by
  induction insts generalizing outcome with
  | nil => exact ⟨[], [], (List.append_nil _).symm, rfl, (List.append_nil _).symm⟩
  | cons inst insts ih =>
      obtain ⟨values, log, extended, lengths, logged⟩ :=
        ih (execInst interp memory resolve observe outcome inst)
      rw [execInsts_cons, extended, logged]
      simp only [execInst, List.append_assoc]
      exact ⟨_, _, rfl, by simp [lengths], rfl⟩

/-- The state of a block just before the instruction at an index. -/
theorem exists_before (outcome : Outcome) {insts : List (Inst Ref)} {index : Nat}
    {inst : Inst Ref} (found : insts[index]? = some inst) :
    ∃ before values log, before =
        execInsts interp memory resolve observe outcome (insts.take index) ∧
      before.values.length = outcome.values.length + index ∧
      (execInsts interp memory resolve observe outcome insts).values =
        (execInst interp memory resolve observe before inst).values ++ values ∧
      (execInsts interp memory resolve observe outcome insts).log =
        (execInst interp memory resolve observe before inst).log ++ log := by
  obtain ⟨bound, rfl⟩ := List.getElem?_eq_some_iff.mp found
  have split : insts = insts.take index ++ insts[index] :: insts.drop (index + 1) := by
    rw [List.getElem_cons_drop, List.take_append_drop]
  have parts : execInsts interp memory resolve observe outcome insts =
      execInsts interp memory resolve observe
        (execInst interp memory resolve observe
          (execInsts interp memory resolve observe outcome (insts.take index)) insts[index])
        (insts.drop (index + 1)) := by
    conv_lhs => rw [split]
    rw [execInsts, List.foldl_append]
    rfl
  obtain ⟨earlier, -, extended, lengths, -⟩ := execInsts_extends interp memory
    resolve observe outcome (insts.take index)
  obtain ⟨values, log, later, -, logged⟩ := execInsts_extends interp memory resolve
    observe (execInst interp memory resolve observe
      (execInsts interp memory resolve observe outcome (insts.take index)) insts[index])
    (insts.drop (index + 1))
  refine ⟨_, values, log, rfl, ?_, ?_, ?_⟩
  · rw [extended, List.length_append, lengths, List.length_take, Nat.min_eq_left bound.le]
  · rw [parts, later]
  · rw [parts, logged]

/-- The value of an instruction whose operands do not depend on the block. -/
theorem execInsts_value (outcome : Outcome) {insts : List (Inst Ref)} {index : Nat}
    {op : BinaryOp} {operands : List Ref} {left right : Value}
    (found : insts[index]? = some { opcode := .binary op, operands })
    (resolved : ∀ values, operands.map (resolve values) = [left, right])
    (fresh : outcome.values = []) :
    (execInsts interp memory resolve observe outcome insts).values.getD index default =
      interp.binary op left right := by
  obtain ⟨before, values, log, -, length, extended, -⟩ := exists_before interp memory resolve
    observe outcome found
  rw [fresh, List.length_nil, Nat.zero_add] at length
  rw [extended]
  simp only [execInst, List.append_assoc, resolved, Interpretation.exec]
  rw [List.getD_eq_getElem?_getD, List.getElem?_append_right length.le, length, Nat.sub_self]
  rfl

/-- Every event of a block is observed at one of its instructions. -/
theorem execInsts_log_forall {Holds : Event → Prop}
    (observed : ∀ index inst value, ∀ event ∈ observe index inst value, Holds event)
    (outcome : Outcome) (insts : List (Inst Ref)) (before : ∀ event ∈ outcome.log, Holds event) :
    ∀ event ∈ (execInsts interp memory resolve observe outcome insts).log, Holds event := by
  induction insts generalizing outcome with
  | nil => exact before
  | cons inst insts ih =>
      rw [execInsts_cons]
      apply ih _
      intro event member
      rcases List.mem_append.mp member with old | new
      · exact before event old
      · exact observed _ _ _ event new

/-- A block each of whose instructions is observed once. -/
theorem execInsts_log_length {event : Nat → Inst Ref → (Ref → Value) → Event}
    (observed : ∀ index inst value, observe index inst value = [event index inst value])
    (outcome : Outcome) (insts : List (Inst Ref)) :
    (execInsts interp memory resolve observe outcome insts).log.length =
      outcome.log.length + insts.length := by
  induction insts generalizing outcome with
  | nil => rfl
  | cons inst insts ih =>
      rw [execInsts_cons, ih, List.length_cons]
      simp only [execInst, observed, List.length_append, List.length_singleton]
      omega

/-- The event of the instruction at an index. -/
theorem execInsts_event {event : Nat → Inst Ref → (Ref → Value) → Event}
    (observed : ∀ index inst value, observe index inst value = [event index inst value])
    (writes : Writes) {insts : List (Inst Ref)} {index : Nat} {inst : Inst Ref}
    (found : insts[index]? = some inst) :
    ∃ earlier, (execInsts interp memory resolve observe { values := [], writes, log := [] }
      insts).log[index]? = some (event index inst (resolve earlier)) := by
  obtain ⟨before, -, later, reached, length, -, logged⟩ :=
    exists_before interp memory resolve observe { values := [], writes, log := [] } found
  have bound := (List.getElem?_eq_some_iff.mp found).1
  rw [List.length_nil, Nat.zero_add] at length
  have count : before.log.length = index := by
    rw [reached, execInsts_log_length interp memory resolve observe observed,
      List.length_take, Nat.min_eq_left bound.le, List.length_nil, Nat.zero_add]
  refine ⟨before.values, ?_⟩
  rw [logged]
  simp only [execInst, observed, List.append_assoc, length]
  rw [List.getElem?_append_right count.le, count, Nat.sub_self]
  rfl

end Blocks

namespace Loop

variable {loop : Loop} {interp : Interpretation} {outer : Nat → Value} {memory : Memory}

/-- The canonical induction variable starts at zero and is incremented by one. -/
structure IsInduction (loop : Loop) (index width : Nat) (next : Operand) : Prop where
  canonical : loop.canonicalInductionVariable = some index
  found : loop.phis[index]? =
    some { type := .int width, init := .const (.int width 0), next }
  increment : loop.definition next =
    some { opcode := .binary .add, operands := [.phi index, .const (.int width 1)] }

theorem exists_induction (canonical : loop.canonicalInductionVariable ≠ none) :
    ∃ index width next, loop.IsInduction index width next := by
  obtain ⟨index, found⟩ := Option.ne_none_iff_exists'.mp canonical
  have holds : loop.isCanonical index = true := List.find?_some found
  unfold isCanonical at holds
  split at holds
  · rename_i width init next phi
    obtain ⟨zero, holds⟩ := Bool.and_eq_true_iff.mp holds
    split at holds
    · rename_i base step definition
      simp only [Bool.and_eq_true, decide_eq_true_eq] at holds zero
      obtain ⟨rfl, rfl⟩ := holds
      subst zero
      exact ⟨base, width, next, found, phi, definition⟩
    · cases holds
  · cases holds

/-- The phi nodes of an iteration, with default values for partial sums. -/
def phisAt (loop : Loop) (count : Nat) : List Value :=
  loop.phis.mapIdx fun index phi =>
    match phi.type with
    | .int width =>
        if loop.canonicalInductionVariable = some index then .int width (BitVec.ofNat width count)
        else default
    | _ => default

theorem IsInduction.phisAt_getD {index width : Nat} {next : Operand}
    (induction : loop.IsInduction index width next) (count : Nat) :
    (loop.phisAt count).getD index default = .int width (BitVec.ofNat width count) := by
  rw [List.getD_eq_getElem?_getD, phisAt, List.getElem?_mapIdx, induction.found, Option.map_some,
    Option.getD_some]
  exact if_pos induction.canonical

/-- A list of phi values with the right induction variable is the one of the iteration. -/
theorem IsInduction.agreeOnPhis {index width : Nat} {next : Operand}
    (induction : loop.IsInduction index width next) {count : Nat} {phis : List Value}
    (length : phis.length = loop.phis.length)
    (counts : phis.getD index default = .int width (BitVec.ofNat width count)) :
    loop.AgreeOnPhis phis (loop.phisAt count) := by
  intro other visible
  by_cases bound : other < loop.phis.length
  · obtain rfl : index = other := by
      by_contra different
      refine visible ⟨bound, ?_⟩
      rw [induction.canonical]
      exact fun same => different (Option.some.inj same)
    rw [counts, induction.phisAt_getD]
  · simp only [List.getD_eq_getElem?_getD]
    rw [List.getElem?_eq_none (by omega), List.getElem?_eq_none (by simp [phisAt]; omega)]

/-- After an iteration the induction variable has the next value of its type. -/
theorem IsInduction.next {index width : Nat} {next : Operand}
    (induction : loop.IsInduction index width next) {bits : BitVec width} {phis : List Value}
    (counts : phis.getD index default = .int width bits) (writes : Writes) :
    let header := loop.execHeader interp outer memory phis writes
    let body := loop.execBody interp outer memory phis header
    { loop.bodyFrame outer phis header.values with body := body.values }.resolve next =
      .int width (bits + BitVec.ofNat width 1) := by
  intro header body
  have increment := induction.increment
  rw [← interp.binary_add, ← counts]
  cases next with
  | header position =>
      exact execInsts_value _ _ _ _ { values := [], writes, log := [] } increment
        (fun _ => rfl) rfl
  | body position =>
      exact execInsts_value _ _ _ _ { values := [], writes := header.writes, log := [] } increment
        (fun _ => rfl) rfl
  | _ => cases increment

/-- The phi nodes when an iteration begins. -/
structure AtIteration (loop : Loop) (count : Nat) (phis : List Value) : Prop where
  agree : loop.AgreeOnPhis phis (loop.phisAt count)
  length : phis.length = loop.phis.length

/-- Phi nodes whose induction variable has the value of an iteration. -/
theorem IsInduction.atIteration {index width : Nat} {next : Operand}
    (induction : loop.IsInduction index width next) {count : Nat} {phis : List Value}
    (length : phis.length = loop.phis.length)
    (counts : phis.getD index default = .int width (BitVec.ofNat width count)) :
    loop.AtIteration count phis :=
  ⟨induction.agreeOnPhis length counts, length⟩

variable (interp outer memory) in
/-- An iteration leads to the next one. -/
theorem AtIteration.iterate {count : Nat} {state : State}
    (current : loop.AtIteration count state.phis)
    (canonical : loop.canonicalInductionVariable ≠ none) :
    loop.AtIteration (count + 1) (loop.iterate interp outer memory state).phis := by
  obtain ⟨index, width, operand, induction⟩ := exists_induction canonical
  have visible : ¬ loop.Carried index := fun carried => carried.2 induction.canonical
  have counts := current.agree index visible
  rw [induction.phisAt_getD] at counts
  apply induction.atIteration (by simp [Loop.iterate])
  rw [List.getD_eq_getElem?_getD, Loop.iterate, List.getElem?_map, induction.found]
  apply (induction.next counts state.writes).trans
  rw [BitVec.ofNat_add]

variable (interp outer memory) in
/-- A number of iterations leads as many iterations on. -/
theorem AtIteration.iterates (canonical : loop.canonicalInductionVariable ≠ none) {first : Nat}
    {state : State} (current : loop.AtIteration first state.phis) (length : Nat) :
    loop.AtIteration (first + length) ((loop.iterate interp outer memory)^[length] state).phis := by
  induction length with
  | zero => exact current
  | succ length ih =>
      rw [Function.iterate_succ_apply']
      exact ih.iterate interp outer memory canonical

variable (outer) in
theorem atIteration_start (canonical : loop.canonicalInductionVariable ≠ none) :
    loop.AtIteration 0 (loop.start outer).phis := by
  obtain ⟨index, width, next, induction⟩ := exists_induction canonical
  apply induction.atIteration (by simp [start])
  rw [List.getD_eq_getElem?_getD, start, List.getElem?_map, induction.found]
  rfl

theorem length_log_iterates (length : Nat) (state : State) :
    ((loop.iterate interp outer memory)^[length] state).log.length = state.log.length + length := by
  induction length with
  | zero => rfl
  | succ length ih =>
      rw [Function.iterate_succ_apply', Loop.iterate, List.length_append, ih]
      rfl

/-- Every run counts its iterations. -/
theorem length_log_of_turns {count : Nat} {state : State}
    (rounds : loop.turns interp outer memory count (loop.start outer) = some state) :
    state.log.length = count := by
  rw [turns_eq_iterate rounds, length_log_iterates]
  exact Nat.zero_add count

end Loop
end Transforms
end TopoLlvm
