import TopoLlvm.Transforms.LoopGates
import Mathlib.Data.List.Basic

/-!
# Accumulators do not interfere

A phi node that passes the gates as a reduction is used by its update alone, and the update by the
phi node alone.  Two executions of a block that differ in such values only therefore write and
observe the same.
-/

namespace TopoLlvm
namespace Transforms

open Overwrite

section Blocks

variable {Left Right : Type} {interp : Interpretation} {memory : Memory} {hidden : Nat → Prop}
  {resolveLeft : List Value → Left → Value} {resolveRight : List Value → Right → Value}
  {observeLeft : Nat → Inst Left → (Left → Value) → List Event}
  {observeRight : Nat → Inst Right → (Right → Value) → List Event}

/-- Two executions of a block that differ in the hidden values only. -/
structure Outcome.Related (hidden : Nat → Prop) (left right : Outcome) : Prop where
  length : left.values.length = right.values.length
  values : ∀ index, ¬ hidden index →
    left.values.getD index default = right.values.getD index default
  writes : left.writes = right.writes
  log : left.log = right.log

/-- Two instructions that do the same, up to the value of a hidden one. -/
structure Inst.Matches (hidden : Nat → Prop) (resolveLeft : List Value → Left → Value)
    (resolveRight : List Value → Right → Value)
    (observeLeft : Nat → Inst Left → (Left → Value) → List Event)
    (observeRight : Nat → Inst Right → (Right → Value) → List Event) (left right : Outcome)
    (first : Inst Left) (second : Inst Right) : Prop where
  opcode : first.opcode = second.opcode
  silent : hidden left.values.length → first.opcode.isPure = true
  operands : ¬ hidden left.values.length →
    first.operands.map (resolveLeft left.values) = second.operands.map (resolveRight right.values)
  observed : observeLeft left.values.length first (resolveLeft left.values) =
    observeRight right.values.length second (resolveRight right.values)

theorem getD_concat {α : Type} (list : List α) (last fallback : α) (index : Nat) :
    (list ++ [last]).getD index fallback =
      if index = list.length then last else list.getD index fallback := by
  simp only [List.getD_eq_getElem?_getD, List.getElem?_append]
  split
  · rename_i inside
    rw [if_neg (Nat.ne_of_lt inside)]
  · rename_i outside
    split
    · rename_i here
      simp [here]
    · rename_i elsewhere
      rw [List.getElem?_eq_none (by simp; omega), List.getElem?_eq_none (by omega)]

variable (interp memory) in
/-- Matching instructions keep two executions related. -/
theorem Outcome.Related.execInst {left right : Outcome} (related : left.Related hidden right)
    {first : Inst Left} {second : Inst Right}
    (same : first.Matches hidden resolveLeft resolveRight observeLeft observeRight left right
      second) :
    (Transforms.execInst interp memory resolveLeft observeLeft left first).Related hidden
      (Transforms.execInst interp memory resolveRight observeRight right second) := by
  by_cases secret : hidden left.values.length
  · have silentLeft := same.silent secret
    have silentRight : second.opcode.isPure = true := same.opcode ▸ silentLeft
    refine ⟨?_, fun index visible => ?_, ?_, ?_⟩
    · simp only [Transforms.execInst, List.length_append, related.length, List.length_singleton]
    · simp only [Transforms.execInst, getD_concat, ← related.length]
      split
      · rename_i here
        exact absurd (here ▸ secret) visible
      · exact related.values index visible
    · simp only [Transforms.execInst, interp.exec_isPure silentLeft,
        interp.exec_isPure silentRight, List.append_nil, related.writes]
    · simp only [Transforms.execInst, related.log, same.observed]
  · have result : interp.exec first.opcode (first.operands.map (resolveLeft left.values))
        (overwrite memory left.writes) =
      interp.exec second.opcode (second.operands.map (resolveRight right.values))
        (overwrite memory right.writes) := by
      rw [same.opcode, same.operands secret, related.writes]
    refine ⟨?_, fun index visible => ?_, ?_, ?_⟩
    · simp only [Transforms.execInst, List.length_append, related.length, List.length_singleton]
    · simp only [Transforms.execInst, getD_concat, ← related.length, result]
      split
      · rfl
      · exact related.values index visible
    · rw [Transforms.execInst, Transforms.execInst, result, related.writes]
    · simp only [Transforms.execInst, related.log, same.observed]

@[simp]
theorem execInsts_cons (outcome : Outcome) (inst : Inst Left) (insts : List (Inst Left)) :
    execInsts interp memory resolveLeft observeLeft outcome (inst :: insts) =
      execInsts interp memory resolveLeft observeLeft
        (execInst interp memory resolveLeft observeLeft outcome inst) insts := rfl

variable (interp memory) in
/-- Blocks of matching instructions keep two executions related. -/
theorem Outcome.Related.execInsts {firsts : List (Inst Left)} {seconds : List (Inst Right)}
    (lengths : firsts.length = seconds.length) {left right : Outcome} (base : Nat)
    (position : left.values.length = base) (related : left.Related hidden right)
    (same : ∀ index first second, firsts[index]? = some first → seconds[index]? = some second →
      ∀ before after : Outcome, before.Related hidden after →
        before.values.length = base + index →
          first.Matches hidden resolveLeft resolveRight observeLeft observeRight before after
            second) :
    (Transforms.execInsts interp memory resolveLeft observeLeft left firsts).Related hidden
      (Transforms.execInsts interp memory resolveRight observeRight right seconds) := by
  induction firsts generalizing seconds left right base with
  | nil =>
      obtain rfl := List.length_eq_zero_iff.mp lengths.symm
      exact related
  | cons first firsts ih =>
      cases seconds with
      | nil => cases lengths
      | cons second seconds =>
          have head := same 0 first second rfl rfl left right related position
          have next := related.execInst interp memory head
          rw [execInsts_cons, execInsts_cons]
          refine ih (Nat.succ.inj lengths) (base + 1) ?_ next ?_
          · simp only [Transforms.execInst, List.length_append, position, List.length_singleton]
          · intro index one other atOne atOther before after later length
            exact same (index + 1) one other atOne atOther before after later (by omega)

end Blocks

namespace Loop

variable {loop : Loop}

/-- An instruction uses its operands. -/
theorem mem_users_of_definition {place : Operand} {inst : Inst Operand} {value : Operand}
    (definition : loop.definition place = some inst) (used : value ∈ inst.operands) :
    ∃ user ∈ loop.users value, place.asUser = some user := by
  cases place with
  | header index =>
      refine ⟨.header index, ?_, rfl⟩
      simp only [users, List.mem_append, List.mem_filterMap]
      refine .inl (.inl (.inl (.inr ⟨(inst, index), ?_, if_pos used⟩)))
      exact List.mem_zipIdx_iff_getElem?.mpr definition
  | body index =>
      refine ⟨.body index, ?_, rfl⟩
      simp only [users, List.mem_append, List.mem_filterMap]
      refine .inl (.inr ⟨(inst, index), ?_, if_pos used⟩)
      exact List.mem_zipIdx_iff_getElem?.mpr definition
  | _ => cases definition

theorem mem_users_bodyPhi {value : Operand} (used : value ∈ loop.bodyPhis) :
    ∃ index, .bodyPhi index ∈ loop.users value := by
  obtain ⟨index, found⟩ := List.mem_iff_getElem?.mp used
  refine ⟨index, ?_⟩
  simp only [users, List.mem_append, List.mem_filterMap]
  refine .inl (.inl (.inr ⟨(value, index), ?_, if_pos rfl⟩))
  exact List.mem_zipIdx_iff_getElem?.mpr found

theorem asUser_ne_phi (place : Operand) (index : Nat) : place.asUser ≠ some (.phi index) := by
  cases place <;> simp [Operand.asUser]

theorem asUser_inj {left right : Operand} {user : User} (first : left.asUser = some user)
    (second : right.asUser = some user) : left = right := by
  cases left <;> cases first <;> cases right <;> cases second <;> rfl

/-- A reduction is a pure update that alone uses its phi node and is used by it alone. -/
structure IsReduction (loop : Loop) (index : Nat) (phi : Phi) (inst : Inst Operand) : Prop where
  found : loop.phis[index]? = some phi
  definition : loop.definition phi.next = some inst
  silent : inst.opcode.isPure = true
  phiUsers : ∀ user ∈ loop.users (.phi index), phi.next.asUser = some user
  updateUsers : ∀ user ∈ loop.users phi.next, user = .phi index

theorem detectReduction_spec {index : Nat} {info : ReductionInfo}
    (detected : loop.detectReduction index = some info) :
    ∃ phi inst, loop.IsReduction index phi inst ∧ info.phi = index ∧ info.binop = phi.next := by
  unfold detectReduction at detected
  split at detected
  · cases detected
  · rename_i phi found
    split at detected
    · rename_i opcode left right definition
      split at detected
      · obtain ⟨rhs, -, detected⟩ := Option.bind_eq_some_iff.mp detected
        split at detected
        · rename_i closed
          cases detected
          refine ⟨phi, _, ⟨found, definition, rfl, ?_, ?_⟩, rfl, rfl⟩
          · simpa using closed.1
          · simpa using closed.2
        · cases detected
      · cases detected
    · cases detected

theorem mem_of_mapM {α β : Type} {f : α → Option β} {inputs : List α} {outputs : List β}
    (mapped : inputs.mapM f = some outputs) :
    (∀ output ∈ outputs, ∃ input ∈ inputs, f input = some output) ∧
      ∀ input ∈ inputs, ∃ output ∈ outputs, f input = some output := by
  induction inputs generalizing outputs with
  | nil =>
      rw [List.mapM_nil] at mapped
      cases mapped
      exact ⟨nofun, nofun⟩
  | cons input inputs ih =>
      rw [List.mapM_cons] at mapped
      obtain ⟨output, first, mapped⟩ := Option.bind_eq_some_iff.mp mapped
      obtain ⟨rest, later, mapped⟩ := Option.bind_eq_some_iff.mp mapped
      cases mapped
      obtain ⟨sources, targets⟩ := ih later
      refine ⟨fun other member => ?_, fun other member => ?_⟩
      · rcases List.mem_cons.mp member with rfl | member
        · exact ⟨input, List.mem_cons_self .., first⟩
        · obtain ⟨source, sourceMember, found⟩ := sources other member
          exact ⟨source, List.mem_cons_of_mem _ sourceMember, found⟩
      · rcases List.mem_cons.mp member with rfl | member
        · exact ⟨output, List.mem_cons_self .., first⟩
        · obtain ⟨target, targetMember, found⟩ := targets other member
          exact ⟨target, List.mem_cons_of_mem _ targetMember, found⟩

/-- What passing the gates says about a loop. -/
structure Accepted (loop : Loop) (reductions : List ReductionInfo) : Prop where
  synchronized : loop.containsSyncPrimitives = false
  independent : loop.hasCrossIterationMemoryDeps = false
  induction : loop.canonicalInductionVariable ≠ none
  detected : ∀ info ∈ reductions, ∃ index, loop.detectReduction index = some info
  carried : ∀ index < loop.phis.length, loop.canonicalInductionVariable ≠ some index →
    ∃ info ∈ reductions, loop.detectReduction index = some info

/-- The gates of a candidate: nothing is carried between iterations, or reductions are. -/
theorem candidate_cases {reductionEnabled : Bool} {reductions : List ReductionInfo}
    (candidate : loop.candidateReductions reductionEnabled = some reductions) :
    loop.canonicalInductionVariable ≠ none ∧ loop.containsSyncPrimitives = false ∧
      loop.hasCrossIterationMemoryDeps = false ∧
      (loop.hasCrossIterationDeps = false ∧ reductions = [] ∨
        ((List.range loop.phis.length).filter fun index =>
          loop.canonicalInductionVariable ≠ some index).mapM loop.detectReduction =
            some reductions) := by
  simp only [candidateReductions, Option.ite_none_left_eq_some, Bool.not_eq_true] at candidate
  obtain ⟨induction, synchronized, independent, candidate⟩ := candidate
  refine ⟨induction, synchronized, independent, ?_⟩
  split at candidate
  · right
    obtain ⟨-, candidate⟩ := Option.ite_none_right_eq_some.mp candidate
    split at candidate
    · rename_i found mapped
      obtain ⟨-, same⟩ := Option.ite_none_left_eq_some.mp candidate
      rw [mapped, same]
    · cases candidate
  · rename_i scalar
    exact .inl ⟨Bool.eq_false_iff.mpr scalar, (Option.some.inj candidate).symm⟩

theorem accepted_of_candidate {reductionEnabled : Bool} {reductions : List ReductionInfo}
    (candidate : loop.candidateReductions reductionEnabled = some reductions) :
    loop.Accepted reductions := by
  obtain ⟨induction, synchronized, independent, ⟨scalar, rfl⟩ | mapped⟩ :=
    candidate_cases candidate
  · refine ⟨synchronized, independent, induction, fun info member => ?_,
      fun index bound other => ?_⟩
    · cases member
    · have carried : loop.hasCrossIterationDeps = true := by
        rw [hasCrossIterationDeps, List.any_eq_true]
        exact ⟨index, List.mem_range.mpr bound, by simpa using other⟩
      simp [scalar] at carried
  · obtain ⟨sources, targets⟩ := mem_of_mapM mapped
    refine ⟨synchronized, independent, induction, fun info member => ?_,
      fun index bound other => ?_⟩
    · obtain ⟨index, -, detected⟩ := sources info member
      exact ⟨index, detected⟩
    · exact targets index (List.mem_filter.mpr ⟨List.mem_range.mpr bound, by simpa using other⟩)

/-- A phi node of the header that carries a partial sum. -/
def Carried (loop : Loop) (index : Nat) : Prop :=
  index < loop.phis.length ∧ loop.canonicalInductionVariable ≠ some index

/-- The update of a partial sum. -/
def Accumulates (loop : Loop) (operand : Operand) : Prop :=
  ∃ index phi, loop.Carried index ∧ loop.phis[index]? = some phi ∧ phi.next = operand

namespace Accepted

variable {reductions : List ReductionInfo}

theorem isReduction (accepted : loop.Accepted reductions) {index : Nat}
    (carried : loop.Carried index) : ∃ phi inst, loop.IsReduction index phi inst := by
  obtain ⟨info, -, detected⟩ := accepted.carried index carried.1 carried.2
  obtain ⟨phi, inst, reduction, -⟩ := detectReduction_spec detected
  exact ⟨phi, inst, reduction⟩

/-- Only its update uses a partial sum. -/
theorem user_of_carried (accepted : loop.Accepted reductions) {index : Nat}
    (carried : loop.Carried index) {user : User} (uses : user ∈ loop.users (.phi index)) :
    ∃ operand, loop.Accumulates operand ∧ operand.asUser = some user := by
  obtain ⟨phi, inst, reduction⟩ := accepted.isReduction carried
  exact ⟨phi.next, ⟨index, phi, carried, reduction.found, rfl⟩, reduction.phiUsers user uses⟩

/-- Only its phi node uses the update of a partial sum. -/
theorem user_of_accumulates (accepted : loop.Accepted reductions) {operand : Operand}
    (accumulates : loop.Accumulates operand) {user : User} (uses : user ∈ loop.users operand) :
    ∃ index, loop.Carried index ∧ user = .phi index := by
  obtain ⟨index, phi, carried, found, rfl⟩ := accumulates
  obtain ⟨same, inst, reduction⟩ := accepted.isReduction carried
  obtain rfl : phi = same := Option.some.inj (found.symm.trans reduction.found)
  exact ⟨index, carried, reduction.updateUsers user uses⟩

/-- The update of a partial sum only computes a value. -/
theorem silent_of_accumulates (accepted : loop.Accepted reductions) {operand : Operand}
    (accumulates : loop.Accumulates operand) {inst : Inst Operand}
    (definition : loop.definition operand = some inst) : inst.opcode.isPure = true := by
  obtain ⟨index, phi, carried, found, rfl⟩ := accumulates
  obtain ⟨same, other, reduction⟩ := accepted.isReduction carried
  obtain rfl : phi = same := Option.some.inj (found.symm.trans reduction.found)
  obtain rfl : inst = other := Option.some.inj (definition.symm.trans reduction.definition)
  exact reduction.silent

end Accepted

/-- The two lists of phi values differ in partial sums only. -/
def AgreeOnPhis (loop : Loop) (left right : List Value) : Prop :=
  ∀ index, ¬ loop.Carried index → left.getD index default = right.getD index default

/-- The two frames differ in partial sums and their updates only. -/
structure Agree (loop : Loop) (left right : Frame) : Prop where
  outer : left.outer = right.outer
  phis : loop.AgreeOnPhis left.phis right.phis
  header : ∀ index, ¬ loop.Accumulates (.header index) →
    left.header.getD index default = right.header.getD index default
  bodyPhis : left.bodyPhis = right.bodyPhis
  body : ∀ index, ¬ loop.Accumulates (.body index) →
    left.body.getD index default = right.body.getD index default

theorem Agree.resolve {left right : Frame} (agree : loop.Agree left right) {operand : Operand}
    (visible : ∀ index, operand = .phi index → ¬ loop.Carried index)
    (unhidden : ¬ loop.Accumulates operand) : left.resolve operand = right.resolve operand := by
  cases operand with
  | const value => rfl
  | outer name => exact congrFun agree.outer name
  | phi index => exact agree.phis index (visible index rfl)
  | header index => exact agree.header index unhidden
  | bodyPhi index => simp only [Frame.resolve, agree.bodyPhis]
  | body index => exact agree.body index unhidden

theorem not_carried_of_isAccumulator {operand : Operand}
    (visible : loop.isAccumulator operand = false) (index : Nat) (phi : operand = .phi index) :
    ¬ loop.Carried index := by
  subst phi
  intro carried
  simp [isAccumulator, carried.2] at visible

/-- The observed operands of an instruction do not depend on partial sums. -/
theorem Agree.observed {left right : Frame} (agree : loop.Agree left right) {inst : Inst Operand}
    (unhidden : ∀ operand ∈ inst.operands, ¬ loop.Accumulates operand) :
    loop.observed left.resolve inst = loop.observed right.resolve inst := by
  apply List.map_congr_left
  intro operand member
  obtain ⟨member, visible⟩ := List.mem_filter.mp member
  exact agree.resolve (not_carried_of_isAccumulator (by simpa using visible))
    (unhidden operand member)

namespace Accepted

variable {reductions : List ReductionInfo} {interp : Interpretation} {outer : Nat → Value}
  {memory : Memory}

/-- No instruction reads the update of a partial sum. -/
theorem not_accumulates (accepted : loop.Accepted reductions) {place : Operand}
    {inst : Inst Operand} (definition : loop.definition place = some inst) {operand : Operand}
    (used : operand ∈ inst.operands) : ¬ loop.Accumulates operand := by
  intro accumulates
  obtain ⟨user, uses, asUser⟩ := mem_users_of_definition definition used
  obtain ⟨phi, -, rfl⟩ := accepted.user_of_accumulates accumulates uses
  exact asUser_ne_phi place phi asUser

/-- Only the update of a partial sum reads the partial sum. -/
theorem not_carried (accepted : loop.Accepted reductions) {place : Operand}
    {inst : Inst Operand} (definition : loop.definition place = some inst)
    (visible : ¬ loop.Accumulates place) {phi : Nat} (used : .phi phi ∈ inst.operands) :
    ¬ loop.Carried phi := by
  intro carried
  obtain ⟨user, uses, asUser⟩ := mem_users_of_definition definition used
  obtain ⟨operand, accumulates, same⟩ := accepted.user_of_carried carried uses
  exact visible (asUser_inj same asUser ▸ accumulates)

/-- The header writes and observes the same whatever the partial sums are. -/
theorem execHeader_related (accepted : loop.Accepted reductions) {left right : List Value}
    (agree : loop.AgreeOnPhis left right) (writes : Writes) :
    (loop.execHeader interp outer memory left writes).Related
      (fun index => loop.Accumulates (.header index))
      (loop.execHeader interp outer memory right writes) := by
  refine Outcome.Related.execInsts interp memory rfl 0 rfl ⟨rfl, fun _ _ => rfl, rfl, rfl⟩ ?_
  intro index inst other found same before after related length
  obtain rfl : inst = other := Option.some.inj (found.symm.trans same)
  rw [Nat.zero_add] at length
  have definition : loop.definition (.header index) = some inst := found
  have frames : loop.Agree { entryFrame outer left with header := before.values }
      { entryFrame outer right with header := after.values } :=
    ⟨rfl, agree, related.values, rfl, fun _ _ => rfl⟩
  refine ⟨rfl, fun secret => ?_, fun visible => ?_, ?_⟩
  · exact accepted.silent_of_accumulates secret (by rw [length]; exact found)
  · rw [length] at visible
    apply List.map_congr_left
    intro operand member
    refine frames.resolve (fun phi same => ?_) (accepted.not_accumulates definition member)
    exact accepted.not_carried definition visible (same ▸ member)
  · simp only [observeHeader, ← related.length,
      frames.observed fun operand member => accepted.not_accumulates definition member]

/-- The latch block's phi nodes do not depend on partial sums. -/
theorem bodyPhis_agree (accepted : loop.Accepted reductions) {left right : Frame}
    (agree : loop.Agree left right) :
    loop.bodyPhis.map left.resolve = loop.bodyPhis.map right.resolve := by
  apply List.map_congr_left
  intro operand member
  obtain ⟨index, uses⟩ := mem_users_bodyPhi member
  refine agree.resolve (fun phi same carried => ?_) fun accumulates => ?_
  · obtain ⟨update, -, user⟩ := accepted.user_of_carried carried (same ▸ uses)
    cases update <;> cases user
  · obtain ⟨phi, -, user⟩ := accepted.user_of_accumulates accumulates uses
    cases user

variable (outer) in
theorem bodyFrame_agree (accepted : loop.Accepted reductions) {left right : List Value}
    (agree : loop.AgreeOnPhis left right) {first second : Outcome}
    (headers : first.Related (fun index => loop.Accumulates (.header index)) second) :
    loop.Agree (loop.bodyFrame outer left first.values)
      (loop.bodyFrame outer right second.values) :=
  have entry : loop.Agree { entryFrame outer left with header := first.values }
      { entryFrame outer right with header := second.values } :=
    ⟨rfl, agree, headers.values, rfl, fun _ _ => rfl⟩
  ⟨rfl, agree, headers.values, accepted.bodyPhis_agree entry, fun _ _ => rfl⟩

/-- The latch block writes and observes the same whatever the partial sums are. -/
theorem execBody_related (accepted : loop.Accepted reductions) {left right : List Value}
    (agree : loop.AgreeOnPhis left right) {first second : Outcome}
    (headers : first.Related (fun index => loop.Accumulates (.header index)) second) :
    (loop.execBody interp outer memory left first).Related
      (fun index => loop.Accumulates (.body index))
      (loop.execBody interp outer memory right second) := by
  have entry := accepted.bodyFrame_agree outer agree headers
  refine Outcome.Related.execInsts interp memory rfl 0 rfl
    ⟨rfl, fun _ _ => rfl, headers.writes, rfl⟩ ?_
  intro index inst other found same before after related length
  obtain rfl : inst = other := Option.some.inj (found.symm.trans same)
  rw [Nat.zero_add] at length
  have definition : loop.definition (.body index) = some inst := found
  have frames : loop.Agree { loop.bodyFrame outer left first.values with body := before.values }
      { loop.bodyFrame outer right second.values with body := after.values } :=
    ⟨entry.outer, entry.phis, entry.header, entry.bodyPhis, related.values⟩
  refine ⟨rfl, fun secret => ?_, fun visible => ?_, ?_⟩
  · exact accepted.silent_of_accumulates secret (by rw [length]; exact found)
  · rw [length] at visible
    apply List.map_congr_left
    intro operand member
    refine frames.resolve (fun phi same => ?_) (accepted.not_accumulates definition member)
    exact accepted.not_carried definition visible (same ▸ member)
  · simp only [observeBody, ← related.length,
      frames.observed fun operand member => accepted.not_accumulates definition member]

end Accepted
end Loop
end Transforms
end TopoLlvm
