import TopoLlvm.Transforms.TaskPlaces
import TopoLlvm.Transforms.TaskSteps

/-!
# When tasks give the same results

The rewritten body does what the original does exactly if no result is returned through an `sret`
argument of a task and no call is moved across an instruction that it interferes with.
-/

namespace TopoLlvm
namespace TopoParallel

open Reorder (Before runAll runAll_perm runAll_append before_of_mem before_or_before)

variable {Fn Cell : Type} [DecidableEq Fn]

namespace Body

variable (body : Body Fn Cell) (stages : List (Stage Fn))

/-- The calls of a stage are independent of each other. -/
def Independent : Prop :=
  ∀ stage ∈ stages, ∀ first ∈ body.statements, ∀ second ∈ body.statements,
    first.name ≠ second.name → stage.calls first.callee = true →
      stage.calls second.callee = true → Apart first second

/-- Whatever the instructions and callees do with whatever values, and in whichever order the
tasks run, the rewritten body leaves the same values and the same memory. -/
def Faithful [DecidableEq Cell] : Prop :=
  ∀ (interp : Interpretation Fn Cell) (state : State Cell) (events : List (Event Fn Cell)),
    Executes (body.parallelized stages) events →
      Agree (runAll (act interp) events state)
        (runAll (act interp) (body.statements.map .statement) state)

/-- No task has an `sret` argument, and what interferes keeps its order when tasks go to their
places. -/
structure Undisturbed : Prop where
  noStructRet : ∀ call ∈ body.statements, (body.moves stages call.name).isSome →
    call.hasStructRet = false
  inOrder : ∀ first second, Before body.statements first second → first.Interferes second →
    Before (body.statements.map (·.name)) ((body.moves stages).place first.name)
      ((body.moves stages).place second.name)

end Body

variable {statements : List (Statement Fn Cell)} {moves : Moves} {stages : List (Stage Fn)}

section

omit [DecidableEq Fn]

/-- The instructions at a place. -/
theorem mem_item_statements {here other : Statement Fn Cell} (inside : here ∈ statements)
    (member : other ∈ (moves.item statements here).flatMap Op.statements) :
    other ∈ statements ∧ moves.place other.name = here.name := by
  cases moved : moves here.name with
  | none =>
      rw [item_of_none moved] at member
      obtain rfl : other = here := by simpa [Op.statements] using member
      exact ⟨inside, by rw [Moves.place, moved, Option.getD_none]⟩
  | some place =>
      by_cases same : place = here.name
      · subst same
        rw [item_of_first moved] at member
        have member : other ∈ statements ∧ moves other.name = some here.name := by
          simpa [Op.statements] using member
        exact ⟨member.1, by rw [Moves.place, member.2, Option.getD_some]⟩
      · rw [item_of_other moved same] at member
        cases member

theorem order_nodup (distinct : (statements.map (·.name)).Nodup) :
    (order (moves.layout statements)).Nodup := by
  rw [order, Moves.layout, List.flatMap_assoc]
  refine List.nodup_flatMap.mpr ⟨fun here inside => ?_, ?_⟩
  · cases moved : moves here.name with
    | none =>
        rw [item_of_none moved]
        simp [Op.statements]
    | some place =>
        by_cases same : place = here.name
        · subst same
          rw [item_of_first moved]
          simpa [Op.statements] using distinct.of_map.filter _
        · rw [item_of_other moved same]
          exact List.nodup_nil
  · refine (List.pairwise_map.mp distinct).imp_of_mem fun left right other => ?_
    intro here inLeft inRight
    exact other
      ((mem_item_statements left inLeft).2.symm.trans (mem_item_statements right inRight).2)

end

section

variable (placed : moves.Placed stages statements)

include placed

/-- The place where an instruction is. -/
theorem exists_item {here : Statement Fn Cell} (inside : here ∈ statements) :
    ∃ place ∈ statements, place.name = moves.place here.name ∧
      here ∈ (moves.item statements place).flatMap Op.statements := by
  cases moved : moves here.name with
  | none =>
      refine ⟨here, inside, by rw [Moves.place, moved, Option.getD_none], ?_⟩
      rw [item_of_none moved]
      simp [Op.statements]
  | some firstCall =>
      obtain ⟨itself, defined, -⟩ := placed.first here inside firstCall moved
      obtain ⟨place, placeInside, rfl⟩ := List.mem_map.mp defined
      refine ⟨place, placeInside, by rw [Moves.place, moved, Option.getD_some], ?_⟩
      rw [item_of_first itself]
      simp [Op.statements, inside, moved]

theorem mem_order {here : Statement Fn Cell} :
    here ∈ order (moves.layout statements) ↔ here ∈ statements := by
  rw [order, Moves.layout, List.flatMap_assoc]
  constructor
  · intro member
    obtain ⟨place, inside, member⟩ := List.mem_flatMap.mp member
    exact (mem_item_statements inside member).1
  · intro inside
    obtain ⟨place, placeInside, -, member⟩ := exists_item placed inside
    exact List.mem_flatMap.mpr ⟨place, placeInside, member⟩

variable (distinct : (statements.map (·.name)).Nodup)

include distinct

theorem order_perm : statements.Perm (order (moves.layout statements)) :=
  (List.perm_ext_iff_of_nodup distinct.of_map (order_nodup distinct)).mpr fun _ =>
    (mem_order placed).symm

/-- What has an earlier place comes earlier. -/
theorem before_order {first second : Statement Fn Cell} (left : first ∈ statements)
    (right : second ∈ statements)
    (before : Before (statements.map (·.name)) (moves.place first.name)
      (moves.place second.name)) :
    Before (order (moves.layout statements)) first second := by
  obtain ⟨firstPlace, firstInside, firstName, firstItem⟩ := exists_item placed left
  obtain ⟨secondPlace, secondInside, secondName, secondItem⟩ := exists_item placed right
  rw [← firstName, ← secondName] at before
  rw [order, Moves.layout, List.flatMap_assoc]
  obtain ⟨front, back, rfl⟩ := List.append_of_mem secondInside
  have names := distinct
  rw [List.map_append, List.map_cons] at before names
  -- The first place is among those in front.
  obtain ⟨place, inFront, same⟩ := List.mem_map.mp (before.mem_left names)
  obtain rfl := eq_of_name distinct (List.mem_append_left _ inFront) firstInside same
  rw [List.flatMap_append]
  exact before_of_mem (List.mem_flatMap.mpr ⟨place, inFront, firstItem⟩)
    (List.mem_flatMap.mpr ⟨secondPlace, List.mem_cons_self, secondItem⟩)

omit distinct in
/-- Calls at the same place are calls of one stage. -/
theorem calls_of_place_eq {first second : Statement Fn Cell} (left : first ∈ statements)
    (right : second ∈ statements) (other : first.name ≠ second.name)
    (same : moves.place first.name = moves.place second.name) :
    ∃ stage ∈ stages, stage.calls first.callee = true ∧ stage.calls second.callee = true := by
  unfold Moves.place at same
  cases firstMoved : moves first.name with
  | none =>
      cases secondMoved : moves second.name with
      | none =>
          rw [firstMoved, secondMoved] at same
          exact absurd same other
      | some firstCall =>
          rw [firstMoved, secondMoved] at same
          have itself := (placed.first second right firstCall secondMoved).1
          rw [← show first.name = firstCall from same, firstMoved] at itself
          cases itself
  | some firstCall =>
      cases secondMoved : moves second.name with
      | none =>
          rw [firstMoved, secondMoved] at same
          have itself := (placed.first first left firstCall firstMoved).1
          rw [show firstCall = second.name from same, secondMoved] at itself
          cases itself
      | some otherCall =>
          rw [firstMoved, secondMoved] at same
          obtain rfl : firstCall = otherCall := same
          exact placed.called first left second right firstCall firstMoved secondMoved

end

/-- Values are defined at earlier places than they are used. -/
theorem place_of_uses {body : Body Fn Cell} (placed : moves.Placed stages body.statements)
    {definition use : Statement Fn Cell} (left : definition ∈ body.statements)
    (right : use ∈ body.statements) (uses : Uses use definition) :
    Before (body.statements.map (·.name)) (moves.place definition.name)
      (moves.place use.name) := by
  have defined : definition.name ∈ body.statements.map (·.name) := List.mem_map_of_mem left
  obtain ⟨operand, member, same⟩ := uses
  cases moved : moves use.name with
  | some firstCall =>
      have available := placed.operands use right firstCall moved operand member (same ▸ defined)
      rwa [same, ← show moves.place use.name = firstCall by
        rw [Moves.place, moved, Option.getD_some]] at available
  | none =>
      have before := (body.defined definition left use right ⟨operand, member, same⟩).map (·.name)
      rw [show moves.place use.name = use.name by rw [Moves.place, moved, Option.getD_none]]
      cases defMoved : moves definition.name with
      | none => rwa [show moves.place definition.name = definition.name by
          rw [Moves.place, defMoved, Option.getD_none]]
      | some firstCall =>
          rw [show moves.place definition.name = firstCall by
            rw [Moves.place, defMoved, Option.getD_some]]
          rcases (placed.first definition left firstCall defMoved).2.2 with same | earlier
          · exact same ▸ before
          · exact earlier.trans before body.distinct

/-! ## Kept order -/

section

variable [DecidableEq Cell] {interp : Interpretation Fn Cell} {body : Body Fn Cell}

omit [DecidableEq Fn] in
/-- Instructions that neither use each other's values nor interfere are independent. -/
theorem statements_independent {first second : Statement Fn Cell}
    (other : first.name ≠ second.name) (forward : ¬ Uses second first)
    (backward : ¬ Uses first second) (apart : ¬ first.Interferes second) :
    (act interp (.statement first)).Independent (act interp (.statement second)) := by
  constructor
  case writes =>
    refine Set.disjoint_left.mpr fun location written others => ?_
    rcases written with ⟨-, rfl⟩ | ⟨cell, stored, rfl⟩ <;>
      rcases others with ⟨-, same⟩ | ⟨cell, member, same⟩ <;> injection same
    · exact other ‹_›
    · exact apart (.inl ⟨_, stored, ‹_ = cell› ▸ member⟩)
  case reads =>
    refine Set.disjoint_left.mpr fun location written read => ?_
    obtain ⟨effect, ⟨operand, operandInside, rfl⟩ | ⟨cell, member, rfl⟩⟩ := read <;>
      rcases written with ⟨-, same⟩ | ⟨cell, stored, same⟩ <;> injection same
    · exact forward ⟨operand, operandInside, ‹_›⟩
    · exact apart (.inr (.inl ⟨effect, _, ‹_ = cell› ▸ stored, member⟩))
  case read =>
    refine Set.disjoint_left.mpr fun location written read => ?_
    obtain ⟨effect, ⟨operand, operandInside, rfl⟩ | ⟨cell, member, rfl⟩⟩ := read <;>
      rcases written with ⟨-, same⟩ | ⟨cell, stored, same⟩ <;> injection same
    · exact backward ⟨operand, operandInside, ‹_›⟩
    · exact apart (.inr (.inr ⟨effect, _, member, ‹_ = cell› ▸ stored⟩))

/-- Where interfering instructions keep their order, the order of the places does the same. -/
theorem run_order (placed : moves.Placed stages body.statements)
    (inOrder : ∀ first second, Before body.statements first second → first.Interferes second →
      Before (body.statements.map (·.name)) (moves.place first.name) (moves.place second.name))
    (state : State Cell) :
    runAll (act interp) (body.statements.map .statement) state =
      runAll (act interp) ((order (moves.layout body.statements)).map .statement) state := by
  rw [runAll, runAll, List.foldl_map, List.foldl_map]
  change runAll (fun here => act interp (.statement here)) _ state =
    runAll (fun here => act interp (.statement here)) _ state
  refine runAll_perm (order_perm placed body.distinct) body.distinct.of_map
    (fun first second before dependent => ?_) state
  have left := before.subset List.mem_cons_self
  have right := before.subset (List.mem_cons_of_mem _ List.mem_cons_self)
  refine before_order placed body.distinct left right ?_
  by_cases interferes : first.Interferes second
  · exact inOrder first second before interferes
  by_cases uses : Uses second first
  · exact place_of_uses placed left right uses
  have nodup : body.statements.Nodup := body.distinct.of_map
  refine absurd (statements_independent ?_ uses ?_ interferes) dependent
  · intro same
    obtain rfl := eq_of_name body.distinct left right same
    exact before.asymm nodup before
  · rintro ⟨operand, member, same⟩
    exact before.asymm nodup (body.defined second right first left ⟨operand, member, same⟩)

omit [DecidableEq Cell] in
/-- The calls of a task group are calls of one stage without `sret` arguments. -/
theorem group_of_layout (independent : body.Independent stages)
    (placed : moves.Placed stages body.statements) {calls : List (Statement Fn Cell)}
    (member : .parallel calls ∈ moves.layout body.statements) :
    Group calls ∧ ∀ call ∈ calls, call ∈ body.statements ∧ (moves call.name).isSome := by
  obtain ⟨here, inside, member⟩ := List.mem_flatMap.mp member
  obtain ⟨firstCall, moved, rfl⟩ : ∃ firstCall, moves here.name = some firstCall ∧
      calls = body.statements.filter (moves ·.name = some firstCall) := by
    cases moved : moves here.name with
    | none =>
        rw [item_of_none moved] at member
        simp at member
    | some place =>
        by_cases same : place = here.name
        · subst same
          rw [item_of_first moved] at member
          exact ⟨_, rfl, by simpa using member⟩
        · rw [item_of_other moved same] at member
          cases member
  have mem_calls {call : Statement Fn Cell}
      (member : call ∈ body.statements.filter (moves ·.name = some firstCall)) :
      call ∈ body.statements ∧ moves call.name = some firstCall := by
    simpa using member
  refine ⟨⟨body.distinct.sublist (List.filter_sublist.map _), ?_, ?_⟩, ?_⟩
  · intro first left second right other
    obtain ⟨left, firstMoved⟩ := mem_calls left
    obtain ⟨right, secondMoved⟩ := mem_calls right
    obtain ⟨stage, stageInside, firstCalled, secondCalled⟩ :=
      placed.called first left second right firstCall firstMoved secondMoved
    exact independent stage stageInside first left second right other firstCalled secondCalled
  · intro first left second right uses
    obtain ⟨left, firstMoved⟩ := mem_calls left
    obtain ⟨right, secondMoved⟩ := mem_calls right
    have before := place_of_uses placed right left uses
    rw [Moves.place, secondMoved, Moves.place, firstMoved] at before
    exact before.asymm body.distinct before
  · intro call inside
    obtain ⟨inside, moved⟩ := mem_calls inside
    exact ⟨inside, moved ▸ rfl⟩

/-- Executions of the rewritten body follow the order of the places. -/
theorem agree_order (independent : body.Independent stages)
    (noStructRet : ∀ call ∈ body.statements, (body.moves stages call.name).isSome →
      call.hasStructRet = false)
    {events : List (Event Fn Cell)} (executes : Executes (body.parallelized stages) events)
    (interp : Interpretation Fn Cell) (state : State Cell) :
    Agree (runAll (act interp) events state) (runAll (act interp)
      ((order ((body.moves stages).layout body.statements)).map .statement) state) := by
  obtain ⟨layout, placed⟩ := parallelized_eq_layout body stages
  rw [layout] at executes
  refine executes.agree (fun calls member => ?_) ⟨fun _ => rfl, fun _ => rfl⟩
  obtain ⟨group, inside⟩ := group_of_layout independent placed member
  exact ⟨group, fun call member => noStructRet call (inside call member).1 (inside call member).2⟩

theorem faithful_of_undisturbed (independent : body.Independent stages)
    (undisturbed : body.Undisturbed stages) : body.Faithful stages := by
  intro interp state events executes
  have placed := (parallelized_eq_layout body stages).2
  rw [run_order placed undisturbed.inOrder]
  exact agree_order independent undisturbed.noStructRet executes _ state

end

end TopoParallel
end TopoLlvm
