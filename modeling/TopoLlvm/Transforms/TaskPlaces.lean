import TopoLlvm.Transforms.TaskScaffold

/-!
# The places of tasks

The pass rewrites a body stage by stage.  The result has each instruction in its place, and each
call that has become a task at the place of the first call of its stage.
-/

namespace TopoLlvm
namespace TopoParallel

open Reorder (Before before_of_mem)

/-- For calls that have become tasks, the first call of their stage. -/
abbrev Moves := Nat → Option Nat

def Moves.place (moves : Moves) (name : Nat) : Nat := (moves name).getD name

variable {Fn Cell : Type} [DecidableEq Fn] (statements : List (Statement Fn Cell))

namespace Moves

variable (moves : Moves) (stage : Stage Fn)

/-- The calls of a stage that are not tasks yet. -/
def targets : List (Statement Fn Cell) :=
  statements.filter fun here => moves here.name = none ∧ stage.calls here.callee

/-- The operands of the calls have their places before the first call. -/
def dominated (firstCall : Nat) (targets : List (Statement Fn Cell)) : Bool :=
  targets.all fun call => call.operands.all fun operand =>
    !statements.any (·.name = operand.value) ||
      (statements.takeWhile (·.name ≠ firstCall)).any (·.name = moves.place operand.value)

/-- More calls become tasks. -/
def extend (firstCall : Nat) (targets : List (Statement Fn Cell)) : Moves := fun name =>
  if targets.any (·.name = name) then some firstCall else moves name

/-- The calls of one more stage become tasks, unless an operand is not available. -/
def assign : Moves :=
  match moves.targets statements stage with
  | [] => moves
  | firstCall :: rest =>
      if moves.dominated statements firstCall.name (firstCall :: rest) then
        moves.extend firstCall.name (firstCall :: rest)
      else moves

/-- The operations at the place of an instruction. -/
def item (here : Statement Fn Cell) : List (Op Fn Cell) :=
  match moves here.name with
  | none => [.statement here]
  | some firstCall =>
      if firstCall = here.name then
        [.parallel (statements.filter (moves ·.name = some firstCall))]
      else []

def layout : List (Op Fn Cell) := statements.flatMap (moves.item statements)

end Moves

/-- Where the calls of the stages go. -/
def Body.moves (body : Body Fn Cell) (stages : List (Stage Fn)) : Moves :=
  stages.foldl (Moves.assign body.statements) fun _ => none

variable {statements} {moves : Moves} {stage : Stage Fn}

section

omit [DecidableEq Fn]

variable {here : Statement Fn Cell}

theorem item_of_none (unmoved : moves here.name = none) :
    moves.item statements here = [.statement here] := by
  rw [Moves.item, unmoved]

theorem item_of_first (first : moves here.name = some here.name) : moves.item statements here =
    [.parallel (statements.filter (moves ·.name = some here.name))] := by
  rw [Moves.item, first]
  exact if_pos rfl

theorem item_of_other {place : Nat} (moved : moves here.name = some place)
    (other : place ≠ here.name) : moves.item statements here = [] := by
  rw [Moves.item, moved]
  exact if_neg other

end

theorem targetCalls_layout :
    targetCalls stage (moves.layout statements) = moves.targets statements stage := by
  have all (others : List (Statement Fn Cell)) :
      targetCalls stage (others.flatMap (moves.item statements)) =
        moves.targets others stage := by
    induction others with
    | nil => rfl
    | cons here others ih =>
        rw [List.flatMap_cons, targetCalls, List.filterMap_append, ← targetCalls, ← targetCalls, ih,
          Moves.targets, Moves.targets, List.filter_cons]
        cases moved : moves here.name with
        | none =>
            by_cases calls : stage.calls here.callee = true <;>
              simp [Moves.item, moved, targetCalls, Op.call, calls]
        | some firstCall =>
            by_cases same : firstCall = here.name <;>
              simp [Moves.item, moved, targetCalls, Op.call, same]
  exact all statements

variable (distinct : (statements.map (·.name)).Nodup)

include distinct

omit [DecidableEq Fn] in
theorem eq_of_name {first second : Statement Fn Cell} (left : first ∈ statements)
    (right : second ∈ statements) (same : first.name = second.name) : first = second :=
  List.inj_on_of_nodup_map distinct left right same

omit [DecidableEq Fn] in
/-- The names before an instruction. -/
theorem any_takeWhile_iff {here : Statement Fn Cell} (member : here ∈ statements) {name : Nat} :
    (statements.takeWhile (·.name ≠ here.name)).any (·.name = name) = true ↔
      Before (statements.map (·.name)) name here.name := by
  obtain ⟨front, back, rfl⟩ := List.append_of_mem member
  have fresh : ∀ other ∈ front, decide (other.name ≠ here.name) = true := by
    rw [List.map_append, List.map_cons] at distinct
    intro other inside
    exact decide_eq_true ((List.nodup_append.mp distinct).2.2 _ (List.mem_map_of_mem inside) _
      List.mem_cons_self)
  rw [List.takeWhile_append_of_pos fresh, List.takeWhile_cons_of_neg (by simp), List.append_nil]
  rw [List.map_append, List.map_cons] at distinct ⊢
  constructor
  · intro found
    obtain ⟨other, inside, same⟩ := List.any_eq_true.mp found
    exact before_of_mem (of_decide_eq_true same ▸ List.mem_map_of_mem inside) List.mem_cons_self
  · intro before
    obtain ⟨other, inside, same⟩ := List.mem_map.mp (before.mem_left distinct)
    exact List.any_eq_true.mpr ⟨other, inside, decide_eq_true same⟩

/-- What one stage may rely on: the calls that have become tasks go to a call before them, and
their operands have their places before that. -/
structure Moves.Placed (moves : Moves) (stages : List (Stage Fn))
    (statements : List (Statement Fn Cell)) : Prop where
  first : ∀ here ∈ statements, ∀ firstCall, moves here.name = some firstCall →
    moves firstCall = some firstCall ∧ firstCall ∈ statements.map (·.name) ∧
      (firstCall = here.name ∨ Before (statements.map (·.name)) firstCall here.name)
  operands : ∀ here ∈ statements, ∀ firstCall, moves here.name = some firstCall →
    ∀ operand ∈ here.operands, operand.value ∈ statements.map (·.name) →
      Before (statements.map (·.name)) (moves.place operand.value) firstCall
  called : ∀ here ∈ statements, ∀ other ∈ statements, ∀ firstCall,
    moves here.name = some firstCall → moves other.name = some firstCall →
      ∃ stage ∈ stages, stage.calls here.callee = true ∧ stage.calls other.callee = true

omit [DecidableEq Fn] distinct in
theorem any_iff_mem {statements : List (Statement Fn Cell)} {name : Nat} :
    statements.any (·.name = name) = true ↔ name ∈ statements.map (·.name) := by
  simp

section

variable {firstCall : Statement Fn Cell} {rest : List (Statement Fn Cell)}
  (targets : moves.targets statements stage = firstCall :: rest)

include targets

omit distinct in
theorem mem_targets {here : Statement Fn Cell} : here ∈ firstCall :: rest ↔
    here ∈ statements ∧ moves here.name = none ∧ stage.calls here.callee = true := by
  rw [← targets, Moves.targets, List.mem_filter, decide_eq_true_eq]

theorem any_targets_iff {here : Statement Fn Cell} (member : here ∈ statements) :
    (firstCall :: rest).any (·.name = here.name) = true ↔
      moves here.name = none ∧ stage.calls here.callee = true := by
  constructor
  · intro found
    obtain ⟨other, inside, same⟩ := List.any_eq_true.mp found
    have ⟨member', properties⟩ := (mem_targets targets).mp inside
    rwa [eq_of_name distinct member' member (of_decide_eq_true same)] at properties
  · intro properties
    exact List.any_eq_true.mpr
      ⟨here, (mem_targets targets).mpr ⟨member, properties⟩, decide_eq_true rfl⟩

omit distinct in
/-- The first call of a stage comes first. -/
theorem first_or_before {here : Statement Fn Cell} (member : here ∈ firstCall :: rest) :
    firstCall = here ∨ Before (statements.map (·.name)) firstCall.name here.name := by
  rcases List.mem_cons.mp member with same | later
  · exact .inl same.symm
  · have inside : Before (moves.targets statements stage) firstCall here := by
      rw [targets]
      exact List.cons_sublist_cons.mpr (List.singleton_sublist.mpr later)
    exact .inr ((inside.mono List.filter_sublist).map (·.name))

/-- A stage whose operands are available becomes a group of tasks. -/
theorem Moves.Placed.assign {stages : List (Stage Fn)} (placed : moves.Placed stages statements)
    (member : stage ∈ stages)
    (dominated : moves.dominated statements firstCall.name (firstCall :: rest) = true) :
    (moves.extend firstCall.name (firstCall :: rest)).Placed stages statements := by
  have firstMember := (mem_targets targets).mp List.mem_cons_self
  have unmoved := firstMember.2.1
  have firstTarget : (firstCall :: rest).any (·.name = firstCall.name) = true :=
    (any_targets_iff distinct targets firstMember.1).mpr firstMember.2
  -- The new place of a value is not behind the old one.
  have place {name : Nat} (defined : name ∈ statements.map (·.name)) {bound : Nat}
      (before : Before (statements.map (·.name)) (moves.place name) bound) :
      Before (statements.map (·.name))
        ((moves.extend firstCall.name (firstCall :: rest)).place name) bound := by
    rw [Moves.place, Moves.extend]
    split
    · rename_i target
      obtain ⟨here, inside, rfl⟩ := List.mem_map.mp defined
      have properties := (any_targets_iff distinct targets inside).mp target
      rw [Moves.place, properties.1, Option.getD_none] at before
      rw [Option.getD_some]
      rcases first_or_before targets ((mem_targets targets).mpr ⟨inside, properties⟩) with
        same | earlier
      · rwa [same]
      · exact earlier.trans before distinct
    · exact before
  constructor
  case first =>
    intro here inside other moved
    rw [Moves.extend] at moved
    split at moved
    · rename_i target
      obtain rfl := Option.some.inj moved
      refine ⟨if_pos firstTarget, List.mem_map_of_mem firstMember.1, ?_⟩
      have properties := (any_targets_iff distinct targets inside).mp target
      rcases first_or_before targets ((mem_targets targets).mpr ⟨inside, properties⟩) with
        same | earlier
      · exact .inl (congrArg _ same)
      · exact .inr earlier
    · obtain ⟨itself, defined, before⟩ := placed.first here inside other moved
      refine ⟨?_, defined, before⟩
      rw [Moves.extend]
      split
      · rename_i target
        obtain ⟨call, callInside, rfl⟩ := List.mem_map.mp defined
        rw [((any_targets_iff distinct targets callInside).mp target).1] at itself
        cases itself
      · exact itself
  case operands =>
    intro here inside other moved operand operandInside defined
    refine place defined ?_
    rw [Moves.extend] at moved
    split at moved
    · rename_i target
      obtain rfl := Option.some.inj moved
      have properties := (any_targets_iff distinct targets inside).mp target
      have call := (mem_targets targets).mpr ⟨inside, properties⟩
      have available := List.all_eq_true.mp (List.all_eq_true.mp dominated here call) operand
        operandInside
      rw [any_iff_mem.mpr defined, Bool.not_true, Bool.false_or] at available
      exact (any_takeWhile_iff distinct firstMember.1).mp available
    · exact placed.operands here inside other moved operand operandInside defined
  case called =>
    intro here inside next nextInside other moved nextMoved
    rw [Moves.extend] at moved nextMoved
    split at moved
    · rename_i target
      obtain rfl := Option.some.inj moved
      split at nextMoved
      · rename_i nextTarget
        exact ⟨stage, member, ((any_targets_iff distinct targets inside).mp target).2,
          ((any_targets_iff distinct targets nextInside).mp nextTarget).2⟩
      · have itself := (placed.first next nextInside _ nextMoved).1
        rw [unmoved] at itself
        cases itself
    · split at nextMoved
      · obtain rfl := Option.some.inj nextMoved
        have itself := (placed.first here inside _ moved).1
        rw [unmoved] at itself
        cases itself
      · exact placed.called here inside next nextInside other moved nextMoved

end

omit distinct in
/-- A value is defined at its place. -/
theorem item_defines_iff {stages : List (Stage Fn)} (placed : moves.Placed stages statements)
    {here : Statement Fn Cell} {name : Nat} (defined : name ∈ statements.map (·.name)) :
    (moves.item statements here).any (Op.defines name) = true ↔ here.name = moves.place name := by
  obtain ⟨definition, inside, rfl⟩ := List.mem_map.mp defined
  have itself {firstCall : Nat} (moved : moves definition.name = some firstCall) :=
    (placed.first definition inside firstCall moved).1
  rw [Moves.place]
  cases moved : moves here.name with
  | none =>
      rw [item_of_none moved]
      cases target : moves definition.name with
      | none => simp [Op.defines]
      | some firstCall =>
          have apart : here.name ≠ firstCall := by
            rintro rfl
            cases moved.symm.trans (itself target)
          have apart' : here.name ≠ definition.name := fun same => by
            cases (same ▸ moved).symm.trans target
          simp [Op.defines, apart, apart']
  | some place =>
      by_cases same : place = here.name
      · -- The tasks of a stage are defined together.
        subst same
        have group : ([Op.parallel (statements.filter (moves ·.name = some here.name))]).any
            (Op.defines definition.name) = true ↔ moves definition.name = some here.name := by
          simp only [List.any_cons, List.any_nil, Bool.or_false, Op.defines, List.any_eq_true,
            List.mem_filter, decide_eq_true_eq]
          constructor
          · rintro ⟨other, ⟨-, moved⟩, same⟩
            rwa [← same]
          · exact fun target => ⟨definition, ⟨inside, target⟩, rfl⟩
        rw [item_of_first moved, group]
        cases target : moves definition.name with
        | none =>
            have apart : here.name ≠ definition.name := fun same => by
              cases (same ▸ moved).symm.trans target
            simp [apart]
        | some firstCall => simp [eq_comm]
      · rw [item_of_other moved same]
        cases target : moves definition.name with
        | none =>
            have apart : here.name ≠ definition.name := fun same => by
              cases (same ▸ moved).symm.trans target
            simp [apart]
        | some firstCall =>
            have apart : here.name ≠ firstCall := by
              rintro rfl
              exact same (Option.some.inj (moved.symm.trans (itself target)))
            simp [apart]

omit distinct [DecidableEq Fn] in
theorem mem_of_item_defines {here : Statement Fn Cell} (member : here ∈ statements) {name : Nat}
    (defines : (moves.item statements here).any (Op.defines name) = true) :
    name ∈ statements.map (·.name) := by
  rw [Moves.item] at defines
  split at defines
  · rw [List.any_cons, List.any_nil, Bool.or_false, Op.defines, decide_eq_true_eq] at defines
    exact defines ▸ List.mem_map_of_mem member
  · split at defines
    · simp only [List.any_cons, List.any_nil, Bool.or_false, Op.defines, List.any_eq_true,
        List.mem_filter, decide_eq_true_eq] at defines
      obtain ⟨other, ⟨inside, -⟩, same⟩ := defines
      exact same ▸ List.mem_map_of_mem inside
    · cases defines

omit distinct [DecidableEq Fn] in
theorem not_isStatement_of_mem_item {here : Statement Fn Cell} {name : Nat}
    (other : here.name ≠ name) {op : Op Fn Cell} (member : op ∈ moves.item statements here) :
    op.isStatement name = false := by
  rw [Moves.item] at member
  split at member
  · obtain rfl := List.mem_singleton.mp member
    exact decide_eq_false other
  · split at member
    · obtain rfl := List.mem_singleton.mp member
      rfl
    · cases member

omit [DecidableEq Fn] in
/-- The operations before the first call of a stage are those of the instructions before it. -/
theorem takeWhile_layout {firstCall : Statement Fn Cell} (member : firstCall ∈ statements)
    (unmoved : moves firstCall.name = none) :
    (moves.layout statements).takeWhile (!Op.isStatement firstCall.name ·) =
      (statements.takeWhile (·.name ≠ firstCall.name)).flatMap (moves.item statements) := by
  rw [Moves.layout]
  -- The items depend on all instructions, so only the list walked over is split.
  generalize whole : moves.item statements = item
  have unmovedItem : item firstCall = [.statement firstCall] := whole ▸ item_of_none unmoved
  have others : ∀ here : Statement Fn Cell, here.name ≠ firstCall.name → ∀ op ∈ item here,
      (!op.isStatement firstCall.name) = true := by
    subst whole
    intro here other op inside
    rw [not_isStatement_of_mem_item other inside]
    rfl
  clear whole unmoved
  induction statements with
  | nil => cases member
  | cons here statements ih =>
      by_cases same : here.name = firstCall.name
      · have here_eq := eq_of_name distinct List.mem_cons_self member same
        subst here_eq
        rw [List.flatMap_cons, unmovedItem, List.takeWhile_cons_of_neg (by simp)]
        exact List.takeWhile_cons_of_neg (by simp [Op.isStatement])
      · rw [List.flatMap_cons, List.takeWhile_append_of_pos (others here same),
          List.takeWhile_cons_of_pos (by simpa using same), List.flatMap_cons,
          ih (List.nodup_cons.mp distinct).2
            ((List.mem_cons.mp member).resolve_left fun eq => same (congrArg _ eq.symm))]

omit distinct in
theorem place_mem {stages : List (Stage Fn)} (placed : moves.Placed stages statements) {name : Nat}
    (defined : name ∈ statements.map (·.name)) : moves.place name ∈ statements.map (·.name) := by
  obtain ⟨definition, inside, rfl⟩ := List.mem_map.mp defined
  rw [Moves.place]
  cases moved : moves definition.name with
  | none => exact defined
  | some firstCall => exact (placed.first definition inside firstCall moved).2.1

/-- The gate asks for the places of operands. -/
theorem operandsDominateSpawn_layout {stages : List (Stage Fn)}
    (placed : moves.Placed stages statements) {firstCall : Statement Fn Cell}
    (member : firstCall ∈ statements) (unmoved : moves firstCall.name = none)
    (calls : List (Statement Fn Cell)) :
    operandsDominateSpawn (moves.layout statements) firstCall.name calls =
      moves.dominated statements firstCall.name calls := by
  unfold operandsDominateSpawn Moves.dominated
  congr 1
  funext call
  congr 1
  funext operand
  rw [takeWhile_layout distinct member unmoved]
  by_cases defined : operand.value ∈ statements.map (·.name)
  · have ahead (others : List (Statement Fn Cell)) :
        (others.flatMap (moves.item statements)).any (Op.defines operand.value) =
          others.any (·.name = moves.place operand.value) := by
      rw [List.any_flatMap]
      exact List.any_congr rfl fun here => Bool.eq_iff_iff.mpr
        ((item_defines_iff placed defined).trans decide_eq_true_iff.symm)
    rw [Moves.layout, ahead, ahead, any_iff_mem.mpr defined,
      any_iff_mem.mpr (place_mem placed defined)]
  · have undefined : (moves.layout statements).any (Op.defines operand.value) = false := by
      rw [Moves.layout, List.any_flatMap, List.any_eq_false]
      exact fun here inside defines => defined (mem_of_item_defines inside defines)
    have undefined' : statements.any (·.name = operand.value) = false :=
      Bool.eq_false_iff.mpr fun found => defined (any_iff_mem.mp found)
    rw [undefined, undefined']
    rfl

/-- What a stage makes of the operations at a place. -/
theorem item_spawn {stages : List (Stage Fn)} (placed : moves.Placed stages statements)
    {firstCall : Statement Fn Cell} {rest : List (Statement Fn Cell)}
    (targets : moves.targets statements stage = firstCall :: rest)
    {here : Statement Fn Cell} (member : here ∈ statements) :
    (moves.item statements here).flatMap (Op.spawn firstCall.name (firstCall :: rest)) =
      (moves.extend firstCall.name (firstCall :: rest)).item statements here := by
  have firstMember := (mem_targets targets).mp List.mem_cons_self
  have unmoved := firstMember.2.1
  have apart {other : Statement Fn Cell} (inside : other ∈ statements) :
      moves other.name ≠ some firstCall.name := fun moved => by
    cases unmoved.symm.trans (placed.first other inside _ moved).1
  cases moved : moves here.name with
  | none =>
      rw [item_of_none moved, List.flatMap_singleton, Op.spawn]
      by_cases first : here.name = firstCall.name
      · obtain rfl := eq_of_name distinct member firstMember.1 first
        have target := (any_targets_iff distinct targets member).mpr firstMember.2
        rw [if_pos rfl, item_of_first (if_pos target)]
        refine congrArg (fun calls => [Op.parallel calls]) (targets.symm.trans
          (List.filter_congr fun other inside => decide_eq_decide.mpr ?_))
        rw [← any_targets_iff distinct targets inside, Moves.extend]
        split
        · rename_i target
          exact ⟨fun _ => rfl, fun _ => target⟩
        · rename_i target
          exact ⟨fun found => absurd found target, fun moved => absurd moved (apart inside)⟩
      · rw [if_neg first]
        split
        · rename_i target
          exact (item_of_other (if_pos target) (Ne.symm first)).symm
        · rename_i target
          exact (item_of_none ((if_neg target).trans moved)).symm
  | some place =>
      have stays {other : Statement Fn Cell} (inside : other ∈ statements) {place : Nat}
          (moved : moves other.name = some place) :
          ¬ (firstCall :: rest).any (·.name = other.name) = true := fun target => by
        cases moved.symm.trans ((any_targets_iff distinct targets inside).mp target).1
      have moved' : moves.extend firstCall.name (firstCall :: rest) here.name = some place :=
        (if_neg (stays member moved)).trans moved
      by_cases same : place = here.name
      · subst same
        rw [item_of_first moved, List.flatMap_singleton, Op.spawn, item_of_first moved']
        congr 2
        refine List.filter_congr fun other inside => decide_eq_decide.mpr ?_
        rw [Moves.extend]
        split
        · rename_i target
          have first : here.name ≠ firstCall.name := fun same => by
            cases (same ▸ moved).symm.trans unmoved
          rw [((any_targets_iff distinct targets inside).mp target).1]
          exact ⟨nofun, fun same => absurd (Option.some.inj same).symm first⟩
        · exact Iff.rfl
      · rw [item_of_other moved same, item_of_other moved' same]
        rfl

/-- Rewriting a stage moves its calls. -/
theorem parallelizeStage_layout {stages : List (Stage Fn)}
    (placed : moves.Placed stages statements) (member : stage ∈ stages) :
    parallelizeStage (moves.layout statements) stage =
        (moves.assign statements stage).layout statements ∧
      (moves.assign statements stage).Placed stages statements := by
  rw [parallelizeStage, targetCalls_layout, Moves.assign]
  cases targets : moves.targets statements stage with
  | nil => exact ⟨rfl, placed⟩
  | cons firstCall rest =>
      have firstMember := (mem_targets targets).mp List.mem_cons_self
      have unmoved := firstMember.2.1
      dsimp only
      rw [operandsDominateSpawn_layout distinct placed firstMember.1 unmoved]
      by_cases gate : moves.dominated statements firstCall.name (firstCall :: rest) = true
      case neg =>
        rw [if_neg gate, if_neg gate]
        exact ⟨rfl, placed⟩
      case pos =>
        rw [if_pos gate, if_pos gate]
        refine ⟨?_, placed.assign distinct targets member gate⟩
        rw [Moves.layout, List.flatMap_assoc, Moves.layout]
        exact List.flatMap_congr fun here inside => item_spawn distinct placed targets inside

omit distinct in
/-- The pass puts the instructions and tasks of a body in their places. -/
theorem parallelized_eq_layout (body : Body Fn Cell) (stages : List (Stage Fn)) :
    body.parallelized stages = (body.moves stages).layout body.statements ∧
      (body.moves stages).Placed stages body.statements := by
  have all {done : List (Stage Fn)} (inside : done ⊆ stages) {moves : Moves}
      (placed : moves.Placed stages body.statements) :
      done.foldl parallelizeStage (moves.layout body.statements) =
          (done.foldl (Moves.assign body.statements) moves).layout body.statements ∧
        (done.foldl (Moves.assign body.statements) moves).Placed stages body.statements := by
    induction done generalizing moves with
    | nil => exact ⟨rfl, placed⟩
    | cons stage done ih =>
        obtain ⟨member, inside⟩ := List.cons_subset.mp inside
        obtain ⟨layout, placed⟩ := parallelizeStage_layout body.distinct placed member
        rw [List.foldl_cons, List.foldl_cons, layout]
        exact ih inside placed
  have start : Moves.layout body.statements (fun _ => none) = body.statements.map .statement :=
    List.map_eq_flatMap.symm
  have placed : Moves.Placed (fun _ => none) stages body.statements := ⟨nofun, nofun, nofun⟩
  rw [Body.parallelized, ← start]
  exact all (List.Subset.refl _) placed

end TopoParallel
end TopoLlvm
