import TopoLlvm.Transforms.ParallelFidelity

/-!
# What moved calls disturb

Instructions that do almost nothing tell whether two of them have changed places, and whether the
result of a task has reached the object that its `sret` argument points to.
-/

namespace TopoLlvm
namespace TopoParallel

open TopoLlvm.Runtime (Name)
open Reorder (Before runAll before_of_mem before_or_before)

variable {Fn Cell : Type} [DecidableEq Cell]

open Classical in
/-- An effect that only puts a value into a cell, the object of the result before others. -/
noncomputable def put (here : Statement Fn Cell) (target : Cell) (value result : Nat) :
    Effect Cell where
  result := result
  structRet := if here.object = target then some value else none
  writes cell :=
    if cell = target ∧ cell ∈ here.writes ∧ ¬ (here.hasStructRet = true ∧ cell = here.object) then
      some value
    else none

theorem put_writes_of_ne {here : Statement Fn Cell} {target cell : Cell} (other : cell ≠ target)
    (value result : Nat) : (put here target value result).writes cell = none :=
  if_neg fun same => other same.1

theorem put_writes_object {here : Statement Fn Cell} (structRet : here.hasStructRet = true)
    (target : Cell) (value result : Nat) :
    (put here target value result).writes here.object = none :=
  if_neg fun same => same.2.2 ⟨structRet, rfl⟩

theorem put_structRet_of_ne {here : Statement Fn Cell} {target : Cell}
    (other : here.object ≠ target) (value result : Nat) :
    (put here target value result).structRet = none := if_neg other

open Classical in
/-- What an instruction may know of a cell. -/
noncomputable def seen (here : Statement Fn Cell) (cell : Cell) (memory : Cell → Nat) : Nat :=
  if cell ∈ here.reads then memory cell else 0

omit [DecidableEq Cell] in
theorem seen_of_mem {here : Statement Fn Cell} {cell : Cell} (reads : cell ∈ here.reads)
    (memory : Cell → Nat) : seen here cell memory = memory cell := if_pos reads

omit [DecidableEq Cell] in
theorem seen_congr {here : Statement Fn Cell} {cell : Cell} {memory other : Cell → Nat}
    (same : ∀ cell ∈ here.reads, memory cell = other cell) :
    seen here cell memory = seen here cell other := by
  unfold seen
  split
  · exact same cell ‹_›
  · rfl

/-- Instructions that return what a cell has, and put what they make of it somewhere. -/
noncomputable def probe (Fn : Type) (cell : Cell) (behave : Nat → Option (Cell × (Nat → Nat))) :
    Interpretation Fn Cell where
  exec here _ memory :=
    match behave here.name with
    | none => ⟨0, none, fun _ => none⟩
    | some (target, value) =>
        put here target (value (seen here cell memory)) (seen here cell memory)
  frame here args memory cell outside := by
    split
    · rfl
    · exact if_neg fun inside => outside inside.2.1
  depends here args memory other same := by
    simp only [seen_congr same]

variable {cell : Cell} {behave : Nat → Option (Cell × (Nat → Nat))} {here : Statement Fn Cell}
  {state : State Cell}

theorem exec_idle (idle : behave here.name = none) (args : List (Option Nat))
    (memory : Cell → Nat) :
    (probe Fn cell behave).exec here args memory = ⟨0, none, fun _ => none⟩ := by
  simp only [probe, idle]

/-- An instruction that is not probed does nothing. -/
theorem after_idle (idle : behave here.name = none) (unset : state (.value here.name) = 0) :
    after (probe Fn cell behave) (.statement here) state = state := by
  funext location
  cases location with
  | value name =>
      rw [after_statement_value, exec_idle idle]
      split
      · rename_i same
        rw [same.1, unset]
      · rfl
  | cell cell =>
      rw [after_statement_cell, exec_idle idle]
      split <;> rfl
  | argument task field => rfl
  | buffer task => rfl

section

variable {target : Cell} {value : Nat → Nat} (probed : behave here.name = some (target, value))

include probed

theorem exec_probed (args : List (Option Nat)) (memory : Cell → Nat) :
    (probe Fn cell behave).exec here args memory =
      put here target (value (seen here cell memory)) (seen here cell memory) := by
  simp only [probe, probed]

theorem after_probe_value (nonvoid : here.isVoid = false) (reads : cell ∈ here.reads) :
    after (probe Fn cell behave) (.statement here) state (.value here.name) =
      state (.cell cell) := by
  rw [after_statement_value, if_pos ⟨rfl, nonvoid⟩, exec_probed probed]
  exact seen_of_mem reads _

theorem after_probe_target (stored : target ∈ here.stores) :
    after (probe Fn cell behave) (.statement here) state (.cell target) =
      value (seen here cell (state ∘ .cell)) := by
  rw [after_statement_cell, exec_probed probed]
  by_cases object : here.hasStructRet = true ∧ target = here.object
  · have structRet : (put here target (value (seen here cell (state ∘ .cell)))
        (seen here cell (state ∘ .cell))).structRet = _ := if_pos object.2.symm
    rw [if_pos object, structRet]
    rfl
  · have written : (put here target (value (seen here cell (state ∘ .cell)))
        (seen here cell (state ∘ .cell))).writes target = _ :=
      if_pos ⟨rfl, stored.resolve_right object, object⟩
    rw [if_neg object, written]
    rfl

theorem after_probe_cell {other : Cell} (apart : other ≠ target) :
    after (probe Fn cell behave) (.statement here) state (.cell other) = state (.cell other) := by
  rw [after_statement_cell, exec_probed probed]
  by_cases object : here.hasStructRet = true ∧ other = here.object
  · rw [if_pos object, put_structRet_of_ne (object.2 ▸ apart), put_writes_of_ne apart]
    rfl
  · rw [if_neg object, put_writes_of_ne apart]
    rfl

end

/-- Everything is zero at the start. -/
def zero : State Cell := fun _ => 0

variable {statements : List (Statement Fn Cell)}

/-- Instructions that are not probed do nothing. -/
theorem run_idle (idle : ∀ here ∈ statements, behave here.name = none)
    (unset : ∀ here ∈ statements, state (.value here.name) = 0) :
    runAll (act (probe Fn cell behave)) (statements.map .statement) state = state := by
  induction statements with
  | nil => rfl
  | cons here statements ih =>
      rw [List.map_cons, Reorder.runAll_cons]
      change runAll _ _ (after (probe Fn cell behave) (.statement here) state) = state
      rw [after_idle (idle here List.mem_cons_self) (unset here List.mem_cons_self)]
      exact ih (fun here member => idle here (List.mem_cons_of_mem _ member))
        fun here member => unset here (List.mem_cons_of_mem _ member)

/-- Only the instruction that is probed does anything. -/
theorem run_one (distinct : (statements.map (·.name)).Nodup) {call : Statement Fn Cell}
    (inside : call ∈ statements)
    (idle : ∀ here ∈ statements, here.name ≠ call.name → behave here.name = none) :
    runAll (act (probe Fn cell behave)) (statements.map .statement) zero =
      after (probe Fn cell behave) (.statement call) zero := by
  have apart {here other : Statement Fn Cell} (left : here ∈ statements)
      (right : other ∈ statements) (ne : here ≠ other) : here.name ≠ other.name :=
    fun same => ne (eq_of_name distinct left right same)
  have nodup : statements.Nodup := distinct.of_map
  obtain ⟨front, back, rfl⟩ := List.append_of_mem inside
  have others : ∀ here, here ∈ front ∨ here ∈ back → here.name ≠ call.name := by
    intro here inside
    grind
  have idle {here : Statement Fn Cell} (inside : here ∈ front ∨ here ∈ back) :
      behave here.name = none := by
    refine idle here ?_ (others here inside)
    grind
  rw [List.map_append, List.map_cons, Reorder.runAll_append, Reorder.runAll_cons,
    run_idle (fun here member => idle (.inl member)) fun _ _ => rfl,
    run_idle (fun here member => idle (.inr member)) fun here member => ?_]
  change after (probe Fn cell behave) (.statement call) zero (.value here.name) = 0
  rw [after_statement_value, if_neg fun same => others here (.inr member) same.1]
  rfl

/-- Only the two instructions that are probed do anything. -/
theorem run_two (distinct : (statements.map (·.name)).Nodup) {first second : Statement Fn Cell}
    (before : Before statements first second)
    (idle : ∀ here ∈ statements, here.name ≠ first.name → here.name ≠ second.name →
      behave here.name = none) :
    runAll (act (probe Fn cell behave)) (statements.map .statement) zero =
      after (probe Fn cell behave) (.statement second)
        (after (probe Fn cell behave) (.statement first) zero) := by
  have keeps {state : State Cell} {call : Statement Fn Cell} {name : Nat}
      (other : name ≠ call.name) :
      after (probe Fn cell behave) (.statement call) state (.value name) = state (.value name) := by
    rw [after_statement_value, if_neg fun same => other same.1]
  have apart {here other : Statement Fn Cell} (left : here ∈ statements)
      (right : other ∈ statements) (ne : here ≠ other) : here.name ≠ other.name :=
    fun same => ne (eq_of_name distinct left right same)
  have nodup : statements.Nodup := distinct.of_map
  obtain ⟨front, back, rfl⟩ := List.append_of_mem (before.subset List.mem_cons_self)
  obtain ⟨between, back, rfl⟩ := List.append_of_mem (before.mem_right nodup)
  have others : ∀ here, here ∈ front ∨ here ∈ between ∨ here ∈ back →
      here.name ≠ first.name ∧ here.name ≠ second.name := by
    intro here inside
    grind
  rw [List.map_append, List.map_cons, List.map_append, List.map_cons, Reorder.runAll_append,
    Reorder.runAll_cons, Reorder.runAll_append, Reorder.runAll_cons]
  have idle {here : Statement Fn Cell} (inside : here ∈ front ∨ here ∈ between ∨ here ∈ back) :
      behave here.name = none := by
    obtain ⟨notFirst, notSecond⟩ := others here inside
    refine idle here ?_ notFirst notSecond
    grind
  rw [run_idle (fun here member => idle (.inl member)) fun _ _ => rfl,
    run_idle (fun here member => idle (.inr (.inl member))) fun here member =>
      keeps (others here (.inr (.inl member))).1,
    run_idle (fun here member => idle (.inr (.inr member))) fun here member =>
      (keeps (others here (.inr (.inr member))).2).trans
        (keeps (others here (.inr (.inr member))).1)]

omit [DecidableEq Cell] in
/-- Every rewritten body has an execution. -/
theorem exists_executes (ops : List (Op Fn Cell)) : ∃ events, Executes ops events := by
  induction ops with
  | nil => exact ⟨[], .nil⟩
  | cons op ops ih =>
      obtain ⟨rest, executes⟩ := ih
      cases op with
      | statement here => exact ⟨_, .cons (.statement here) executes⟩
      | parallel calls =>
          refine ⟨_, .cons (.parallel (List.Perm.refl _) (List.sublist_append_left _ _) ?_) executes⟩
          exact fun call member =>
            before_of_mem (List.mem_map_of_mem member) (List.mem_map_of_mem member)

omit [DecidableEq Cell] in
/-- An instruction with an effect shows what it sees, outside of a cell that it does not write. -/
theorem Statement.HasEffect.exists_target (effect : here.HasEffect) (fresh : cell ∉ here.stores) :
    ∃ target, here.isVoid = false ∨ (target ∈ here.stores ∧ target ≠ cell) := by
  rcases effect with nonvoid | ⟨target, stored⟩
  · exact ⟨cell, .inl nonvoid⟩
  · exact ⟨target, .inr ⟨stored, fun same => fresh (same ▸ stored)⟩⟩

/-- Where an instruction that sees a cell and one that writes it change places, something they
leave is different. -/
theorem not_agree_of_seen {setter getter : Statement Fn Cell} (other : setter.name ≠ getter.name)
    (stored : cell ∈ setter.stores) (reads : cell ∈ getter.reads) {target : Cell}
    (effect : getter.isVoid = false ∨ (target ∈ getter.stores ∧ target ≠ cell))
    (set : behave setter.name = some (cell, fun _ => 1))
    (get : behave getter.name = some (target, id)) :
    (∃ name, after (probe Fn cell behave) (.statement getter)
        (after (probe Fn cell behave) (.statement setter) zero) (.value name) ≠
      after (probe Fn cell behave) (.statement setter)
        (after (probe Fn cell behave) (.statement getter) zero) (.value name)) ∨
    ∃ place, after (probe Fn cell behave) (.statement getter)
        (after (probe Fn cell behave) (.statement setter) zero) (.cell place) ≠
      after (probe Fn cell behave) (.statement setter)
        (after (probe Fn cell behave) (.statement getter) zero) (.cell place) := by
  have is_set : after (probe Fn cell behave) (.statement setter) zero (.cell cell) = 1 :=
    after_probe_target set stored
  rcases effect with nonvoid | ⟨written, apart⟩
  · refine .inl ⟨getter.name, ?_⟩
    rw [after_probe_value get nonvoid reads, is_set, after_statement_value,
      if_neg fun same => other same.1.symm, after_probe_value get nonvoid reads]
    exact Nat.one_ne_zero
  · refine .inr ⟨target, ?_⟩
    rw [after_probe_target get written, after_probe_cell set apart, after_probe_target get written,
      seen_of_mem reads, seen_of_mem reads]
    exact fun same => Nat.one_ne_zero (is_set.symm.trans same)

/-- Two instructions that are probed. -/
def twoProbes (first second : Nat) (atFirst atSecond : Cell × (Nat → Nat)) (name : Nat) :
    Option (Cell × (Nat → Nat)) :=
  if name = first then some atFirst else if name = second then some atSecond else none

section

omit [DecidableEq Cell]

variable {first second name : Nat} {atFirst atSecond : Cell × (Nat → Nat)}

theorem twoProbes_first : twoProbes first second atFirst atSecond first = some atFirst :=
  if_pos rfl

theorem twoProbes_second (other : first ≠ second) :
    twoProbes first second atFirst atSecond second = some atSecond :=
  (if_neg other.symm).trans (if_pos rfl)

theorem twoProbes_idle (notFirst : name ≠ first) (notSecond : name ≠ second) :
    twoProbes first second atFirst atSecond name = none :=
  (if_neg notFirst).trans (if_neg notSecond)

end

variable {value : Nat → Nat} [DecidableEq Fn] {body : Body Fn Cell} {stages : List (Stage Fn)}

omit [DecidableEq Fn] in
/-- Unless the call is executed in place, nothing writes the object for its result. -/
theorem run_cell {call : Statement Fn Cell} (structRet : call.hasStructRet = true)
    {events : List (Event Fn Cell)}
    (inPlace : ∀ here, .statement here ∈ events → behave here.name = none)
    (tasks : ∀ here, .task here ∈ events → behave here.name = none ∨
      here = call ∧ behave here.name = some (call.object, value)) :
    runAll (act (probe Fn cell behave)) events state (.cell call.object) =
      state (.cell call.object) := by
  induction events generalizing state with
  | nil => rfl
  | cons event events ih =>
      rw [Reorder.runAll_cons, ih (fun here member => inPlace here (List.mem_cons_of_mem _ member))
        fun here member => tasks here (List.mem_cons_of_mem _ member)]
      change after (probe Fn cell behave) event state (.cell call.object) = _
      cases event with
      | statement here =>
          rw [after_statement_cell, exec_idle (inPlace here List.mem_cons_self)]
          split <;> rfl
      | pack other => rfl
      | task other =>
          rw [after_task_cell]
          rcases tasks other List.mem_cons_self with idle | ⟨rfl, probed⟩
          · rw [exec_idle idle]
            rfl
          · rw [exec_probed probed, put_writes_object structRet]
            rfl
      | load other => rfl

omit [DecidableEq Cell] in
omit [DecidableEq Fn] in
/-- What is executed in place is an operation in place. -/
theorem Executes.mem {ops : List (Op Fn Cell)} {events : List (Event Fn Cell)}
    (executes : Executes ops events) {here : Statement Fn Cell}
    (member : .statement here ∈ events) : .statement here ∈ ops := by
  induction executes with
  | nil => cases member
  | cons schedule _ ih =>
      rcases List.mem_append.mp member with now | later
      · cases schedule with
        | statement other =>
            obtain ⟨⟩ := List.mem_singleton.mp now
            exact List.mem_cons_self
        | parallel perm _ _ =>
            simp [perm.mem_iff] at now
      · exact List.mem_cons_of_mem _ (ih later)

omit [DecidableEq Cell] [DecidableEq Fn] in
theorem Executes.owner_mem {ops : List (Op Fn Cell)} {events : List (Event Fn Cell)}
    (executes : Executes ops events) {event : Event Fn Cell} (member : event ∈ events) :
    event.owner ∈ order ops := by
  induction executes with
  | nil => cases member
  | @cons op ops events rest schedule _ ih =>
      rw [order, List.flatMap_cons]
      rcases List.mem_append.mp member with now | later
      · refine List.mem_append_left _ ?_
        cases schedule with
        | statement other =>
            obtain rfl := List.mem_singleton.mp now
            exact List.mem_cons_self
        | @parallel calls _ perm _ _ =>
            have now :
                event ∈ calls.map Event.pack ++ calls.map Event.task ++ calls.map Event.load :=
              (perm.append_right _).mem_iff.mp now
            exact (mem_flatMap_steps ((flatMap_steps_perm calls).mem_iff.mpr now)).1
      · exact List.mem_append_right _ (ih later)

omit [DecidableEq Cell] [DecidableEq Fn] in
theorem unmoved_of_mem_item {moves : Moves} {place : Statement Fn Cell}
    (member : .statement here ∈ moves.item statements place) : moves here.name = none := by
  cases moved : moves place.name with
  | none =>
      rw [item_of_none moved] at member
      obtain ⟨⟩ := List.mem_singleton.mp member
      exact moved
  | some firstCall =>
      by_cases same : firstCall = place.name
      · subst same
        rw [item_of_first moved] at member
        cases List.mem_singleton.mp member
      · rw [item_of_other moved same] at member
        cases member

/-- A faithful pass leaves the memory for the results of calls to the calls. -/
theorem noStructRet_of_faithful (faithful : body.Faithful stages) {call : Statement Fn Cell}
    (inside : call ∈ body.statements) (moved : (body.moves stages call.name).isSome) :
    call.hasStructRet = false := by
  by_contra structRet
  rw [Bool.not_eq_false] at structRet
  let behave : Nat → Option (Cell × (Nat → Nat)) := fun name =>
    if name = call.name then some (call.object, fun _ => 1) else none
  have probed : behave call.name = some (call.object, fun _ => 1) := if_pos rfl
  have idle {name : Nat} (other : name ≠ call.name) : behave name = none := if_neg other
  obtain ⟨events, executes⟩ := exists_executes (body.parallelized stages)
  have same := (faithful (probe Fn call.object behave) zero events executes).cell call.object
  rw [run_one body.distinct inside fun here _ => idle,
    after_probe_target probed (.inr ⟨structRet, rfl⟩)] at same
  -- In the rewritten body nothing writes the object.
  obtain ⟨layout, placed⟩ := parallelized_eq_layout body stages
  rw [layout] at executes
  rw [run_cell structRet] at same
  · cases same
  · intro here member
    obtain ⟨place, -, member⟩ := List.mem_flatMap.mp (executes.mem member)
    refine idle fun sameName => ?_
    rw [← sameName, unmoved_of_mem_item member] at moved
    cases moved
  · intro here member
    have owner := (mem_order placed).mp (executes.owner_mem member)
    by_cases sameName : here.name = call.name
    · obtain rfl := eq_of_name body.distinct owner inside sameName
      exact .inr ⟨rfl, probed⟩
    · exact .inl (idle sameName)

/-- A faithful pass keeps the order of what interferes. -/
theorem inOrder_of_faithful (independent : body.Independent stages)
    (faithful : body.Faithful stages) {first second : Statement Fn Cell}
    (before : Before body.statements first second) (interferes : first.Interferes second) :
    Before (body.statements.map (·.name)) ((body.moves stages).place first.name)
      ((body.moves stages).place second.name) := by
  obtain ⟨layout, placed⟩ := parallelized_eq_layout body stages
  have left := before.subset List.mem_cons_self
  have right := before.subset (List.mem_cons_of_mem _ List.mem_cons_self)
  have nodup : body.statements.Nodup := body.distinct.of_map
  have other : first.name ≠ second.name := fun same => by
    obtain rfl := eq_of_name body.distinct left right same
    exact before.asymm nodup before
  have places : (body.moves stages).place first.name ≠ (body.moves stages).place second.name := by
    intro same
    obtain ⟨stage, member, firstCalled, secondCalled⟩ :=
      calls_of_place_eq placed left right other same
    have apart := independent stage member first left second right other firstCalled secondCalled
    rcases interferes with ⟨cell, stored, both⟩ | ⟨-, cell, stored, read⟩ | ⟨-, cell, read, stored⟩
    · exact Set.disjoint_left.mp apart.stores stored both
    · exact Set.disjoint_left.mp apart.reads stored read
    · exact Set.disjoint_left.mp apart.read stored read
  by_contra lost
  -- Then the second goes first in the rewritten body.
  have turned := (before_or_before (place_mem placed (List.mem_map_of_mem left))
    (place_mem placed (List.mem_map_of_mem right)) places).resolve_left lost
  have behind := before_order placed body.distinct right left turned
  have noStructRet := fun call (inside : call ∈ body.statements) =>
    noStructRet_of_faithful faithful inside
  have agree (cell : Cell) (behave : Nat → Option (Cell × (Nat → Nat)))
      (idle : ∀ name, name ≠ first.name → name ≠ second.name → behave name = none) :
      Agree (after (probe Fn cell behave) (.statement first)
          (after (probe Fn cell behave) (.statement second) zero))
        (after (probe Fn cell behave) (.statement second)
          (after (probe Fn cell behave) (.statement first) zero)) := by
    obtain ⟨events, executes⟩ := exists_executes (body.parallelized stages)
    have original := faithful (probe Fn cell behave) zero events executes
    have moved := agree_order independent noStructRet executes (probe Fn cell behave) zero
    have names := ((order_perm placed body.distinct).map (·.name)).nodup_iff.mp body.distinct
    rw [run_two body.distinct before fun here _ => idle here.name] at original
    rw [run_two names behind fun here _ ne ne' => idle here.name ne' ne] at moved
    exact ⟨fun name => (moved.value name).symm.trans (original.value name),
      fun cell => (moved.cell cell).symm.trans (original.cell cell)⟩
  by_cases both : ∃ cell ∈ first.stores, cell ∈ second.stores
  · -- Each puts its own number there.
    obtain ⟨cell, stored, storedToo⟩ := both
    have same := (agree cell (twoProbes first.name second.name (cell, fun _ => 1)
      (cell, fun _ => 2)) fun _ => twoProbes_idle).cell cell
    rw [after_probe_target twoProbes_first stored,
      after_probe_target (twoProbes_second other) storedToo] at same
    cases same
  · rcases interferes with shared | ⟨effect, cell, stored, read⟩ | ⟨effect, cell, read, stored⟩
    · exact both shared
    · obtain ⟨target, effect⟩ := effect.exists_target fun storedToo => both ⟨cell, stored, storedToo⟩
      have same := agree cell (twoProbes first.name second.name (cell, fun _ => 1) (target, id))
        fun _ => twoProbes_idle
      rcases not_agree_of_seen other stored read effect twoProbes_first (twoProbes_second other)
        with ⟨name, differ⟩ | ⟨place, differ⟩
      · exact differ (same.value name).symm
      · exact differ (same.cell place).symm
    · obtain ⟨target, effect⟩ := effect.exists_target fun storedToo => both ⟨cell, storedToo, stored⟩
      have same := agree cell (twoProbes second.name first.name (cell, fun _ => 1) (target, id))
        fun _ notFirst notSecond => twoProbes_idle notSecond notFirst
      rcases not_agree_of_seen other.symm stored read effect twoProbes_first
        (twoProbes_second other.symm) with ⟨name, differ⟩ | ⟨place, differ⟩
      · exact differ (same.value name)
      · exact differ (same.cell place)

/-- For bodies whose stages call independent functions, the pass keeps all results exactly if no
task has an `sret` argument and no call is moved across an instruction that it interferes with. -/
theorem parallelized_results_iff (independent : body.Independent stages) :
    body.Faithful stages ↔ body.Undisturbed stages := by
  constructor
  · intro faithful
    exact
      { noStructRet := fun _ => noStructRet_of_faithful faithful
        inOrder := fun _ _ => inOrder_of_faithful independent faithful }
  · exact faithful_of_undisturbed independent

/-- The stage of `load` and `scale`. -/
def loadScale : Stage Name where
  isDeclaration _ := false
  isVarArg _ := false
  matched := some
  exclude := []
  calledFunctions := ["load".toList, "scale".toList]
  nodes := ["load".toList, "scale".toList]

/-- Both return values for the argument of the pipeline. -/
def byValue : Body Name Unit where
  statements :=
    [⟨0, some "load".toList, [⟨2, false⟩], false, ∅, ∅, ()⟩,
      ⟨1, some "scale".toList, [⟨2, false⟩], false, ∅, ∅, ()⟩]
  distinct := by decide
  defined := by simp

theorem parallelized_results_iff_byValue :
    byValue.Faithful [loadScale] ↔ byValue.Undisturbed [loadScale] :=
  parallelized_results_iff fun _ _ first left second right _ _ _ => by
    have unstored {here : Statement Name Unit} (inside : here ∈ byValue.statements) :
        here.stores = ∅ := by
      rcases List.mem_pair.mp inside with rfl | rfl <;>
        simp [Statement.stores, Statement.hasStructRet]
    exact ⟨unstored left ▸ Set.empty_disjoint _, unstored left ▸ Set.empty_disjoint _,
      unstored right ▸ Set.empty_disjoint _⟩

/-- `load` returns a structure through its first argument. -/
def returningStruct : Body Name Unit where
  statements := [⟨0, some "load".toList, [⟨1, true⟩, ⟨2, false⟩], true, ∅, ∅, ()⟩]
  distinct := by decide
  defined := by simp

/-- The structure stays in the buffer of the task. -/
theorem parallelized_loses_struct :
    returningStruct.Independent [loadScale] ∧ ¬ returningStruct.Faithful [loadScale] := by
  constructor
  · intro _ _ first left second right other
    obtain rfl := List.mem_singleton.mp left
    obtain rfl := List.mem_singleton.mp right
    exact absurd rfl other
  · intro faithful
    have none := noStructRet_of_faithful faithful List.mem_cons_self (by decide)
    cases none

end TopoParallel
end TopoLlvm
