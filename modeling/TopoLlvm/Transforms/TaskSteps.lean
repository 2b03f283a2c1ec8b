import TopoLlvm.Transforms.TaskScaffold
import Mathlib.Data.Set.BooleanAlgebra
import Mathlib.Order.CompletePartialOrder

/-!
# What tasks leave behind

Instructions and the steps of tasks as actions.  However the tasks of a stage are scheduled, they
leave what the calls would leave one after the other, if no argument is an `sret` pointer.
-/

namespace TopoLlvm
namespace TopoParallel

open Reorder (Action Before runAll runAll_perm runAll_append)

variable {Fn Cell : Type}

namespace Statement

/-- It computes a value or may write memory. -/
def HasEffect (statement : Statement Fn Cell) : Prop :=
  statement.isVoid = false ∨ statement.stores.Nonempty

/-- One of the two sees what the other writes, or both write the same. -/
def Interferes (first second : Statement Fn Cell) : Prop :=
  (∃ cell ∈ first.stores, cell ∈ second.stores) ∨
    (second.HasEffect ∧ ∃ cell ∈ first.stores, cell ∈ second.reads) ∨
    (first.HasEffect ∧ ∃ cell ∈ first.reads, cell ∈ second.stores)

end Statement

/-- What an event may read. -/
def Event.reads : Event Fn Cell → Set (Location Cell)
  | .statement here => {location | here.HasEffect ∧
      ((∃ operand ∈ here.operands, location = .value operand.value) ∨
        ∃ cell ∈ here.reads, location = .cell cell)}
  | .pack call => {location | ∃ operand ∈ call.operands, location = .value operand.value}
  | .task call => {location |
      (∃ field, location = .argument call.name field) ∨ ∃ cell ∈ call.reads, location = .cell cell}
  | .load call => {.buffer call.name}

/-- What an event may write. -/
def Event.writes : Event Fn Cell → Set (Location Cell)
  | .statement here => {location |
      (here.isVoid = false ∧ location = .value here.name) ∨
        ∃ cell ∈ here.stores, location = .cell cell}
  | .pack call => {location | ∃ field, location = .argument call.name field}
  | .task call => {location |
      location = .buffer call.name ∨ ∃ cell ∈ call.writes, location = .cell cell}
  | .load call => {.value call.name}

theorem arguments_congr {state other : State Cell} {operands : List Argument}
    (same : ∀ operand ∈ operands, state (.value operand.value) = other (.value operand.value)) :
    arguments state operands = arguments other operands := by
  refine List.map_congr_left fun operand member => ?_
  rw [same operand member]

theorem unpack_congr {state other : State Cell} {task field : Nat} {operands : List Argument}
    (same : ∀ field, state (.argument task field) = other (.argument task field)) :
    unpack state task field operands = unpack other task field operands := by
  induction operands generalizing field with
  | nil => rfl
  | cons operand operands ih =>
      rw [unpack, unpack, same, ih, ih]

variable [DecidableEq Cell] (interp : Interpretation Fn Cell)

theorem update_frame (event : Event Fn Cell) (state : State Cell) (location : Location Cell)
    (outside : location ∉ event.writes) : update interp event state location = none := by
  cases event with
  | statement here =>
      cases location with
      | value name =>
          refine if_neg fun writes => outside (.inl ?_)
          exact ⟨writes.2, congrArg _ writes.1⟩
      | cell cell =>
          have unstored : cell ∉ here.stores := fun member => outside (.inr ⟨cell, member, rfl⟩)
          have unwritten := interp.frame here (arguments state here.operands) (state ∘ .cell) cell
            fun member => unstored (.inl member)
          have apart : ¬ (here.hasStructRet = true ∧ cell = here.object) := fun object =>
            unstored (.inr object)
          simp only [update, if_neg apart, unwritten]
      | argument task field => rfl
      | buffer task => rfl
  | pack call =>
      cases location with
      | argument task field =>
          refine if_neg ?_
          rintro rfl
          exact outside ⟨field, rfl⟩
      | value name => rfl
      | cell cell => rfl
      | buffer task => rfl
  | task call =>
      cases location with
      | cell cell =>
          exact interp.frame call _ _ cell fun member => outside (.inr ⟨cell, member, rfl⟩)
      | buffer task =>
          refine if_neg ?_
          rintro rfl
          exact outside (.inl rfl)
      | value name => rfl
      | argument task field => rfl
  | load call =>
      cases location with
      | value name =>
          refine if_neg ?_
          rintro ⟨rfl, -⟩
          exact outside rfl
      | cell cell => rfl
      | argument task field => rfl
      | buffer task => rfl

theorem update_depends (event : Event Fn Cell) (state other : State Cell)
    (same : ∀ location ∈ event.reads, state location = other location) :
    update interp event state = update interp event other := by
  funext location
  cases event with
  | statement here =>
      by_cases effect : here.HasEffect
      · have args : arguments state here.operands = arguments other here.operands :=
          arguments_congr fun operand member => same _ ⟨effect, .inl ⟨operand, member, rfl⟩⟩
        have exec := interp.depends here (arguments state here.operands) (state ∘ .cell)
          (other ∘ .cell) fun cell member => same _ ⟨effect, .inr ⟨cell, member, rfl⟩⟩
        rw [args] at exec
        cases location <;> simp only [update, args, exec]
      · have outside : location ∉ Event.writes (.statement here) := by
          rintro (⟨value, -⟩ | ⟨cell, stored, -⟩)
          · exact effect (.inl value)
          · exact effect (.inr ⟨cell, stored⟩)
        rw [update_frame interp _ state location outside,
          update_frame interp _ other location outside]
  | pack call =>
      cases location with
      | argument task field =>
          simp only [update]
          split
          · cases packed : call.packed[field]? with
            | none => rfl
            | some value =>
                obtain ⟨operand, member, rfl⟩ := List.mem_map.mp (List.mem_of_getElem? packed)
                exact congrArg some (same _ ⟨operand, List.mem_of_mem_filter member, rfl⟩)
          · rfl
      | value name => rfl
      | cell cell => rfl
      | buffer task => rfl
  | task call =>
      have args : unpack state call.name 0 call.operands = unpack other call.name 0 call.operands :=
        unpack_congr fun field => same _ (.inl ⟨field, rfl⟩)
      have exec := interp.depends call (unpack state call.name 0 call.operands) (state ∘ .cell)
        (other ∘ .cell) fun cell member => same _ (.inr ⟨cell, member, rfl⟩)
      rw [args] at exec
      cases location <;> simp only [update, args, exec]
  | load call =>
      have buffer := same (.buffer call.name) rfl
      cases location <;> simp only [update, buffer]

/-- An event as an action. -/
def act (event : Event Fn Cell) : Action (Location Cell) Nat where
  reads := event.reads
  writes := event.writes
  update := update interp event
  frame := update_frame interp event
  depends := update_depends interp event

/-- The state after an event. -/
abbrev after (event : Event Fn Cell) (state : State Cell) : State Cell :=
  (act interp event).run state

section

variable (call : Statement Fn Cell) (state : State Cell)

@[simp] theorem after_pack_value (name : Nat) :
    after interp (.pack call) state (.value name) = state (.value name) := rfl

@[simp] theorem after_pack_cell (cell : Cell) :
    after interp (.pack call) state (.cell cell) = state (.cell cell) := rfl

theorem after_pack_argument {field value : Nat} (packed : call.packed[field]? = some value) :
    after interp (.pack call) state (.argument call.name field) = state (.value value) := by
  simp [after, Action.run, act, update, packed]

@[simp] theorem after_task_value (name : Nat) :
    after interp (.task call) state (.value name) = state (.value name) := rfl

@[simp] theorem after_task_cell (cell : Cell) :
    after interp (.task call) state (.cell cell) =
      ((interp.exec call (unpack state call.name 0 call.operands)
        (state ∘ .cell)).writes cell).getD (state (.cell cell)) := rfl

theorem after_task_buffer (stores : call.storesResult = true) :
    after interp (.task call) state (.buffer call.name) =
      (interp.exec call (unpack state call.name 0 call.operands) (state ∘ .cell)).result := by
  simp [after, Action.run, act, update, stores]

@[simp] theorem after_load_cell (cell : Cell) :
    after interp (.load call) state (.cell cell) = state (.cell cell) := rfl

theorem after_load_value (name : Nat) : after interp (.load call) state (.value name) =
    if name = call.name ∧ call.storesResult = true then state (.buffer call.name)
    else state (.value name) := by
  simp only [after, Action.run, act, update]
  split <;> rfl

theorem after_statement_value (name : Nat) : after interp (.statement call) state (.value name) =
    if name = call.name ∧ call.isVoid = false then
      (interp.exec call (arguments state call.operands) (state ∘ .cell)).result
    else state (.value name) := by
  simp only [after, Action.run, act, update]
  split <;> rfl

theorem after_statement_cell (cell : Cell) : after interp (.statement call) state (.cell cell) =
    (if call.hasStructRet = true ∧ cell = call.object then
      (interp.exec call (arguments state call.operands) (state ∘ .cell)).structRet <|>
        (interp.exec call (arguments state call.operands) (state ∘ .cell)).writes cell
    else (interp.exec call (arguments state call.operands) (state ∘ .cell)).writes cell).getD
      (state (.cell cell)) := rfl

end

/-! ## One call -/

section

omit [DecidableEq Cell]

/-- The states agree on the values and the memory of the body. -/
structure Agree (state other : State Cell) : Prop where
  value : ∀ name, state (.value name) = other (.value name)
  cell : ∀ cell, state (.cell cell) = other (.cell cell)

theorem Agree.arguments {state other : State Cell} (agree : Agree state other)
    (operands : List Argument) :
    TopoParallel.arguments state operands = TopoParallel.arguments other operands :=
  arguments_congr fun operand _ => agree.value operand.value

theorem Agree.memory {state other : State Cell} (agree : Agree state other) :
    state ∘ Location.cell = other ∘ Location.cell := funext agree.cell

/-- A wrapper takes the arguments that the caller has packed. -/
theorem unpack_eq_arguments {state packed : State Cell} {task field : Nat}
    {operands : List Argument}
    (fields : ∀ index value, ((operands.filter (!·.structRet)).map (·.value))[index]? = some value →
      packed (.argument task (field + index)) = state (.value value)) :
    unpack packed task field operands = arguments state operands := by
  induction operands generalizing field with
  | nil => rfl
  | cons operand operands ih =>
      rw [unpack, arguments, List.map_cons]
      cases structRet : operand.structRet with
      | true =>
          simp only [if_true, List.cons.injEq, true_and]
          refine ih fun index value at_index => fields index value ?_
          simpa [structRet] using at_index
      | false =>
          simp only [Bool.false_eq_true, if_false, List.cons.injEq]
          constructor
          · exact congrArg some (fields 0 operand.value (by simp [structRet]))
          · refine ih fun index value at_index => ?_
            rw [Nat.add_right_comm]
            exact fields (index + 1) value (by simpa [structRet] using at_index)

theorem firstIsStructRet_of_hasStructRet {call : Statement Fn Cell}
    (none : call.hasStructRet = false) : call.firstIsStructRet = false := by
  rw [Statement.firstIsStructRet]
  cases operands : call.operands with
  | nil => rfl
  | cons operand rest =>
      rw [Statement.hasStructRet, operands, List.any_cons, Bool.or_eq_false_iff] at none
      exact none.1

/-- The steps of a task, one after the other. -/
def steps (call : Statement Fn Cell) : List (Event Fn Cell) := [.pack call, .task call, .load call]

end

variable {interp}

/-- A task gets the arguments of the call. -/
theorem unpack_after_pack (call : Statement Fn Cell) (state : State Cell) :
    unpack (after interp (.pack call) state) call.name 0 call.operands =
      arguments state call.operands :=
  unpack_eq_arguments fun index value at_index => by
    rw [Nat.zero_add]
    exact after_pack_argument interp call state at_index

/-- Without `sret` arguments a task does what the call does. -/
theorem run_steps {state other : State Cell} (agree : Agree state other)
    {call : Statement Fn Cell} (none : call.hasStructRet = false) :
    Agree (runAll (act interp) (steps call) state) (after interp (.statement call) other) := by
  have stores : call.storesResult = !call.isVoid := by
    rw [Statement.storesResult, firstIsStructRet_of_hasStructRet none, Bool.not_false,
      Bool.and_true]
  have unpacked : unpack (after interp (.pack call) state) call.name 0 call.operands =
      arguments other call.operands :=
    (unpack_after_pack call state).trans (agree.arguments call.operands)
  have memory : after interp (.pack call) state ∘ Location.cell = other ∘ Location.cell :=
    agree.memory
  change Agree (after interp (.load call) (after interp (.task call)
    (after interp (.pack call) state))) _
  constructor
  case value =>
    intro name
    simp only [after_load_value, after_statement_value, stores, Bool.not_eq_true']
    split
    · rename_i here
      rw [after_task_buffer interp call _ (by simp [stores, here.2]), unpacked, memory]
    · exact agree.value name
  case cell =>
    intro cell
    rw [after_load_cell, after_task_cell, after_statement_cell, if_neg (by simp [none]), unpacked,
      memory, after_pack_cell, agree.cell]

/-- An instruction that stays does the same. -/
theorem Agree.statement {state other : State Cell} (agree : Agree state other)
    (here : Statement Fn Cell) :
    Agree (after interp (.statement here) state) (after interp (.statement here) other) := by
  constructor
  case value =>
    intro name
    rw [after_statement_value, after_statement_value, agree.arguments, agree.memory, agree.value]
  case cell =>
    intro cell
    rw [after_statement_cell, after_statement_cell, agree.arguments, agree.memory, agree.cell]

/-! ## Calls of one stage -/

section

omit [DecidableEq Cell]

/-- Neither call writes memory that the other reads or writes. -/
structure Apart (first second : Statement Fn Cell) : Prop where
  stores : Disjoint first.stores second.stores
  reads : Disjoint first.stores second.reads
  read : Disjoint second.stores first.reads

/-- An operand names the value of the statement. -/
def Uses (use definition : Statement Fn Cell) : Prop :=
  ∃ operand ∈ use.operands, operand.value = definition.name

end

section

omit [DecidableEq Cell]

variable {call : Statement Fn Cell} {event : Event Fn Cell} {location : Location Cell}

/-- What a step of a task may write. -/
theorem writes_of_mem_steps (step : event ∈ steps call) (written : location ∈ event.writes) :
    (∃ field, location = .argument call.name field) ∨ location = .buffer call.name ∨
      location = .value call.name ∨ ∃ cell ∈ call.stores, location = .cell cell := by
  simp only [steps, List.mem_cons, List.not_mem_nil, or_false] at step
  rcases step with rfl | rfl | rfl
  · exact .inl written
  · rcases written with buffer | ⟨cell, member, same⟩
    · exact .inr (.inl buffer)
    · exact .inr (.inr (.inr ⟨cell, .inl member, same⟩))
  · exact .inr (.inr (.inl written))

/-- What a step of a task may read. -/
theorem reads_of_mem_steps (step : event ∈ steps call) (read : location ∈ event.reads) :
    (∃ field, location = .argument call.name field) ∨ location = .buffer call.name ∨
      (∃ operand ∈ call.operands, location = .value operand.value) ∨
        ∃ cell ∈ call.reads, location = .cell cell := by
  simp only [steps, List.mem_cons, List.not_mem_nil, or_false] at step
  rcases step with rfl | rfl | rfl
  · exact .inr (.inr (.inl read))
  · rcases read with argument | memory
    · exact .inl argument
    · exact .inr (.inr (.inr memory))
  · exact .inr (.inl read)

end

/-- The steps of calls that are apart are independent. -/
theorem steps_independent {first second : Statement Fn Cell} (other : first.name ≠ second.name)
    (apart : Apart first second) (forward : ¬ Uses first second) (backward : ¬ Uses second first)
    {event next : Event Fn Cell} (mine : event ∈ steps first) (yours : next ∈ steps second) :
    (act interp event).Independent (act interp next) := by
  -- The other call does not read what a call writes.
  have unread {first second : Statement Fn Cell} {event next : Event Fn Cell}
      (other : first.name ≠ second.name) (reads : Disjoint first.stores second.reads)
      (unused : ¬ Uses second first) (mine : event ∈ steps first) (yours : next ∈ steps second) :
      Disjoint event.writes next.reads := by
    refine Set.disjoint_left.mpr fun location written read => ?_
    rcases writes_of_mem_steps mine written with ⟨_, rfl⟩ | rfl | rfl | ⟨cell, stored, rfl⟩
    all_goals
      rcases reads_of_mem_steps yours read with
        ⟨_, same⟩ | same | ⟨operand, member, same⟩ | ⟨cell, member, same⟩ <;> injection same
    · exact other ‹_›
    · exact other ‹_›
    · exact unused ⟨operand, member, Eq.symm ‹_›⟩
    · exact Set.disjoint_left.mp reads stored (‹_ = cell› ▸ member)
  constructor
  case writes =>
    refine Set.disjoint_left.mpr fun location written others => ?_
    rcases writes_of_mem_steps mine written with ⟨_, rfl⟩ | rfl | rfl | ⟨cell, stored, rfl⟩
    all_goals
      rcases writes_of_mem_steps yours others with
        ⟨_, same⟩ | same | same | ⟨cell, member, same⟩ <;> injection same
    · exact other ‹_›
    · exact other ‹_›
    · exact other ‹_›
    · exact Set.disjoint_left.mp apart.stores stored (‹_ = cell› ▸ member)
  case reads => exact unread other apart.reads backward mine yours
  case read => exact unread other.symm apart.read forward yours mine

section

omit [DecidableEq Cell]

/-- Calls that may become tasks of one stage. -/
structure Group (calls : List (Statement Fn Cell)) : Prop where
  names : (calls.map (·.name)).Nodup
  apart : ∀ first ∈ calls, ∀ second ∈ calls, first.name ≠ second.name → Apart first second
  unused : ∀ first ∈ calls, ∀ second ∈ calls, ¬ Uses first second

def Event.owner : Event Fn Cell → Statement Fn Cell
  | .statement here => here
  | .pack call | .task call | .load call => call

theorem owner_of_mem_steps {call : Statement Fn Cell} {event : Event Fn Cell}
    (step : event ∈ steps call) : event.owner = call := by
  simp only [steps, List.mem_cons, List.not_mem_nil, or_false] at step
  rcases step with rfl | rfl | rfl <;> rfl

theorem mem_flatMap_steps {calls : List (Statement Fn Cell)} {event : Event Fn Cell}
    (member : event ∈ calls.flatMap steps) : event.owner ∈ calls ∧ event ∈ steps event.owner := by
  obtain ⟨call, inside, step⟩ := List.mem_flatMap.mp member
  obtain rfl := owner_of_mem_steps step
  exact ⟨inside, step⟩

theorem flatMap_steps_nodup {calls : List (Statement Fn Cell)} (nodup : calls.Nodup) :
    (calls.flatMap steps).Nodup := by
  induction calls with
  | nil => exact List.nodup_nil
  | cons call calls ih =>
      obtain ⟨fresh, nodup⟩ := List.nodup_cons.mp nodup
      rw [List.flatMap_cons]
      refine List.nodup_append.mpr ⟨by simp [steps], ih nodup, ?_⟩
      rintro event here _ there rfl
      exact fresh (owner_of_mem_steps here ▸ (mem_flatMap_steps there).1)

theorem flatMap_steps_perm (calls : List (Statement Fn Cell)) :
    (calls.flatMap steps).Perm
      (calls.map .pack ++ calls.map .task ++ calls.map .load) := by
  induction calls with
  | nil => exact List.Perm.refl _
  | cons call calls ih =>
      rw [List.flatMap_cons, List.map_cons, List.map_cons, List.map_cons]
      refine (List.Perm.append_left (steps call) ih).trans ?_
      simp only [steps, List.cons_append, List.nil_append, List.append_assoc]
      refine List.Perm.cons _ ?_
      refine List.Perm.trans ?_ List.perm_middle.symm
      refine List.Perm.cons _ ?_
      rw [← List.append_assoc, ← List.append_assoc]
      exact List.perm_middle.symm

end

/-- However tasks of a group are scheduled, they do the same as one after the other. -/
theorem Group.run {calls : List (Statement Fn Cell)} (group : Group calls)
    {events : List (Event Fn Cell)} (schedule : Schedule (.parallel calls) events)
    (state : State Cell) :
    runAll (act interp) events state = runAll (act interp) (calls.flatMap steps) state := by
  cases schedule with
  | @parallel _ events perm _ spawned =>
      have nodup := flatMap_steps_nodup group.names.of_map
      refine (runAll_perm ((flatMap_steps_perm calls).trans (perm.symm.append_right _)) nodup
        (fun first second before dependent => ?_) state).symm
      obtain ⟨inside, mine⟩ := mem_flatMap_steps (before.subset List.mem_cons_self)
      obtain ⟨others, yours⟩ :=
        mem_flatMap_steps (before.subset (List.mem_cons_of_mem _ List.mem_cons_self))
      -- Steps of different calls are independent.
      have same : first.owner.name = second.owner.name := by
        by_contra other
        exact dependent (steps_independent other (group.apart _ inside _ others other)
          (group.unused _ inside _ others) (group.unused _ others _ inside) mine yours)
      have same : first.owner = second.owner :=
        List.inj_on_of_nodup_map group.names inside others same
      rw [← same] at yours
      generalize first.owner = call at inside mine yours
      have order {event next : Event Fn Cell} (before : Before (steps call) event next) :
          Before (calls.flatMap steps) event next :=
        before.mono (List.sublist_flatten_of_mem (List.mem_map_of_mem inside))
      have loaded : .load call ∈ calls.map Event.load := List.mem_map_of_mem inside
      have packed : .pack call ∈ events := perm.mem_iff.mpr
        (List.mem_append_left _ (List.mem_map_of_mem inside))
      have run : .task call ∈ events := perm.mem_iff.mpr
        (List.mem_append_right _ (List.mem_map_of_mem inside))
      simp only [steps, List.mem_cons, List.not_mem_nil, or_false] at mine yours
      rcases mine with rfl | rfl | rfl <;> rcases yours with rfl | rfl | rfl
      · exact absurd before (before.asymm nodup)
      · exact (spawned call inside).mono (List.sublist_append_left _ _)
      · exact Reorder.before_of_mem packed loaded
      · exact absurd before ((order (by simp [Before, steps])).asymm nodup)
      · exact absurd before (before.asymm nodup)
      · exact Reorder.before_of_mem run loaded
      · exact absurd before ((order (by simp [Before, steps])).asymm nodup)
      · exact absurd before ((order (by simp [Before, steps])).asymm nodup)
      · exact absurd before (before.asymm nodup)

/-! ## Executions -/

def Op.statements : Op Fn Cell → List (Statement Fn Cell)
  | .statement here => [here]
  | .parallel calls => calls

/-- The instructions and calls in the order of the rewritten body. -/
def order (ops : List (Op Fn Cell)) : List (Statement Fn Cell) := ops.flatMap Op.statements

theorem run_flatMap_steps {calls : List (Statement Fn Cell)}
    (none : ∀ call ∈ calls, call.hasStructRet = false) {state other : State Cell}
    (agree : Agree state other) :
    Agree (runAll (act interp) (calls.flatMap steps) state)
      (runAll (act interp) (calls.map .statement) other) := by
  induction calls generalizing state other with
  | nil => exact agree
  | cons call calls ih =>
      rw [List.flatMap_cons, runAll_append, List.map_cons]
      exact ih (fun later member => none later (List.mem_cons_of_mem _ member))
        (run_steps agree (none call List.mem_cons_self))

/-- Executions of the rewritten body leave what the instructions and calls leave in its order. -/
theorem Executes.agree {ops : List (Op Fn Cell)} {events : List (Event Fn Cell)}
    (executes : Executes ops events)
    (groups : ∀ calls, .parallel calls ∈ ops →
      Group calls ∧ ∀ call ∈ calls, call.hasStructRet = false)
    {state other : State Cell} (agree : Agree state other) :
    Agree (runAll (act interp) events state)
      (runAll (act interp) ((order ops).map .statement) other) := by
  induction executes generalizing state other with
  | nil => exact agree
  | @cons op ops events rest schedule _ ih =>
      rw [order, List.flatMap_cons, List.map_append, runAll_append, runAll_append]
      refine ih (fun calls member => groups calls (List.mem_cons_of_mem _ member)) ?_
      cases op with
      | statement here =>
          cases schedule
          exact agree.statement here
      | parallel calls =>
          obtain ⟨group, none⟩ := groups calls List.mem_cons_self
          rw [group.run schedule]
          exact run_flatMap_steps none agree

end TopoParallel
end TopoLlvm
