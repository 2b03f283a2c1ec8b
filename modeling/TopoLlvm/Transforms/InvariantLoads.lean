import TopoLlvm.Library.Traversal
import TopoLlvm.Transforms.SmartPointers
import Mathlib.Data.Nat.Digits.Defs

/-!
# Invariant loads

Activations of the functions that `IndirectionPass` marks.  A marked load is promised to read one
pointer that is not null; whether it does is decided by the writes that the pass does not look for.
-/

namespace TopoLlvm
namespace Indirection

open TopoLlvm.Backend

/-! ## Memory -/

/-- Memory by bytes; some are undefined. -/
abbrev Memory := Nat → Option UInt8

structure Write where
  address : Nat
  bytes : List (Option UInt8)

def Write.apply (memory : Memory) (write : Write) : Memory := fun address =>
  if write.address ≤ address then
    match write.bytes[address - write.address]? with
    | some byte => byte
    | none => memory address
  else memory address

def replay (memory : Memory) (writes : List Write) : Memory := writes.foldl Write.apply memory

theorem replay_append (memory : Memory) (front back : List Write) :
    replay memory (front ++ back) = replay (replay memory front) back :=
  List.foldl_append

/-- The bytes of a cell, if they are all defined. -/
def Memory.cell (memory : Memory) (address size : Nat) : Option (List UInt8) :=
  (List.range size).mapM fun offset => memory (address + offset)

def toBytes (size value : Nat) : List UInt8 :=
  (List.range size).map fun place => UInt8.ofNat (value / 256 ^ place)

def ofBytes (bytes : List UInt8) : Nat := Nat.ofDigits 256 (bytes.map (·.toNat))

def IsNull (bytes : List UInt8) : Prop := ∀ byte ∈ bytes, byte = 0

/-! ## Activations -/

structure Read where
  address : Nat
  bytes : List UInt8

/-- What an instruction does. -/
structure Action where
  value : Nat
  writes : List Write
  read : Option Read

structure Event where
  index : Nat
  action : Action

/-- The state of an activation: what has been executed, the values of instructions and of
parameters, and memory. -/
structure State where
  history : List Event
  values : Nat → Nat
  params : Nat → Nat
  memory : Memory

/-- The target and the rest of the program: how types lie in memory, where globals and new locals
are, which instruction comes next, and what calls and the remaining instructions do. -/
structure Setting where
  size : Ty → Nat
  gep : Ty → Nat → List Nat → Nat
  globals : Nat → Nat
  functions : FunctionId → Nat
  isFresh : State → Nat → Prop
  next : State → Nat → Prop
  outcome : State → Nat → Nat → List Write → Prop

section Activations

variable (setting : Setting) (func : Function)

def State.value (state : State) : Operand → Nat
  | .inst index => state.values index
  | .param index => state.params index
  | .global index => setting.globals index
  | .function id => setting.functions id
  | .constant value => value

/-- The remaining instructions, among which the loads of atomic operations are not marked. -/
def Inst.isOpaque : Inst → Bool
  | .call .. | .phi _ | .select .. | .atomicRMW .. | .ordering _ | .other _ => true
  | _ => false

/-- What an instruction does in a state; what is undefined is read as any value. -/
inductive Does (state : State) (index : Nat) : Inst → Action → Prop
  | alloca {type : Ty} {address : Nat} : setting.isFresh state address →
      Does state index (.alloca type)
        ⟨address, [⟨address, List.replicate (setting.size type) none⟩], none⟩
  | gep {source : Ty} {base : Operand} {indices : List Operand} :
      Does state index (.gep source base indices)
        ⟨setting.gep source (state.value setting base) (indices.map (state.value setting)), [],
          none⟩
  | load {type : Ty} {pointer : Operand} (bytes : List UInt8) :
      bytes.length = setting.size type →
      (∀ content, state.memory.cell (state.value setting pointer) (setting.size type) =
        some content → bytes = content) →
      Does state index (.load type pointer)
        ⟨ofBytes bytes, [], some ⟨state.value setting pointer, bytes⟩⟩
  | store {type : Ty} {value pointer : Operand} :
      Does state index (.store type value pointer)
        ⟨0, [⟨state.value setting pointer,
          (toBytes (setting.size type) (state.value setting value)).map some⟩], none⟩
  | outside {inst : Inst} {value : Nat} {writes : List Write} : inst.isOpaque = true →
      setting.outcome state index value writes → Does state index inst ⟨value, writes, none⟩

/-- The state after an instruction. -/
def State.after (state : State) (index : Nat) (action : Action) : State :=
  { state with
    history := state.history ++ [⟨index, action⟩]
    values := Function.update state.values index action.value
    memory := replay state.memory action.writes }

/-- The runs of an activation. -/
inductive Runs (start : State) : State → Prop
  | start : start.history = [] → Runs start start
  | step {state : State} (index : Nat) {inst : Inst} {action : Action} :
      Runs start state → setting.next state index → func.insts[index]? = some inst →
      Does setting state index inst action → Runs start (state.after index action)

end Activations

/-! ## Promises -/

section Promises

variable (setting : Setting) (func : Function)

/-- An execution of a load reads some bytes. -/
def State.Reads (state : State) (load : Nat) (bytes : List UInt8) : Prop :=
  ∃ event ∈ state.history, event.index = load ∧
    ∃ address, event.action.read = some ⟨address, bytes⟩

/-- In every activation, a load reads one value, and not null. -/
def Invariant (load : Nat) : Prop :=
  ∀ start state, Runs setting func start state →
    (∀ bytes, state.Reads load bytes → ¬ IsNull bytes) ∧
    ∀ bytes others, state.Reads load bytes → state.Reads load others → bytes = others

/-- The local and the field that a load reads. -/
def Function.fieldOf (load : Nat) : Option (Nat × List Nat) :=
  match func.insts[load]? with
  | some (.load _ (.inst index)) =>
      match func.insts[index]? with
      | some (.gep _ (.inst slot) _) =>
          (func.slotType slot).bind fun sty => (findInnerPointer sty).map (slot, ·)
      | _ => none
  | _ => none

/-- The pass looks for the instruction: a store to the field, or an escape of the local. -/
def Function.looksFor (slot : Nat) (path : List Nat) (inst : Inst) : Bool :=
  func.storesTo slot path inst || inst.escapes (.inst slot)

/-- The writes of what has been executed that the pass does not look for. -/
def Function.unseenWrites (load : Nat) (history : List Event) : List Write :=
  (history.filter fun event =>
    match func.fieldOf load, func.insts[event.index]? with
    | some (slot, path), some inst => !func.looksFor slot path inst
    | _, _ => true).flatMap (·.action.writes)

/-- What those writes leave for an execution of a load. -/
def State.Leaves (start state : State) (load : Nat) (content : Option (List UInt8)) : Prop :=
  ∃ before event after, state.history = before ++ event :: after ∧ event.index = load ∧
    ∃ address bytes, event.action.read = some ⟨address, bytes⟩ ∧
      content = (replay start.memory (func.unseenWrites load before)).cell address bytes.length

/-- In every activation, the writes that the pass does not look for leave one pointer for a load,
not null. -/
def Kept (load : Nat) : Prop :=
  ∀ start state, Runs setting func start state →
    (∀ content, start.Leaves func state load content →
      ∃ bytes, content = some bytes ∧ ¬ IsNull bytes) ∧
    ∀ content other, start.Leaves func state load content → start.Leaves func state load other →
      content = other

/-- The field of a load is known, and the function has nothing that the pass looks for. -/
def Checked (load : Nat) : Prop :=
  ∃ slot path, func.fieldOf load = some (slot, path) ∧
    ∀ inst ∈ func.insts, func.looksFor slot path inst = false

end Promises

/-! ## Reads and writes -/

section Reading

variable {setting : Setting} {func : Function} {start state : State} {load : Nat}

/-- Memory is what the writes have made of it. -/
theorem Runs.memory_eq (runs : Runs setting func start state) :
    state.memory = replay start.memory (state.history.flatMap (·.action.writes)) := by
  induction runs with
  | start fresh => rw [fresh]; rfl
  | step _ runs _ _ _ ih =>
      simp only [State.after, List.flatMap_append, List.flatMap_singleton, replay_append, ih]

/-- Every execution is a step from the run before it. -/
theorem Runs.before (runs : Runs setting func start state) {before after : List Event}
    {event : Event} (split : state.history = before ++ event :: after) :
    ∃ earlier inst, Runs setting func start earlier ∧ earlier.history = before ∧
      setting.next earlier event.index ∧ func.insts[event.index]? = some inst ∧
      Does setting earlier event.index inst event.action := by
  induction runs generalizing after with
  | start fresh => simp [fresh] at split
  | @step earlier index inst action runs next found does ih =>
      rcases List.eq_nil_or_concat after with rfl | ⟨rest, last, rfl⟩
      · obtain ⟨same, last⟩ := List.append_inj' split rfl
        obtain rfl := List.singleton_injective last
        exact ⟨earlier, inst, runs, same, next, found, does⟩
      · have shifted : earlier.history ++ [⟨index, action⟩] =
            (before ++ event :: rest) ++ [last] := by simpa [State.after] using split
        exact ih (List.append_inj' shifted rfl).1

/-- Without what the pass looks for, all writes are left. -/
theorem Checked.unseenWrites_eq (checked : Checked func load) (history : List Event) :
    func.unseenWrites load history = history.flatMap (·.action.writes) := by
  obtain ⟨slot, path, field, none_seen⟩ := checked
  unfold Function.unseenWrites
  congr 1
  refine List.filter_eq_self.mpr fun event _ => ?_
  rw [field]
  cases found : func.insts[event.index]? with
  | none => rfl
  | some inst => simp [none_seen inst (List.mem_of_getElem? found)]

/-- An execution that reads is one of a load, which reads what memory holds. -/
theorem Does.read_spec {index : Nat} {inst : Inst} {action : Action} {read : Read}
    (does : Does setting state index inst action) (reads : action.read = some read) :
    (∀ content, state.memory.cell read.address read.bytes.length = some content →
      read.bytes = content) ∧
    (state.memory.cell read.address read.bytes.length = none → ∃ other,
      Does setting state index inst other ∧
        other.read = some ⟨read.address, List.replicate read.bytes.length 0⟩) := by
  cases does with
  | alloca => cases reads
  | gep => cases reads
  | store => cases reads
  | outside => cases reads
  | @load type pointer bytes sized held =>
      obtain rfl := Option.some.inj reads
      simp only [sized]
      refine ⟨held, fun undefined => ?_⟩
      refine ⟨⟨ofBytes (List.replicate (setting.size type) 0), [], some
        ⟨state.value setting pointer, List.replicate (setting.size type) 0⟩⟩, ?_, rfl⟩
      refine .load _ List.length_replicate fun content defined => ?_
      rw [undefined] at defined
      cases defined

theorem isNull_replicate (size : Nat) : IsNull (List.replicate size 0) :=
  fun _ member => List.eq_of_mem_replicate member

/-- What is left for an execution of a load is what it reads, or is undefined; then the load may
have read null. -/
theorem Runs.leaves (checked : Checked func load) (runs : Runs setting func start state)
    {before after : List Event} {event : Event} {address : Nat} {bytes : List UInt8}
    (split : state.history = before ++ event :: after) (same : event.index = load)
    (reads : event.action.read = some ⟨address, bytes⟩) :
    let content := (replay start.memory (func.unseenWrites load before)).cell address bytes.length
    (∀ left, content = some left → bytes = left) ∧
      (content = none → ∃ other null, Runs setting func start other ∧ other.Reads load null ∧
        IsNull null) := by
  obtain ⟨earlier, inst, runs, rfl, next, found, does⟩ := runs.before split
  rw [checked.unseenWrites_eq, ← runs.memory_eq]
  obtain ⟨held, free⟩ := does.read_spec reads
  refine ⟨held, fun undefined => ?_⟩
  obtain ⟨other, does, read⟩ := free undefined
  refine ⟨earlier.after event.index other, _, .step _ runs next found does, ?_,
    isNull_replicate bytes.length⟩
  exact ⟨⟨event.index, other⟩, List.mem_append_right _ List.mem_cons_self, same, address, read⟩

end Reading

/-! ## Marks -/

section Marks

variable {func other : Function} {load : Nat}

/-- The functions have the same instructions, but some atomic operations are split. -/
def Resembles (func other : Function) : Prop :=
  List.Forall₂ (fun inst changed => changed = inst ∨ changed = inst.split) func.insts other.insts

theorem resembles_eliminateBatchRefcount (func : Function) :
    Resembles func (eliminateBatchRefcount func).1 := by
  have changed (block : List Inst) (change : Nat → Inst → Inst)
      (keeps : ∀ position inst, change position inst = inst ∨ change position inst = inst.split) :
      List.Forall₂ (fun inst changed => changed = inst ∨ changed = inst.split) block
        (block.mapIdx change) := by
    induction block generalizing change with
    | nil => exact .nil
    | cons inst rest ih =>
        rw [List.mapIdx_cons]
        exact .cons (keeps 0 inst) (ih _ fun position => keeps (position + 1))
  unfold Resembles Function.insts eliminateBatchRefcount
  induction func.blocks with
  | nil => exact .nil
  | cons block rest ih =>
      refine List.rel_append (changed block _ fun position inst => ?_) ih
      split
      · exact .inr rfl
      · exact .inl rfl

theorem Resembles.getElem? (resembles : Resembles func other) (index : Nat) :
    (func.insts[index]? = none ∧ other.insts[index]? = none) ∨
      ∃ inst changed, func.insts[index]? = some inst ∧ other.insts[index]? = some changed ∧
        (changed = inst ∨ changed = inst.split) := by
  unfold Resembles at resembles
  generalize func.insts = insts at resembles ⊢
  generalize other.insts = changes at resembles ⊢
  induction resembles generalizing index with
  | nil => exact .inl ⟨rfl, rfl⟩
  | cons changed rest ih =>
      cases index with
      | zero => exact .inr ⟨_, _, rfl, rfl, changed⟩
      | succ index => exact ih index

theorem Resembles.isFieldOf (resembles : Resembles func other) (slot : Nat) (path : List Nat)
    (value : Operand) : other.isFieldOf slot path value = func.isFieldOf slot path value := by
  cases value with
  | inst index =>
      rcases resembles.getElem? index with ⟨old, new⟩ | ⟨inst, changed, old, new, rfl | rfl⟩
      · simp only [Function.isFieldOf, old, new]
      · simp only [Function.isFieldOf, old, new]
      · simp only [Function.isFieldOf, old, new]
        cases inst <;> rfl
  | _ => rfl

theorem Resembles.slotType (resembles : Resembles func other) (slot : Nat) :
    other.slotType slot = func.slotType slot := by
  rcases resembles.getElem? slot with ⟨old, new⟩ | ⟨inst, changed, old, new, rfl | rfl⟩
  · simp only [Function.slotType, old, new]
  · simp only [Function.slotType, old, new]
  · simp only [Function.slotType, old, new]
    cases inst <;> rfl

theorem Resembles.fieldOf (resembles : Resembles func other) (load : Nat) :
    other.fieldOf load = func.fieldOf load := by
  unfold Function.fieldOf
  simp only [resembles.slotType]
  have through (index : Nat) : func.insts[index]? = other.insts[index]? ∨
      ∃ inst : Inst, func.insts[index]? = some inst ∧ other.insts[index]? = some inst.split := by
    rcases resembles.getElem? index with ⟨old, new⟩ | ⟨inst, changed, old, new, rfl | rfl⟩
    · exact .inl (old.trans new.symm)
    · exact .inl (old.trans new.symm)
    · exact .inr ⟨inst, old, new⟩
  rcases through load with same | ⟨inst, old, new⟩
  · rw [same]
    split
    · rename_i index _
      rcases through index with same | ⟨inst, old, new⟩
      · rw [same]
      · rw [old, new]
        cases inst <;> rfl
    · rfl
  · rw [old, new]
    cases inst with
    | load type pointer =>
        cases pointer with
        | inst index =>
            rcases through index with same | ⟨inst, old, new⟩
            · simp only [Inst.split, same]
            · simp only [Inst.split, old, new]
              cases inst <;> rfl
        | _ => rfl
    | _ => rfl

theorem Inst.escapes_split (inst : Inst) (value : Operand) :
    inst.split.escapes value = inst.escapes value := by
  cases inst <;> rfl

theorem Checked.resembles (checked : Checked func load) (resembles : Resembles func other) :
    Checked other load := by
  obtain ⟨slot, path, field, none_seen⟩ := checked
  refine ⟨slot, path, (resembles.fieldOf load).trans field, fun changed member => ?_⟩
  obtain ⟨index, found⟩ := List.mem_iff_getElem?.mp member
  have same (inst : Inst) : other.looksFor slot path inst = func.looksFor slot path inst := by
    unfold Function.looksFor Function.storesTo
    cases inst <;> simp only [resembles.isFieldOf]
  rcases resembles.getElem? index with ⟨-, new⟩ | ⟨inst, found', old, new, same'⟩
  · simp [new] at found
  obtain rfl := Option.some.inj (found.symm.trans new)
  have unseen := none_seen inst (List.mem_of_getElem? old)
  rw [same]
  rcases same' with rfl | rfl
  · exact unseen
  · cases inst <;> exact unseen

/-- What is marked is a load from a field of a local that passes the checks. -/
theorem checked_of_mem_markedLoads {slot : Nat} {sty : Ty}
    (allocated : func.slotType slot = some sty) (marked : load ∈ markedLoads func slot sty) : Checked func load := by
  unfold markedLoads at marked
  split at marked
  · cases marked
  rename_i path inner
  split at marked
  · cases marked
  rename_i passes
  simp only [Bool.or_eq_true, not_or, Bool.not_eq_true] at passes
  obtain ⟨noStore, noEscape⟩ := passes
  obtain ⟨-, loads⟩ := List.mem_filter.mp marked
  refine ⟨slot, path, ?_, fun inst member => ?_⟩
  · unfold Function.fieldOf
    split at loads
    · rename_i pointer found
      unfold Function.isFieldOf at loads
      rw [found]
      split at loads
      · split at loads
        · rename_i based
          simp only [Bool.and_eq_true, decide_eq_true_eq] at loads
          obtain ⟨rfl, -⟩ := loads
          simp [based, allocated, inner]
        · cases loads
      · cases loads
    · cases loads
  · unfold Function.looksFor
    rw [Bool.or_eq_false_iff]
    constructor
    · have := List.any_eq_false.mp noStore inst member
      simp only [Bool.or_eq_true, not_or, Bool.not_eq_true] at this
      exact this.1
    · simpa using List.any_eq_false.mp noEscape inst member

theorem slotType_of_mem_candidates {isBacked : Function → Nat → Name → Bool} {pattern : Name}
    {funcName : Option Name} {slot : Nat} {sty : Ty}
    (candidate : (slot, sty) ∈ candidates isBacked pattern funcName func) :
    func.slotType slot = some sty := by
  obtain ⟨index, -, found⟩ := List.mem_filterMap.mp candidate
  obtain ⟨type, allocated, kept⟩ := Option.bind_eq_some_iff.mp found
  split at kept
  · obtain ⟨rfl, rfl⟩ := Prod.mk.inj (Option.some.inj kept)
    exact allocated
  · cases kept

/-- Every marked load has passed the checks. -/
def Progress.AllChecked (progress : Progress) : Prop :=
  ∀ id load, (id, .load load) ∈ progress.marks → Checked (progress.module.function id) load

variable {symbols : SymbolTable} {matched : List (Name × FunctionId)}

theorem Progress.AllChecked.share {progress : Progress} (checked : progress.AllChecked)
    (id : FunctionId) : (progress.share symbols matched id).AllChecked := by
  have changed : (progress.share symbols matched id).module.function =
      Function.update progress.module.function id
        (eliminateBatchRefcount (progress.module.function id)).1 := rfl
  intro other load marked
  rw [changed]
  rcases List.mem_append.mp marked with marked | marked
  · by_cases same : other = id
    · rw [same, Function.update_self]
      exact (checked id load (same ▸ marked)).resembles (resembles_eliminateBatchRefcount _)
    · rw [Function.update_of_ne same]
      exact checked other load marked
  · obtain ⟨⟨slot, sty⟩, candidate, marked⟩ := List.mem_flatMap.mp marked
    obtain ⟨index, found, same⟩ := List.mem_map.mp marked
    obtain ⟨rfl, loads⟩ := Prod.mk.inj same
    obtain rfl := Mark.load.inj loads
    rw [Function.update_self]
    exact checked_of_mem_markedLoads
      (slotType_of_mem_candidates (List.mem_of_mem_filter candidate)) found

theorem Progress.AllChecked.optimizeSharedPtr {progress : Progress} (checked : progress.AllChecked)
    (mapping : SymbolMapping) (allowed : Option (List FunctionId)) :
    (optimizeSharedPtr symbols mapping matched allowed progress).AllChecked := by
  refine List.foldlRecOn (motive := Progress.AllChecked) _ _ checked fun progress checked lb _ => ?_
  split
  · refine List.foldlRecOn (motive := Progress.AllChecked) _ _ checked
      fun progress checked calledFn _ => ?_
    split
    · exact checked.share _
    · exact checked
  · exact checked

def handle : Ty := .struct (some "class.std::unique_ptr".toList) [.pointer]

/-- A parameter is stored to a local, and a loop reads the local and resets it, by stores to the
local itself. -/
def resetting : Function where
  name := "drain".toList
  isDeclaration := false
  params := [⟨true, false, false⟩]
  blocks :=
    [[.alloca handle,
      .store .pointer (.param 0) (.inst 0),
      .gep handle (.inst 0) [.constant 0, .constant 0]],
     [.load .pointer (.inst 2),
      .store .pointer (.constant 0) (.inst 0)]]

end Marks

end Indirection
end TopoLlvm
