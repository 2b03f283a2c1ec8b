import TopoLlvm.Transforms.ReturnSpecialization

/-!
# What specialization leaves of a run

A rewritten function runs along with the original one.  The two differ in the bytes that a rewritten
store wrote last and in the fields that a rewritten `insertvalue` inserted.  Where no step of the
original run looks at these, calls, demanded fields and memory outside of the undemanded fields are
the same.
-/

namespace TopoLlvm
namespace ReturnSpecialization

/-! ## Values that differ in some fields -/

/-- The values are the same, but for some fields of an aggregate. -/
inductive Alike (soiled : List Nat) : Value → Value → Prop where
  | same (value : Value) : Alike soiled value value
  | fields {fields others : List Value} (length : fields.length = others.length)
      (clean : ∀ index, index ∉ soiled → fields[index]? = others[index]?) :
      Alike soiled (.aggregate fields) (.aggregate others)

namespace Alike

variable {soiled wider : List Nat} {value other : Value}

theorem eq (alike : Alike [] value other) : value = other := by
  cases alike with
  | same => rfl
  | fields _ clean => rw [List.ext_getElem? fun index => clean index List.not_mem_nil]

theorem mono (alike : Alike soiled value other) (subset : soiled ⊆ wider) :
    Alike wider value other := by
  cases alike with
  | same => exact .same _
  | fields length clean => exact .fields length fun index free => clean index (free ∘ @subset index)

/-- The same value inserted at one place. -/
theorem insert (alike : Alike soiled value other) (new : Value) (path : List Nat) :
    Alike soiled (.insert new path value) (.insert new path other) := by
  cases alike with
  | same => exact .same _
  | fields length clean =>
      cases path with
      | nil => exact .same _
      | cons field path =>
          rw [Value.insert, Value.insert]
          refine .fields (by simp [length]) fun index free => ?_
          rw [List.getElem?_modify, List.getElem?_modify, clean index free]

/-- A field that is inserted as a whole is the same afterwards. -/
theorem insert_field (alike : Alike soiled value other) (new : Value) (field : Nat) :
    Alike (soiled.filter (· ≠ field)) (.insert new [field] value) (.insert new [field] other) := by
  cases alike with
  | same => exact .same _
  | @fields fields others length clean =>
      rw [Value.insert, Value.insert]
      refine .fields (by simp [length]) fun index free => ?_
      rw [List.getElem?_modify, List.getElem?_modify]
      by_cases here : field = index
      · subst here
        simp only [Value.insert]
        rcases Nat.lt_or_ge field fields.length with inside | outside
        · rw [List.getElem?_eq_getElem inside, List.getElem?_eq_getElem (length ▸ inside)]
          simp
        · rw [List.getElem?_eq_none outside, List.getElem?_eq_none (length ▸ outside)]
      · rw [clean index fun member => free (List.mem_filter.mpr ⟨member, by simpa using Ne.symm here⟩)]

/-- Whatever is inserted into a field, the others are as before. -/
theorem insert_soiled (alike : Alike soiled value other) (new dead : Value) (field : Nat) :
    Alike (field :: soiled) (.insert new [field] value) (.insert dead [field] other) := by
  have into {fields others : List Value} (length : fields.length = others.length)
      (clean : ∀ index, index ∉ soiled → fields[index]? = others[index]?) :
      Alike (field :: soiled) (.insert new [field] (.aggregate fields))
        (.insert dead [field] (.aggregate others)) := by
    rw [Value.insert, Value.insert]
    refine .fields (by simp [length]) fun index free => ?_
    rw [List.mem_cons, not_or] at free
    rw [List.getElem?_modify, List.getElem?_modify, clean index free.2]
    simp [Ne.symm free.1]
  cases alike with
  | same value =>
      cases value with
      | word bits => exact .same _
      | aggregate fields => exact into rfl fun _ _ => rfl
  | fields length clean => exact into length clean

theorem extract (alike : Alike soiled value other) (path : List Nat)
    (unread : ∀ field ∈ path.take 1, field ∉ soiled) (nonempty : path ≠ []) :
    Value.extract path value = .extract path other := by
  cases alike with
  | same => rfl
  | fields _ clean =>
      obtain ⟨field, path, rfl⟩ := List.exists_cons_of_ne_nil nonempty
      rw [Value.extract, Value.extract, List.getD_eq_getElem?_getD, List.getD_eq_getElem?_getD,
        clean field (unread field List.mem_cons_self)]

end Alike

/-! ## The rewritten instructions -/

namespace Function

variable {func : Function} {demand : Option (Finset Nat)} {index : Nat}

theorem store_of_mem_collectStoresFromGEP {fuel : Nat} {value : Operand}
    (member : index ∈ func.collectStoresFromGEP fuel value) :
    ∃ type stored pointer, func.insts[index]? = some (.store type stored pointer) := by
  induction fuel generalizing value with
  | zero => cases member
  | succ fuel ih =>
      obtain ⟨user, -, inside⟩ := List.mem_flatMap.mp member
      split at inside
      · rename_i type stored pointer here
        split at inside
        · exact ⟨type, stored, pointer, List.mem_singleton.mp inside ▸ here⟩
        · cases inside
      · exact ih inside
      · cases inside

theorem store_of_mem_collectFieldStores {field : Nat}
    (member : index ∈ func.collectFieldStores field) :
    ∃ type stored pointer, func.insts[index]? = some (.store type stored pointer) := by
  obtain ⟨user, -, inside⟩ := List.mem_flatMap.mp member
  split at inside
  · split at inside
    · exact store_of_mem_collectStoresFromGEP inside
    · cases inside
  · cases inside

theorem insert_of_mem_insertsOf {field fuel : Nat} {current : Operand}
    (member : index ∈ func.insertsOf field fuel current) :
    ∃ aggregate value, func.insts[index]? = some (.insertValue aggregate value [field]) := by
  induction fuel generalizing current with
  | zero => cases member
  | succ fuel ih =>
      cases current with
      | inst here =>
          rw [insertsOf] at member
          split at member
          · rename_i aggregate value indices inst
            rcases List.mem_append.mp member with first | later
            · split at first
              · rename_i same
                rw [List.mem_singleton.mp first, inst, same]
                exact ⟨aggregate, value, rfl⟩
              · cases first
            · exact ih later
          · cases member
      | arg _ => cases member
      | constant _ => cases member
      | global _ => cases member
      | undef => cases member

theorem insert_of_mem_collectInsertValueStores {field : Nat}
    (member : index ∈ func.collectInsertValueStores field) :
    ∃ aggregate value, func.insts[index]? = some (.insertValue aggregate value [field]) := by
  obtain ⟨inst, -, inside⟩ := List.mem_flatMap.mp member
  split at inside
  · exact insert_of_mem_insertsOf inside
  · cases inside

/-- What is rewritten is a store, or the insertion of an undemanded field. -/
theorem store_or_insert_of_mem_deadInsts (member : index ∈ func.deadInsts demand) :
    (∃ type stored pointer, func.insts[index]? = some (.store type stored pointer)) ∨
      ∃ aggregate value field, func.insts[index]? = some (.insertValue aggregate value [field]) ∧
        field ∈ func.deadFields demand := by
  obtain ⟨field, dead, inside⟩ := List.mem_flatMap.mp member
  split at inside
  · exact .inl (store_of_mem_collectFieldStores inside)
  · obtain ⟨aggregate, value, inst⟩ := insert_of_mem_collectInsertValueStores inside
    exact .inr ⟨aggregate, value, field, inst, dead⟩

theorem insts_run : (func.run demand).insts[index]? = (func.insts[index]?).map fun inst =>
    if (func.deadInsts demand).contains index then inst.setUndef else inst := by
  simp [run]

theorem isPhi_run {Result : Type} (found : List (Nat × Operand) → Result) (none : Result) :
    (match (func.run demand).insts[index]? with
      | some (.phi incoming) => found incoming
      | _ => none) =
    match func.insts[index]? with
      | some (.phi incoming) => found incoming
      | _ => none := by
  rw [insts_run]
  cases func.insts[index]? with
  | none => rfl
  | some inst =>
      cases dead : (func.deadInsts demand).contains index with
      | false => rw [Option.map_some, if_neg Bool.false_ne_true]
      | true =>
          rw [Option.map_some, if_pos rfl]
          cases inst <;> rfl

theorem phisAt_run (target : Nat) : (func.run demand).phisAt target = func.phisAt target := by
  have length : (func.run demand).insts.length = func.insts.length := by simp [run]
  unfold phisAt
  rw [length]
  congr 1
  funext index
  exact isPhi_run (fun _ => true) false

theorem phiSource_run (index source : Nat) :
    (func.run demand).phiSource index source = func.phiSource index source :=
  isPhi_run (fun incoming => (incoming.lookup source).getD .undef) .undef

end Function

/-! ## Soiled bytes and fields -/

/-- What a run of the rewritten function may see differently: the bytes that a rewritten store wrote
last, and fields of the values of instructions. -/
structure Taint where
  bytes : List Nat
  fields : Nat → List Nat

namespace Taint

variable (taint : Taint)

def of : Operand → List Nat
  | .inst index => taint.fields index
  | _ => []

def Clean (operands : List Operand) : Prop := ∀ operand ∈ operands, taint.of operand = []

/-- The instruction has a new value. -/
def give (index : Nat) (soiled : List Nat) : Taint :=
  { taint with fields := Function.update taint.fields index soiled }

/-- Bytes have been written. -/
def write (written : List Nat) (soils : Bool) : Taint :=
  { taint with
    bytes := taint.bytes.filter (· ∉ written) ++ if soils then written else [] }

def jump (func : Function) (source target : Nat) : Taint :=
  { taint with
    fields := fun index =>
      if index ∈ func.phisAt target then taint.of (func.phiSource index source)
      else taint.fields index }

end Taint

/-- The addresses of an object. -/
def range (address size : Nat) : List Nat := (List.range size).map (address + ·)

theorem mem_range {address size other : Nat} :
    other ∈ range address size ↔ address ≤ other ∧ other < address + size := by
  rw [range, List.mem_map]
  constructor
  · rintro ⟨offset, inside, rfl⟩
    have := List.mem_range.mp inside
    omega
  · rintro ⟨first, last⟩
    exact ⟨other - address, List.mem_range.mpr (by omega), by omega⟩

section Runs

variable (setting : Setting) (func : Function) (args : List Value) (demand : Option (Finset Nat))

/-- The bytes of the undemanded fields of the result that the caller has allocated. -/
def spareBytes : List Nat :=
  if func.hasStructRet then
    (func.deadFields demand).flatMap fun field =>
      match func.fields.bind fun fields => fields[field]? with
      | some place => range ((args.getD 0 (.word 0)).address + place.offset) place.size
      | none => []
  else []

/-- The bytes that a store writes. -/
def storeRange (state : State) (type : Nat) (pointer : Operand) : List Nat :=
  range (state.eval setting args 1 pointer).address (setting.size type)

/-- The store writes something that the rewritten function does not know. -/
def soils (taint : Taint) (point : Nat) (value : Operand) : Bool :=
  (func.deadInsts demand).contains point || !(taint.of value).isEmpty

/-- What is soiled after a call. -/
def Taint.called (taint : Taint) (state : State) (callee : Operand) (operands : List Operand) :
    Taint :=
  let outcome := state.outcome setting args callee operands
  (taint.write (range outcome.address outcome.bytes.length) false).give state.point []

/-- What is soiled after an instruction of the original function. -/
def Taint.after (taint : Taint) (state : State) : Inst → Taint
  | .store type value pointer =>
      taint.write (storeRange setting args state type pointer)
        (soils func demand taint state.point value)
  | .insertValue aggregate _ [field] =>
      taint.give state.point
        (if (func.deadInsts demand).contains state.point then field :: taint.of aggregate
        else (taint.of aggregate).filter (· ≠ field))
  | .insertValue aggregate _ _ => taint.give state.point (taint.of aggregate)
  | .extractValue aggregate [] => taint.give state.point (taint.of aggregate)
  | .load .. | .gep .. | .extractValue .. | .other .. => taint.give state.point []
  | .call callee operands => taint.called setting args state callee operands
  | .invoke callee operands normalDest unwindDest =>
      (taint.called setting args state callee operands).jump func state.point
        (if (state.outcome setting args callee operands).unwinds then unwindDest else normalDest)
  | .br target => taint.jump func state.point target
  | .switch condition targets =>
      taint.jump func state.point (setting.choose (state.eval setting args 0 condition) targets)
  | .phi _ | .ret _ | .resume _ => taint

/-- The instruction looks at nothing that is soiled, and soils undemanded fields only. -/
def Unobserved (taint : Taint) (state : State) : Inst → Prop
  | .store type value pointer =>
      taint.Clean [pointer] ∧ (soils func demand taint state.point value = true →
        storeRange setting args state type pointer ⊆ spareBytes func args demand)
  | .load type pointer =>
      taint.Clean [pointer] ∧
        ∀ address ∈ range (state.eval setting args 0 pointer).address (setting.size type),
          address ∉ taint.bytes
  | .gep _ base indices => taint.Clean (base :: indices)
  | .insertValue _ value _ =>
      (func.deadInsts demand).contains state.point = true ∨ taint.Clean [value]
  | .extractValue aggregate indices => ∀ field ∈ indices.take 1, field ∉ taint.of aggregate
  | .call callee operands | .invoke callee operands _ _ =>
      taint.Clean (callee :: operands) ∧
        ∀ address ∈ setting.reads state.calls (state.eval setting args 0 callee)
          (state.evalAll setting args 1 operands), address ∉ taint.bytes
  | .other _ operands => taint.Clean operands
  | .switch condition _ => taint.Clean [condition]
  | .resume value => taint.Clean [value]
  | .br _ | .phi _ | .ret _ => True

instance (operands : List Operand) (taint : Taint) : Decidable (taint.Clean operands) :=
  inferInstanceAs (Decidable (∀ operand ∈ operands, taint.of operand = []))

instance (taint : Taint) (state : State) :
    (inst : Inst) → Decidable (Unobserved setting func args demand taint state inst)
  | .store type value pointer =>
      inferInstanceAs (Decidable (taint.Clean [pointer] ∧
        (soils func demand taint state.point value = true →
          ∀ address ∈ storeRange setting args state type pointer,
            address ∈ spareBytes func args demand)))
  | .load .. | .call .. | .invoke .. => inferInstanceAs (Decidable (_ ∧ ∀ address ∈ _, _))
  | .insertValue .. => inferInstanceAs (Decidable (_ ∨ _))
  | .extractValue .. => inferInstanceAs (Decidable (∀ field ∈ List.take 1 _, _))
  | .gep .. | .other .. | .switch .. | .resume .. => inferInstanceAs (Decidable (Taint.Clean _ _))
  | .br _ | .phi _ | .ret _ => inferInstanceAs (Decidable True)

/-- Exits that differ in undemanded fields only. -/
inductive ExitAlike (soiled : List Nat) : Exit → Exit → Prop where
  | running : ExitAlike soiled .running .running
  | void : ExitAlike soiled (.returned none) (.returned none)
  | returned {value other : Value} (alike : Alike soiled value other) :
      ExitAlike soiled (.returned (some value)) (.returned (some other))
  | unwound (value : Value) : ExitAlike soiled (.unwound value) (.unwound value)

theorem ExitAlike.eq_running {soiled : List Nat} {exit : Exit}
    (alike : ExitAlike soiled .running exit) : exit = .running := by
  cases alike
  rfl

/-- The states of a run and of the rewritten one. -/
structure Agree (taint : Taint) (state other : State) : Prop where
  values : ∀ index, Alike (taint.fields index) (state.values index) (other.values index)
  memory : ∀ address, address ∉ taint.bytes → state.memory address = other.memory address
  point : state.point = other.point
  clock : state.clock = other.clock
  calls : state.calls = other.calls
  exit : ExitAlike (func.deadFields demand) state.exit other.exit
  deadFields : ∀ index, taint.fields index ⊆ func.deadFields demand
  spareBytes : taint.bytes ⊆ spareBytes func args demand

variable {setting func args demand} {taint : Taint} {state other : State}

namespace Memory

variable {memory after : Memory} {address place : Nat} {bytes : List UInt8}

theorem write_outside (outside : place ∉ range address bytes.length) :
    memory.write address bytes place = memory place := by
  rw [mem_range, not_and, Nat.not_lt] at outside
  unfold write
  split
  · rename_i below
    rw [List.getElem?_eq_none (by have := outside below; omega)]
    rfl
  · rfl

theorem write_inside (inside : place ∈ range address bytes.length) :
    memory.write address bytes place = after.write address bytes place := by
  obtain ⟨below, above⟩ := mem_range.mp inside
  unfold write
  rw [if_pos below, if_pos below, List.getElem?_eq_getElem (by omega)]
  rfl

end Memory

namespace Agree

theorem of_subset (agree : Agree func args demand taint state other) (operand : Operand) :
    taint.of operand ⊆ func.deadFields demand := by
  cases operand with
  | inst index => exact agree.deadFields index
  | arg _ => exact List.nil_subset _
  | constant _ => exact List.nil_subset _
  | global _ => exact List.nil_subset _
  | undef => exact List.nil_subset _

theorem eval (setting : Setting) (agree : Agree func args demand taint state other) (position : Nat)
    (operand : Operand) :
    Alike (taint.of operand) (state.eval setting args position operand)
      (other.eval setting args position operand) := by
  cases operand with
  | inst index => exact agree.values index
  | arg _ => exact .same _
  | constant _ => exact .same _
  | global _ => exact .same _
  | undef =>
      rw [State.eval, State.eval, agree.clock]
      exact .same _

theorem eval_eq (setting : Setting) (agree : Agree func args demand taint state other) (position : Nat)
    {operand : Operand} {operands : List Operand} (clean : taint.Clean operands)
    (member : operand ∈ operands) :
    state.eval setting args position operand = other.eval setting args position operand :=
  (clean operand member ▸ agree.eval setting position operand).eq

theorem evalAll_eq (setting : Setting) (agree : Agree func args demand taint state other) (position : Nat)
    {operands all : List Operand} (clean : taint.Clean all) (subset : operands ⊆ all) :
    state.evalAll setting args position operands =
      other.evalAll setting args position operands := by
  refine List.ext_getElem (by simp [State.evalAll]) fun index inside _ => ?_
  simp only [State.evalAll, List.getElem_mapIdx]
  exact agree.eval_eq setting _ clean (subset (List.getElem_mem _))

theorem next (agree : Agree func args demand taint state other) :
    Agree func args demand taint state.next other.next where
  values := agree.values
  memory := agree.memory
  point := congrArg (· + 1) agree.point
  clock := congrArg (· + 1) agree.clock
  calls := agree.calls
  exit := agree.exit
  deadFields := agree.deadFields
  spareBytes := agree.spareBytes

/-- A value with some undemanded fields soiled. -/
theorem setValue (agree : Agree func args demand taint state other) {value new : Value}
    {soiled : List Nat} (alike : Alike soiled value new) (dead : soiled ⊆ func.deadFields demand) :
    Agree func args demand (taint.give state.point soiled)
      { state with values := Function.update state.values state.point value }
      { other with values := Function.update other.values other.point new } where
  values index := by
    rw [← agree.point, Taint.give]
    by_cases here : index = state.point
    · subst here
      simpa only [Function.update_self] using alike
    · simpa only [Function.update_of_ne here] using agree.values index
  memory := agree.memory
  point := agree.point
  clock := agree.clock
  calls := agree.calls
  exit := agree.exit
  deadFields index := by
    by_cases here : index = state.point
    · subst here
      simpa only [Taint.give, Function.update_self] using dead
    · simpa only [Taint.give, Function.update_of_ne here] using agree.deadFields index
  spareBytes := agree.spareBytes

theorem give (agree : Agree func args demand taint state other) {value new : Value}
    {soiled : List Nat} (alike : Alike soiled value new) (dead : soiled ⊆ func.deadFields demand) :
    Agree func args demand (taint.give state.point soiled) (state.give value) (other.give new) :=
  (agree.setValue alike dead).next

theorem give_same (agree : Agree func args demand taint state other) {value new : Value}
    (same : value = new) :
    Agree func args demand (taint.give state.point []) (state.give value) (other.give new) :=
  agree.give (same ▸ .same value) (List.nil_subset _)

/-- Bytes that are the same, or soil undemanded fields. -/
theorem write (agree : Agree func args demand taint state other) {address size : Nat}
    {bytes news : List UInt8} (length : bytes.length = size) (newLength : news.length = size)
    {soils : Bool} (same : soils = false → bytes = news)
    (spare : soils = true →
      range address size ⊆ ReturnSpecialization.spareBytes func args demand) :
    Agree func args demand (taint.write (range address size) soils)
      { state with memory := state.memory.write address bytes }
      { other with memory := other.memory.write address news } where
  values := agree.values
  memory place free := by
    rw [Taint.write, List.mem_append, not_or, List.mem_filter, not_and] at free
    change state.memory.write address bytes place = other.memory.write address news place
    by_cases inside : place ∈ range address size
    · cases soils with
      | true => exact absurd inside free.2
      | false =>
          rw [same rfl]
          exact Memory.write_inside (newLength ▸ inside)
    · have outside := fun member => free.1 member (by simpa using inside)
      rw [Memory.write_outside (length ▸ inside), Memory.write_outside (newLength ▸ inside)]
      exact agree.memory place outside
  point := agree.point
  clock := agree.clock
  calls := agree.calls
  exit := agree.exit
  deadFields := agree.deadFields
  spareBytes place member := by
    rcases List.mem_append.mp member with before | written
    · exact agree.spareBytes (List.mem_of_mem_filter before)
    · cases soils with
      | true => exact spare rfl written
      | false => cases written

theorem write_same (agree : Agree func args demand taint state other) (address : Nat)
    (bytes : List UInt8) :
    Agree func args demand (taint.write (range address bytes.length) false)
      { state with memory := state.memory.write address bytes }
      { other with memory := other.memory.write address bytes } :=
  agree.write rfl rfl (fun _ => rfl) (fun soils => absurd soils Bool.false_ne_true)

theorem jump (agree : Agree func args demand taint state other) (target : Nat) :
    Agree func args demand (taint.jump func state.point target)
      (state.jump setting func args target) (other.jump setting (func.run demand) args target) where
  values index := by
    simp only [State.jump, Taint.jump, Function.phisAt_run, Function.phiSource_run, ← agree.point]
    split
    · exact agree.eval setting index _
    · exact agree.values index
  memory := agree.memory
  point := by simp only [State.jump, Function.phisAt_run]
  clock := congrArg (· + 1) agree.clock
  calls := agree.calls
  exit := agree.exit
  deadFields index := by
    simp only [Taint.jump]
    split
    · exact agree.of_subset _
    · exact agree.deadFields index
  spareBytes := agree.spareBytes

/-- Calls that are given the same, and read the same, do the same. -/
theorem outcome_eq (agree : Agree func args demand taint state other) {callee : Operand}
    {operands : List Operand} (clean : taint.Clean (callee :: operands))
    (unread : ∀ address ∈ setting.reads state.calls (state.eval setting args 0 callee)
      (state.evalAll setting args 1 operands), address ∉ taint.bytes) :
    state.outcome setting args callee operands = other.outcome setting args callee operands := by
  unfold State.outcome
  rw [← agree.calls, ← agree.eval_eq setting 0 clean List.mem_cons_self,
    ← agree.evalAll_eq setting 1 clean (List.subset_cons_self _ _)]
  exact setting.call_frame _ _ _ _ _ fun address read => agree.memory address (unread address read)

theorem called (agree : Agree func args demand taint state other) {callee : Operand}
    {operands : List Operand} (clean : taint.Clean (callee :: operands))
    (unread : ∀ address ∈ setting.reads state.calls (state.eval setting args 0 callee)
      (state.evalAll setting args 1 operands), address ∉ taint.bytes) :
    Agree func args demand (taint.called setting args state callee operands)
      (state.called setting args callee operands) (other.called setting args callee operands) := by
  have same := agree.outcome_eq clean unread
  let outcome := state.outcome setting args callee operands
  have written := agree.write_same outcome.address outcome.bytes
  have valued := written.setValue (.same outcome.result) (List.nil_subset _)
  refine ⟨?_, ?_, agree.point, agree.clock, ?_, agree.exit, valued.deadFields, valued.spareBytes⟩
  · intro index
    simp only [State.called, ← same]
    exact valued.values index
  · intro address free
    simp only [State.called, ← same]
    exact valued.memory address free
  · simp only [State.called, same, agree.calls, agree.eval_eq setting 0 clean List.mem_cons_self,
      agree.evalAll_eq setting 1 clean (List.subset_cons_self _ _)]

/-- A store of a value that is the same, or that soils undemanded fields. -/
theorem storeOf (agree : Agree func args demand taint state other) {type : Nat}
    {value stored pointer : Operand}
    (unobserved : Unobserved setting func args demand taint state (.store type value pointer))
    (same : soils func demand taint state.point value = false →
      state.eval setting args 0 value = other.eval setting args 0 stored) :
    Agree func args demand (taint.after setting func args demand state (.store type value pointer))
      (state.perform setting func args (.store type value pointer))
      (other.perform setting (func.run demand) args (.store type stored pointer)) := by
  obtain ⟨clean, spare⟩ := unobserved
  have target := agree.eval_eq setting 1 clean List.mem_cons_self
  simp only [State.perform, Taint.after, storeRange, ← target]
  exact (agree.write (setting.length_encode type _) (setting.length_encode type _)
    (fun kept => congrArg (setting.encode type) (same kept)) spare).next

theorem store (agree : Agree func args demand taint state other) {type : Nat}
    {value pointer : Operand}
    (unobserved : Unobserved setting func args demand taint state (.store type value pointer)) :
    Agree func args demand (taint.after setting func args demand state (.store type value pointer))
      (state.perform setting func args (.store type value pointer))
      (other.perform setting (func.run demand) args
        (if (func.deadInsts demand).contains state.point then .store type .undef pointer
        else .store type value pointer)) := by
  cases dead : (func.deadInsts demand).contains state.point with
  | true =>
      refine agree.storeOf unobserved fun kept => ?_
      rw [soils, dead, Bool.true_or] at kept
      cases kept
  | false =>
      refine agree.storeOf unobserved fun kept => ?_
      rw [soils, dead, Bool.false_or, Bool.not_eq_false', List.isEmpty_iff] at kept
      exact (kept ▸ agree.eval setting 0 value).eq

theorem insertValue (agree : Agree func args demand taint state other)
    {aggregate value : Operand} {indices : List Nat}
    (here : func.insts[state.point]? = some (.insertValue aggregate value indices))
    (unobserved :
      Unobserved setting func args demand taint state (.insertValue aggregate value indices)) :
    Agree func args demand
      (taint.after setting func args demand state (.insertValue aggregate value indices))
      (state.perform setting func args (.insertValue aggregate value indices))
      (other.perform setting (func.run demand) args
        (if (func.deadInsts demand).contains state.point then .insertValue aggregate .undef indices
        else .insertValue aggregate value indices)) := by
  have base := agree.eval setting 0 aggregate
  have soiled := agree.of_subset aggregate
  cases dead : (func.deadInsts demand).contains state.point with
  | true =>
      rw [if_pos rfl]
      have member : state.point ∈ func.deadInsts demand := by simpa using dead
      rcases Function.store_or_insert_of_mem_deadInsts member with
        ⟨type, stored, pointer, store⟩ | ⟨_, _, field, insert, undemanded⟩
      · cases here.symm.trans store
      · cases here.symm.trans insert
        rw [Taint.after, dead, if_pos rfl]
        exact agree.give (base.insert_soiled _ _ field) (List.cons_subset.mpr ⟨undemanded, soiled⟩)
  | false =>
      rw [if_neg Bool.false_ne_true]
      have clean : taint.Clean [value] := unobserved.resolve_left (by simpa using dead)
      have inserted := agree.eval_eq setting 1 clean List.mem_cons_self
      simp only [State.perform, ← inserted]
      cases indices with
      | nil => exact agree.give (base.insert _ _) soiled
      | cons field path =>
          cases path with
          | nil =>
              rw [Taint.after, dead, if_neg Bool.false_ne_true]
              exact agree.give (base.insert_field _ field) fun index kept =>
                soiled (List.mem_of_mem_filter kept)
          | cons _ _ => exact agree.give (base.insert _ _) soiled

theorem branch (agree : Agree func args demand taint state other) {target otherTarget : Nat}
    (same : target = otherTarget) :
    Agree func args demand (taint.jump func state.point target)
      (state.jump setting func args target)
      (other.jump setting (func.run demand) args otherTarget) :=
  same ▸ agree.jump target

theorem setExit (agree : Agree func args demand taint state other) {exit otherExit : Exit}
    (alike : ExitAlike (func.deadFields demand) exit otherExit) :
    Agree func args demand taint { state with exit } { other with exit := otherExit } :=
  { agree with exit := alike }

/-- An instruction that looks at nothing soiled keeps the states in agreement. -/
theorem perform (agree : Agree func args demand taint state other) {inst : Inst}
    (here : func.insts[state.point]? = some inst)
    (unobserved : Unobserved setting func args demand taint state inst) :
    Agree func args demand (taint.after setting func args demand state inst)
      (state.perform setting func args inst)
      (other.perform setting (func.run demand) args
        (if (func.deadInsts demand).contains state.point then inst.setUndef else inst)) := by
  cases inst with
  | store type value pointer => exact agree.store unobserved
  | insertValue aggregate value indices => exact agree.insertValue here unobserved
  | load type pointer =>
      simp only [Inst.setUndef, ite_self]
      have target := agree.eval_eq setting 0 unobserved.1 List.mem_cons_self
      refine agree.give_same (congrArg (setting.decode type) (List.map_congr_left ?_))
      intro offset inside
      rw [← target]
      exact agree.memory _ (unobserved.2 _ (List.mem_map_of_mem inside))
  | gep source base indices =>
      simp only [Inst.setUndef, ite_self]
      refine agree.give_same ?_
      rw [agree.eval_eq setting 0 unobserved List.mem_cons_self,
        agree.evalAll_eq setting 1 unobserved (List.subset_cons_self _ _)]
  | extractValue aggregate indices =>
      simp only [Inst.setUndef, ite_self]
      cases indices with
      | nil => exact agree.give (agree.eval setting 0 aggregate) (agree.of_subset aggregate)
      | cons field path =>
          exact agree.give_same ((agree.eval setting 0 aggregate).extract _ unobserved
            (List.cons_ne_nil _ _))
  | call callee operands =>
      simp only [Inst.setUndef, ite_self]
      have called := agree.called unobserved.1 unobserved.2
      have same := agree.outcome_eq unobserved.1 unobserved.2
      simp only [State.perform, ← same]
      split
      · exact called.setExit (.unwound _)
      · exact called.next
  | invoke callee operands normalDest unwindDest =>
      simp only [Inst.setUndef, ite_self]
      have same := agree.outcome_eq unobserved.1 unobserved.2
      refine (agree.called unobserved.1 unobserved.2).branch ?_
      rw [same]
  | phi incoming =>
      simp only [Inst.setUndef, ite_self]
      exact agree.next
  | other opcode operands =>
      simp only [Inst.setUndef, ite_self]
      refine agree.give_same ?_
      rw [agree.clock, agree.evalAll_eq setting 0 unobserved (List.Subset.refl _)]
  | br target =>
      simp only [Inst.setUndef, ite_self]
      exact agree.jump target
  | switch condition targets =>
      simp only [Inst.setUndef, ite_self]
      refine agree.branch ?_
      rw [agree.eval_eq setting 0 unobserved List.mem_cons_self]
  | ret value =>
      simp only [Inst.setUndef, ite_self]
      cases value with
      | none => exact agree.setExit .void
      | some value =>
          exact agree.setExit (.returned ((agree.eval setting 0 value).mono (agree.of_subset value)))
  | resume value =>
      simp only [Inst.setUndef, ite_self]
      have same := agree.eval_eq setting 0 unobserved List.mem_cons_self
      simp only [State.perform, ← same]
      exact agree.setExit (.unwound _)

end Agree

/-! ## Runs -/

/-- The entry of an activation. -/
def start (memory : Memory) : State where
  values _ := .word 0
  memory
  point := 0
  clock := 0
  calls := []
  exit := .running

variable (setting func args demand)

def machine (memory : Memory) : Transition.Machine State Unit where
  initial state := state = start memory
  step state _ := state.step setting func args

/-- Runs of the original function, with what they soil. -/
def taintedMachine (memory : Memory) : Transition.Machine (State × Taint) Unit where
  initial tainted := tainted = (start memory, { bytes := [], fields := fun _ => [] })
  step tainted _ :=
    match func.insts[tainted.1.point]? with
    | none => none
    | some inst => (tainted.1.step setting func args).map fun after =>
        (after, tainted.2.after setting func args demand tainted.1 inst)

/-- The next step looks at nothing that is soiled. -/
def StepUnobserved (tainted : State × Taint) (_ : Unit) : Prop :=
  ∀ inst ∈ func.insts[tainted.1.point]?, Unobserved setting func args demand tainted.2 tainted.1 inst

instance (tainted : State × Taint) (label : Unit) :
    Decidable (StepUnobserved setting func args demand tainted label) :=
  match here : func.insts[tainted.1.point]? with
  | none => .isTrue fun inst found => by simp [here] at found
  | some inst =>
      decidable_of_iff (Unobserved setting func args demand tainted.2 tainted.1 inst)
        (by simp [StepUnobserved, here])

/-- The states are the same to a caller that demands some fields. -/
structure SameDemanded (state other : State) : Prop where
  clock : state.clock = other.clock
  calls : state.calls = other.calls
  memory : ∀ address, address ∉ spareBytes func args demand →
    state.memory address = other.memory address
  exit : ExitAlike (func.deadFields demand) state.exit other.exit

variable {setting func args demand}

theorem Agree.sameDemanded (agree : Agree func args demand taint state other) :
    SameDemanded func args demand state other where
  clock := agree.clock
  calls := agree.calls
  memory address free := agree.memory address fun soiled => free (agree.spareBytes soiled)
  exit := agree.exit

theorem Agree.step (agree : Agree func args demand taint state other) {initial : Memory}
    {tainted : State × Taint}
    (unobserved : StepUnobserved setting func args demand (state, taint) ())
    (step : (taintedMachine setting func args demand initial).step (state, taint) () =
      some tainted) :
    ∃ next, other.step setting (func.run demand) args = some next ∧
      Agree func args demand tainted.2 tainted.1 next := by
  simp only [taintedMachine] at step
  split at step
  · cases step
  · rename_i inst here
    obtain ⟨after, stepped, rfl⟩ := Option.map_eq_some_iff.mp step
    unfold State.step at stepped
    split at stepped
    · rename_i running
      rw [here, Option.map_some] at stepped
      cases stepped
      have goesOn : other.exit = .running := (running ▸ agree.exit).eq_running
      refine ⟨_, ?_, agree.perform here (unobserved inst here)⟩
      unfold State.step
      rw [goesOn, ← agree.point]
      simp only [Function.insts_run, here, Option.map_some]
    · cases stepped

/-- The runs with what they soil are the runs. -/
theorem reachable_iff_exists_taint {initial : Memory} :
    (machine setting func args initial).Reachable Transition.Machine.anyStep state ↔
      ∃ taint, (taintedMachine setting func args demand initial).Reachable
        Transition.Machine.anyStep (state, taint) := by
  constructor
  · intro reach
    induction reach with
    | start entry => exact ⟨_, .start (congrArg (·, _) entry)⟩
    | @next before after _ _ _ step ih =>
        obtain ⟨taint, reach⟩ := ih
        change before.step setting func args = some after at step
        cases here : func.insts[before.point]? with
        | none =>
            unfold State.step at step
            split at step
            · rw [here] at step
              cases step
            · cases step
        | some inst =>
            have stepped : (taintedMachine setting func args demand initial).step
                (before, taint) () =
                some (after, taint.after setting func args demand before inst) := by
              simp only [taintedMachine, here, step, Option.map_some]
            exact ⟨_, .next reach trivial stepped⟩
  · rintro ⟨taint, reach⟩
    generalize both : (state, taint) = tainted at reach
    induction reach generalizing state taint with
    | start entry => exact .start (congrArg Prod.fst (both.trans entry))
    | @next before _ _ _ _ step ih =>
        subst both
        have stepped : before.1.step setting func args = some state := by
          simp only [taintedMachine] at step
          split at step
          · cases step
          · obtain ⟨after, stepped, same⟩ := Option.map_eq_some_iff.mp step
            cases same
            exact stepped
        have stepped : (machine setting func args initial).step before.1 () = some state := stepped
        exact .next (ih before.2 rfl) trivial stepped

/-- A run that looks at nothing that is soiled goes the same way in the rewritten function: calls,
demanded fields and memory outside of the undemanded fields are the same. -/
theorem run_keeps_demanded (setting : Setting) (func : Function) (args : List Value)
    (demand : Option (Finset Nat)) (memory : Memory) {tainted : State × Taint}
    (reach : (taintedMachine setting func args demand memory).Reachable
      (StepUnobserved setting func args demand) tainted) :
    ∃ other, (machine setting (func.run demand) args memory).Reachable
        Transition.Machine.anyStep other ∧
      SameDemanded func args demand tainted.1 other := by
  suffices follows : ∃ other, (machine setting (func.run demand) args memory).Reachable
      Transition.Machine.anyStep other ∧ Agree func args demand tainted.2 tainted.1 other by
    obtain ⟨other, reached, agree⟩ := follows
    exact ⟨other, reached, agree.sameDemanded⟩
  induction reach with
  | start entry =>
      subst entry
      exact ⟨_, .start rfl, fun _ => .same _, fun _ _ => rfl, rfl, rfl, rfl, .running,
        fun _ => List.nil_subset _, List.nil_subset _⟩
  | next _ unobserved step ih =>
      obtain ⟨other, reached, agree⟩ := ih
      obtain ⟨next, stepped, agree⟩ := agree.step unobserved step
      have stepped : (machine setting (func.run demand) args memory).step other () = some next :=
        stepped
      exact ⟨next, .next reached trivial stepped, agree⟩

end Runs

/-! ## A field that is read back -/

/-- Objects of one byte; nothing is called. -/
def byteSetting : Setting where
  size _ := 1
  encode _ value := [UInt8.ofNat value.address]
  length_encode _ _ := rfl
  decode _ bytes := .word (bytes.headD 0).toNat
  gep _ base indices := .word (base.address + (indices.getLastD (.word 0)).address)
  globals _ := .word 0
  other _ _ _ := .word 0
  choose _ _ := 0
  call _ _ _ _ := { result := .word 0, unwinds := false, address := 0, bytes := [] }
  reads _ _ _ := []
  call_frame _ _ _ _ _ _ := rfl
  undefined _ _ := .word 255

/-- A function that returns two bytes through its first parameter. -/
def twoBytes (insts : List Inst) : Function where
  insts
  isDeclaration := false
  hasInternalLinkage := true
  hasUses := true
  hasStructRet := true
  fields := some [⟨0, 1⟩, ⟨1, 1⟩]

/-- `out.second = 7; out.first = out.second;`. -/
def readBack : Function := twoBytes
  [.gep 0 (.arg 0) [.constant 0, .constant 1], .store 0 (.constant 7) (.inst 0),
    .load 0 (.inst 0), .gep 0 (.arg 0) [.constant 0, .constant 0],
    .store 0 (.inst 2) (.inst 3), .ret none]

/-- `out.second = 7; out.first = 8;`. -/
def writeBoth : Function := twoBytes
  [.gep 0 (.arg 0) [.constant 0, .constant 1], .store 0 (.constant 7) (.inst 0),
    .gep 0 (.arg 0) [.constant 0, .constant 0], .store 0 (.constant 8) (.inst 2), .ret none]

def Exit.isRunning : Exit → Bool
  | .running => true
  | _ => false

/-- The run to the end, where the second field alone is soiled. -/
theorem writeBoth_keeps_demanded : ∃ tainted : State × Taint, ∃ other : State,
    tainted.1.exit.isRunning = false ∧ tainted.2.bytes = [1] ∧
      (machine byteSetting (writeBoth.run (some {0})) [.word 0] fun _ => 0).Reachable
        Transition.Machine.anyStep other ∧
      SameDemanded writeBoth [.word 0] (some {0}) tainted.1 other := by
  obtain ⟨tainted, reach, ended⟩ := Transition.Machine.exists_reachable
    ((taintedMachine byteSetting writeBoth [.word 0] (some {0}) fun _ => 0).restrict
      (StepUnobserved byteSetting writeBoth [.word 0] (some {0})))
    (fun tainted => tainted.1.exit.isRunning = false ∧ tainted.2.bytes = [1])
    (List.replicate 5 ()) rfl (by decide)
  obtain ⟨other, reached, same⟩ := run_keeps_demanded byteSetting writeBoth [.word 0] (some {0})
    (fun _ => 0) reach.of_restrict
  exact ⟨tainted, other, ended.1, ended.2, reached, same⟩

def finalMemory (func : Function) (steps : Nat) : Option UInt8 :=
  (((machine byteSetting func [.word 0] fun _ => 0).exec (start fun _ => 0)
    (List.replicate steps ())).map State.memory).map fun memory => memory 0

/-- Only the first field is demanded, and it changes. -/
theorem readBack_changes_demanded :
    finalMemory readBack 6 = some 7 ∧ finalMemory (readBack.run (some {0})) 6 = some 255 ∧
      0 ∉ spareBytes readBack [.word 0] (some {0}) := by
  decide

end ReturnSpecialization
end TopoLlvm
