import TopoLlvm.Transforms.ArenaPlan
import TopoLlvm.Transforms.HeapRuns

/-!
# Erased calls free what they claim

The pass erases a call if the walk from a converted allocation reaches its argument, and keeps all
others.  That is right in runs in which nothing but the allocation's pointers reaches the values
that the walk follows, and its pointers reach no other values: the walk looks neither at the other
operands of what it follows nor into the functions of the scope.
-/

namespace TopoLlvm
namespace LifetimeArena

variable {Fn : Type} [DecidableEq Fn]

/-- By the pass's own walk the parameter neither escapes nor is freed. -/
def Module.KeepsParam (module : Module Fn) (fn : Fn) (index : Nat) : Prop :=
  ∃ body order scopeFunctions visited, module.body fn = some body ∧
    module.escapesScope order scopeFunctions body (.param index) = .finished visited []

namespace Rewriting

variable (rewriting : Rewriting Fn)

/-- The object is returned by a converted allocation. -/
def Owns (object : Object Fn) : Prop :=
  ∃ fn site, rewriting.Converts fn site ∧ object.source = .site fn site

def OwnsValue (value : Value Fn) : Prop := ∃ object, value = .pointer object ∧ rewriting.Owns object

end Rewriting

namespace Event

variable (module : Module Fn) (rewriting : Rewriting Fn)

/-- What the walk takes for granted. -/
def AsFollowed : Event Fn → Prop
  /- A followed move takes pointers from followed operands only. -/
  | take fn index source value => value = .data ∨
      ∀ body, module.body fn = some body → ∀ site, rewriting.Converts fn site →
        body.Follows (.inst site) (.inst index) → body.Follows (.inst site) source
  /- No pointer of a converted allocation is stored through itself, and only followed pointers are
  stored to a slot that a followed value is stored to. -/
  | store fn value address object stored =>
      (address = value → ¬ rewriting.OwnsValue stored) ∧
        (stored = .data ∨ ∀ body, module.body fn = some body → ∀ site slot,
          rewriting.Converts fn site → body.Spills (.inst site) slot →
            object.source = .slot fn slot → body.Follows (.inst site) value)
  /- What an erased call frees is followed. -/
  | free fn index operands _ => ∀ body, module.body fn = some body → ∀ site,
      (fn, index, site) ∈ rewriting.erased → ∀ operand ∈ operands.head?,
        body.Follows (.inst site) operand
  /- Intrinsics neither return nor store pointers of converted allocations. -/
  | intrinsic _ _ results => ∀ value ∈ results, ¬ rewriting.OwnsValue value
  /- Such pointers are passed only to functions of the module that keep them. -/
  | call callee arguments => ∀ index value, arguments[index]? = some value →
      rewriting.OwnsValue value → module.KeepsParam callee index
  | expose arguments => ∀ value ∈ arguments, ¬ rewriting.OwnsValue value

/-- An erased call frees pointers of the one allocation that claims it, and a call that is kept
frees no pointer of a converted allocation. -/
def FreesRight : Event Fn → Prop
  | free fn index _ arguments =>
      (∀ site, (fn, index, site) ∈ rewriting.erased → rewriting.Converts fn site ∧
        (∀ other, (fn, index, other) ∈ rewriting.erased → other = site) ∧
          ∀ object, arguments.head? = some (.pointer object) → object.source = .site fn site) ∧
      (¬ rewriting.Erases fn index → ∀ value ∈ arguments, ¬ rewriting.OwnsValue value)
  | _ => True

end Event

/-! ## Inversions of the walk -/

namespace Body

variable {Fn : Type} {body : Body Fn} {index : Nat} {inst : Inst Fn}

theorem follows_inst {root : Operand} (reached : body.Follows root (.inst index))
    (there : body.insts[index]? = some inst) :
    root = .inst index ∨ inst.isMove = true ∨
      ∃ source slot, inst = .load source ∧ body.Spills root slot ∧
        body.SlotAddress slot source := by
  cases reached with
  | root => exact .inl rfl
  | move _ found move _ =>
      obtain rfl := Option.some.inj (there.symm.trans found)
      exact .inr (.inl move)
  | reload before store other strip reads load =>
      obtain rfl := Option.some.inj (there.symm.trans load)
      exact .inr (.inr ⟨_, _, rfl, ⟨_, _, _, before, store, other, strip⟩, reads⟩)

theorem slotAddress_inst {slot : Nat} (reached : body.SlotAddress slot (.inst index))
    (there : body.insts[index]? = some inst) :
    index = slot ∨ inst.isGep = true ∧ ∃ value ∈ inst.operands, body.SlotAddress slot value := by
  cases reached with
  | slot => exact .inl rfl
  | gep before found gep operand =>
      obtain rfl := Option.some.inj (there.symm.trans found)
      exact .inr ⟨gep, _, operand, before⟩

theorem isAlloca_of_slotOf {address : Operand} {slot : Nat}
    (strip : body.slotOf address = some slot) :
    body.isAlloca slot = true ∧ body.stripInBoundsOffsets address = .inst slot := by
  unfold slotOf at strip
  split at strip
  · rename_i index stripped
    split at strip
    · cases strip
      exact ⟨‹_›, stripped⟩
    · cases strip
  · cases strip

theorem isAlloca_iff (there : body.insts[index]? = some inst) :
    body.isAlloca index = inst.isAlloca := by
  rw [isAlloca, there]
  rfl

/-- What strips to a slot is the slot or an address computed from what does. -/
theorem stripOffsets_inst {fuel slot : Nat} (there : body.insts[index]? = some inst)
    (stripped : body.stripOffsets fuel (.inst index) = .inst slot) :
    index = slot ∨ (∃ base indices, inst = .gep true base indices ∧
        ∃ less, body.stripOffsets less base = .inst slot) ∨
      ∃ source, inst = .bitcast source ∧ ∃ less, body.stripOffsets less source = .inst slot := by
  cases fuel with
  | zero =>
      cases stripped
      exact .inl rfl
  | succ fuel =>
      simp only [stripOffsets, there] at stripped
      split at stripped
      · rename_i base indices same
        cases same
        exact .inr (.inl ⟨base, indices, rfl, fuel, stripped⟩)
      · rename_i source same
        cases same
        exact .inr (.inr ⟨source, rfl, fuel, stripped⟩)
      · cases stripped
        exact .inl rfl

/-- An address within a slot is the slot or an address computed from one. -/
theorem base_of_slotAddress {slot : Nat} {inBounds : Bool} {base : Operand}
    {indices : List Operand} (alloca : body.isAlloca slot = true)
    (there : body.insts[index]? = some (.gep inBounds base indices))
    (reached : body.SlotAddress slot (.inst index)) : body.SlotAddress slot base := by
  rcases slotAddress_inst reached there with rfl | ⟨-, value, operand, before⟩
  · rw [isAlloca_iff there] at alloca
    cases alloca
  · rcases List.mem_cons.mp operand with rfl | operand
    · exact before
    · -- Indices are numbers.
      have typed := body.typed _ (List.mem_of_getElem? there)
      cases before with
      | slot =>
          unfold isAlloca at alloca
          cases found : body.insts[slot]? with
          | none => simp [found] at alloca
          | some other =>
              have number := typed slot operand other found
              simp [found, number.1] at alloca
      | gep _ found gep _ =>
          rw [(typed _ operand _ found).2] at gep
          cases gep

end Body

/-! ## What values hold -/

section Invariant

variable (module : Module Fn) (rewriting : Rewriting Fn)

/-- The values that pointers of converted allocations start from in a function. -/
def Root (fn : Fn) (root : Operand) : Prop :=
  (∃ site, root = .inst site ∧ rewriting.Converts fn site) ∨
    ∃ index, root = .param index ∧ module.KeepsParam fn index

/-- The object is a stack slot that may hold pointers of converted allocations. -/
def IsSpillSlot (object : Object Fn) : Prop :=
  ∃ fn body slot root, object.source = .slot fn slot ∧ module.body fn = some body ∧
    Root module rewriting fn root ∧ body.Spills root slot

/-- What holds of an object that a value of a function points into. -/
structure Good (fn : Fn) (body : Body Fn) (value : Operand) (object : Object Fn) : Prop where
  owned : rewriting.Owns object → ∃ root, Root module rewriting fn root ∧ body.Follows root value
  spilled : IsSpillSlot module rewriting object →
    ∃ slot, object.source = .slot fn slot ∧ body.SlotAddress slot value
  address : ∀ slot, body.isAlloca slot = true → body.SlotAddress slot value →
    object.source = .slot fn slot
  stripped : ∀ fuel slot, body.isAlloca slot = true → body.stripOffsets fuel value = .inst slot →
    object.source = .slot fn slot
  followed : ∀ site, rewriting.Converts fn site → body.Follows (.inst site) value →
    object.source = .site fn site

structure HeapGood (heap : Heap Fn) : Prop where
  known : ∀ object, heap.Known object → ¬ rewriting.Owns object ∧
    ¬ IsSpillSlot module rewriting object
  owned : ∀ holder object, .pointer object ∈ heap.memory holder → rewriting.Owns object →
    IsSpillSlot module rewriting holder
  spilled : ∀ holder object, .pointer object ∈ heap.memory holder →
    ¬ IsSpillSlot module rewriting object
  followed : ∀ holder object, .pointer object ∈ heap.memory holder → ∀ fn body site slot,
    holder.source = .slot fn slot → module.body fn = some body → rewriting.Converts fn site →
      body.Spills (.inst site) slot → object.source = .site fn site

def RegistersGood (fn : Fn) (registers : Operand → Value Fn) : Prop :=
  ∀ body, module.body fn = some body → ∀ value object, registers value = .pointer object →
    Good module rewriting fn body value object

/-- The frame is at a call that is nothing but a call. -/
def Frame.Waits (frame : Frame Fn) : Prop :=
  ∃ body isInvoke callee arguments target, module.body frame.fn = some body ∧
    body.insts[frame.point]? = some (.call isInvoke callee arguments) ∧ callee.CanBe target ∧
      module.isPlain target = true

structure StateGood (state : State Fn) : Prop where
  heap : HeapGood module rewriting state.heap
  frames : ∀ frame, .code frame ∈ state.stack →
    RegistersGood module rewriting frame.fn frame.registers
  waits : ∀ frame, .code frame ∈ state.stack.tail → frame.Waits module

variable {module rewriting} (plan : Plan module rewriting) {fn : Fn} {body : Body Fn}

include plan

theorem confined_of_root {root : Operand} (isRoot : Root module rewriting fn root)
    (defined : module.body fn = some body) :
    ∃ scopeFunctions, module.Confined scopeFunctions body (rewriting.Erases fn) root := by
  rcases isRoot with ⟨site, rfl, converts⟩ | ⟨index, rfl, other, order, scopeFunctions, visited,
    same, walk⟩
  · obtain ⟨other, same, -, confined⟩ := plan.converted fn site converts
    obtain rfl := Option.some.inj (defined.symm.trans same)
    exact confined
  · obtain rfl := Option.some.inj (defined.symm.trans same)
    exact ⟨scopeFunctions, (Module.confined_of_escapesScope walk).mono fun _ => nofun⟩

/-- What a followed value is used for. -/
theorem harmless_of_owned {value : Operand} {object : Object Fn}
    (good : Good module rewriting fn body value object) (owned : rewriting.Owns object)
    (defined : module.body fn = some body) {index : Nat} {inst : Inst Fn}
    (there : body.insts[index]? = some inst) (operand : value ∈ inst.operands) :
    ∃ scopeFunctions,
      module.Harmless scopeFunctions body (rewriting.Erases fn) value index inst := by
  obtain ⟨root, isRoot, reached⟩ := good.owned owned
  obtain ⟨scopeFunctions, confined⟩ := confined_of_root plan isRoot defined
  exact ⟨scopeFunctions, confined value reached index inst there operand⟩

/-- What the address of a spill slot is used for. -/
theorem keepsSlot_of_spilled {value : Operand} {object : Object Fn}
    (good : Good module rewriting fn body value object)
    (spilled : IsSpillSlot module rewriting object) (defined : module.body fn = some body)
    {index : Nat} {inst : Inst Fn} (there : body.insts[index]? = some inst)
    (operand : value ∈ inst.operands) : inst.KeepsSlot module.frees value := by
  obtain ⟨slot, source, reached⟩ := good.spilled spilled
  obtain ⟨other, otherBody, otherSlot, root, same, otherDefined, isRoot, spills⟩ := spilled
  obtain ⟨rfl, rfl⟩ : fn = other ∧ slot = otherSlot := by
    rw [source] at same
    injection same with first second
    exact ⟨first, second⟩
  obtain rfl := Option.some.inj (defined.symm.trans otherDefined)
  obtain ⟨scopeFunctions, confined⟩ := confined_of_root plan isRoot defined
  obtain ⟨at', stored, address, followed, store, apart, strip⟩ := spills
  rcases confined stored followed at' _ store List.mem_cons_self with same | ⟨kept, found, keeps⟩
  · exact absurd same apart
  · obtain rfl := Option.some.inj (strip.symm.trans found)
    exact keeps value reached index inst there operand

omit [DecidableEq Fn] in
/-- A converted site is a direct call of an allocator. -/
theorem site_of_converts {site : Nat} (converts : rewriting.Converts fn site)
    (defined : module.body fn = some body) : ∃ callee arguments,
      body.insts[site]? = some (.call false (.direct callee) arguments) ∧
        isAllocFunction (module.name callee) = true := by
  obtain ⟨other, same, member, -⟩ := plan.converted fn site converts
  obtain rfl := Option.some.inj (defined.symm.trans same)
  exact mem_findAllocSites member

/-! ## Results -/

variable {index : Nat} {inst : Inst Fn} {object : Object Fn}

/-- The result of an instruction that neither moves, loads nor makes an object. -/
theorem good_of_other (defined : module.body fn = some body)
    (there : body.insts[index]? = some inst) (still : inst.isMove = false)
    (unloaded : ∀ address, inst ≠ .load address) (unslotted : inst.isAlloca = false)
    (unsited : ∀ callee arguments, inst = .call false (.direct callee) arguments →
      isAllocFunction (module.name callee) = false)
    (unowned : ¬ rewriting.Owns object) (unspilled : ¬ IsSpillSlot module rewriting object) :
    Good module rewriting fn body (.inst index) object where
  owned owned := absurd owned unowned
  spilled spilled := absurd spilled unspilled
  address slot alloca reached := by
    rcases Body.slotAddress_inst reached there with rfl | ⟨gep, -⟩
    · rw [Body.isAlloca_iff there, unslotted] at alloca
      cases alloca
    · cases inst <;> cases gep
      cases still
  stripped fuel slot alloca stripped := by
    rcases Body.stripOffsets_inst there stripped with
      rfl | ⟨base, indices, rfl, -⟩ | ⟨source, rfl, -⟩
    · rw [Body.isAlloca_iff there, unslotted] at alloca
      cases alloca
    · cases still
    · cases still
  followed site converts reached := by
    rcases Body.follows_inst reached there with same | move | ⟨source, slot, load, -⟩
    · cases same
      obtain ⟨callee, arguments, call, allocates⟩ := site_of_converts plan converts defined
      obtain rfl := Option.some.inj (there.symm.trans call)
      rw [unsited callee arguments rfl] at allocates
      cases allocates
    · rw [still] at move
      cases move
    · exact absurd load (unloaded source)

/-- The result of a move. -/
theorem good_of_move (defined : module.body fn = some body)
    (there : body.insts[index]? = some inst) (move : inst.isMove = true) {operand : Operand}
    (base : ∀ inBounds address indices, inst = .gep inBounds address indices → operand = address)
    (source : ∀ value, inst = .bitcast value → operand = value) (used : operand ∈ inst.operands)
    (good : Good module rewriting fn body operand object)
    (takes : ∀ site, rewriting.Converts fn site → body.Follows (.inst site) (.inst index) →
      body.Follows (.inst site) operand) :
    Good module rewriting fn body (.inst index) object where
  owned owned := by
    obtain ⟨root, isRoot, reached⟩ := good.owned owned
    exact ⟨root, isRoot, .move reached there move used⟩
  spilled spilled := by
    have keeps := keepsSlot_of_spilled plan good spilled defined there used
    obtain ⟨slot, same, reached⟩ := good.spilled spilled
    cases inst <;> cases move
    · exact ⟨slot, same, .gep reached there rfl used⟩
    all_goals cases keeps
  address slot alloca reached := by
    rcases Body.slotAddress_inst reached there with rfl | ⟨gep, -⟩
    · rw [Body.isAlloca_iff there] at alloca
      cases inst <;> cases move <;> cases alloca
    · cases inst <;> cases gep
      rename_i inBounds address indices
      obtain rfl := base inBounds address indices rfl
      exact good.address slot alloca (Body.base_of_slotAddress alloca there reached)
  stripped fuel slot alloca stripped := by
    rcases Body.stripOffsets_inst there stripped with
      rfl | ⟨address, indices, rfl, less, stripped⟩ | ⟨value, rfl, less, stripped⟩
    · rw [Body.isAlloca_iff there] at alloca
      cases inst <;> cases move <;> cases alloca
    · obtain rfl := base true address indices rfl
      exact good.stripped less slot alloca stripped
    · obtain rfl := source value rfl
      exact good.stripped less slot alloca stripped
  followed site converts reached := good.followed site converts (takes site converts reached)

/-- What is loaded through a good address. -/
theorem good_of_load {heap : Heap Fn} (defined : module.body fn = some body) {address : Operand}
    (there : body.insts[index]? = some (.load address)) {holder : Object Fn}
    (good : Good module rewriting fn body address holder)
    (heapGood : HeapGood module rewriting heap) (held : .pointer object ∈ heap.memory holder) :
    Good module rewriting fn body (.inst index) object where
  owned owned := by
    have spilled := heapGood.owned holder object held owned
    obtain ⟨slot, source, reached⟩ := good.spilled spilled
    obtain ⟨other, otherBody, otherSlot, root, same, otherDefined, isRoot, spills⟩ := spilled
    obtain ⟨rfl, rfl⟩ : fn = other ∧ slot = otherSlot := by
      rw [source] at same
      injection same with first second
      exact ⟨first, second⟩
    obtain rfl := Option.some.inj (defined.symm.trans otherDefined)
    obtain ⟨at', stored, target, followed, store, apart, strip⟩ := spills
    exact ⟨root, isRoot, .reload followed store apart strip reached there⟩
  spilled spilled := absurd spilled (heapGood.spilled holder object held)
  address slot alloca reached := by
    rcases Body.slotAddress_inst reached there with rfl | ⟨gep, -⟩
    · rw [Body.isAlloca_iff there] at alloca
      cases alloca
    · cases gep
  stripped fuel slot alloca stripped := by
    rcases Body.stripOffsets_inst there stripped with rfl | ⟨_, _, same, -⟩ | ⟨_, same, -⟩
    · rw [Body.isAlloca_iff there] at alloca
      cases alloca
    · cases same
    · cases same
  followed site converts reached := by
    rcases Body.follows_inst reached there with same | move | ⟨source, slot, same, spills, reads⟩
    · cases same
      obtain ⟨callee, arguments, call, -⟩ := site_of_converts plan converts defined
      cases there.symm.trans call
    · cases move
    · cases same
      have alloca : body.isAlloca slot = true := by
        obtain ⟨_, _, _, _, _, _, strip⟩ := spills
        exact (Body.isAlloca_of_slotOf strip).1
      exact heapGood.followed holder object held fn body site slot
        (good.address slot alloca reads) defined converts spills

/-- A new stack slot. -/
theorem good_of_alloca (defined : module.body fn = some body)
    (there : body.insts[index]? = some .alloca) (source : object.source = .slot fn index) :
    Good module rewriting fn body (.inst index) object where
  owned := by
    rintro ⟨other, site, -, same⟩
    cases source.symm.trans same
  spilled _ := ⟨index, source, .slot⟩
  address slot alloca reached := by
    rcases Body.slotAddress_inst reached there with rfl | ⟨gep, -⟩
    · exact source
    · cases gep
  stripped fuel slot alloca stripped := by
    rcases Body.stripOffsets_inst there stripped with rfl | ⟨_, _, same, -⟩ | ⟨_, same, -⟩
    · exact source
    · cases same
    · cases same
  followed site converts reached := by
    rcases Body.follows_inst reached there with same | move | ⟨_, _, same, -⟩
    · cases same
      obtain ⟨callee, arguments, call, -⟩ := site_of_converts plan converts defined
      cases there.symm.trans call
    · cases move
    · cases same

omit plan in
/-- A new allocation. -/
theorem good_of_allocate {isInvoke : Bool} {callee : Fn} {arguments : List Operand}
    (there : body.insts[index]? = some (.call isInvoke (.direct callee) arguments))
    (source : object.source = .site fn index) :
    Good module rewriting fn body (.inst index) object where
  owned := by
    rintro ⟨other, site, converts, same⟩
    cases source.symm.trans same
    exact ⟨.inst index, .inl ⟨index, rfl, converts⟩, .root⟩
  spilled := by
    rintro ⟨other, _, slot, _, same, -⟩
    cases source.symm.trans same
  address slot alloca reached := by
    rcases Body.slotAddress_inst reached there with rfl | ⟨gep, -⟩
    · rw [Body.isAlloca_iff there] at alloca
      cases alloca
    · cases gep
  stripped fuel slot alloca stripped := by
    rcases Body.stripOffsets_inst there stripped with rfl | ⟨_, _, same, -⟩ | ⟨_, same, -⟩
    · rw [Body.isAlloca_iff there] at alloca
      cases alloca
    · cases same
    · cases same
  followed site converts reached := by
    rcases Body.follows_inst reached there with same | move | ⟨_, _, same, -⟩
    · cases same
      exact source
    · cases move
    · cases same

end Invariant
end LifetimeArena
end TopoLlvm
