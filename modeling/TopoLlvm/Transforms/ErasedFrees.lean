import TopoLlvm.Transforms.FreeErasure

/-!
# Runs with erased calls

What holds of registers and memory is kept by every step that is as the walk takes it, so that in
runs of such steps an erased call frees what it claims, and no other call frees a pointer of a
converted allocation.
-/

namespace TopoLlvm
namespace LifetimeArena

variable {Fn : Type} [DecidableEq Fn] {module : Module Fn} {rewriting : Rewriting Fn}

theorem not_intrinsic_of_free {name : TopoLlvm.Runtime.Name} (intrinsic : isIntrinsic name = true) :
    isFreeFunction name = false ∧ isAllocFunction name = false := by
  have apart : (["free", "_ZdlPv", "_ZdaPv", "_ZdlPvm", "_ZdaPvm"].map String.toList ++
      ["malloc", "_Znwm", "_Znwj", "_Znam", "_Znaj", "calloc"].map String.toList).all
      (fun name => !isIntrinsic name) = true := by decide
  rw [List.all_append, Bool.and_eq_true] at apart
  refine ⟨Bool.eq_false_iff.mpr fun free => ?_, Bool.eq_false_iff.mpr fun allocates => ?_⟩
  · have := List.all_eq_true.mp apart.1 name (List.contains_iff_mem.mp free)
    simp [intrinsic] at this
  · have := List.all_eq_true.mp apart.2 name (List.contains_iff_mem.mp allocates)
    simp [intrinsic] at this

omit [DecidableEq Fn] in
theorem not_free_of_plain {callee : Callee Fn} {target called : Fn} (canBe : callee.CanBe target)
    (plain : module.isPlain target = true) (same : callee = .direct called) :
    isFreeFunction (module.name called) = false ∧ isAllocFunction (module.name called) = false := by
  subst same
  obtain rfl : called = target := by
    rcases canBe with same | ⟨address, same⟩
    · exact Callee.direct.inj same
    · cases same
  simp only [Module.isPlain, Bool.and_eq_true, Bool.not_eq_eq_eq_not, Bool.not_true] at plain
  exact ⟨plain.1.2, plain.1.1⟩

/-! ## Memory -/

theorem Heap.mem_write {heap : Heap Fn} {holder other : Object Fn} {value held : Value Fn} :
    held ∈ (heap.write holder value).memory other ↔
      held ∈ heap.memory other ∨ other = holder ∧ held = value := by
  by_cases same : other = holder
  · subst same
    simp [write, or_comm]
  · simp [write, same]

theorem Heap.mem_of_mem_allocate {heap : Heap Fn} {source : Source Fn} {holder : Object Fn}
    {held : Value Fn} (member : held ∈ (heap.allocate source).memory holder) :
    held ∈ heap.memory holder := by
  by_cases same : holder = heap.fresh source
  · subst same
    simp [allocate] at member
  · simpa [allocate, same] using member

/-- What may be stored to an object. -/
structure MayHold (module : Module Fn) (rewriting : Rewriting Fn) (holder object : Object Fn) :
    Prop where
  owned : rewriting.Owns object → IsSpillSlot module rewriting holder
  spilled : ¬ IsSpillSlot module rewriting object
  followed : ∀ fn body site slot, holder.source = .slot fn slot → module.body fn = some body →
    rewriting.Converts fn site → body.Spills (.inst site) slot → object.source = .site fn site

namespace HeapGood

variable {heap : Heap Fn}

theorem of_memory {after : Heap Fn} (good : HeapGood module rewriting heap)
    (exposed : after.exposed = heap.exposed)
    (held : ∀ holder object, .pointer object ∈ after.memory holder →
      .pointer object ∈ heap.memory holder ∨ MayHold module rewriting holder object) :
    HeapGood module rewriting after where
  known object known := good.known object (by rwa [Heap.Known, exposed] at known)
  owned holder object member owned := (held holder object member).elim
    (good.owned holder object · owned) (·.owned owned)
  spilled holder object member := (held holder object member).elim
    (good.spilled holder object) (·.spilled)
  followed holder object member := (held holder object member).elim
    (good.followed holder object) (·.followed)

theorem write (good : HeapGood module rewriting heap) {holder : Object Fn} {value : Value Fn}
    (may : ∀ object, value = .pointer object → MayHold module rewriting holder object) :
    HeapGood module rewriting (heap.write holder value) := by
  refine good.of_memory rfl fun other object member => ?_
  rcases Heap.mem_write.mp member with before | ⟨rfl, same⟩
  · exact .inl before
  · exact .inr (may object same.symm)

theorem writes (good : HeapGood module rewriting heap) {stores : List (Object Fn × Value Fn)}
    (may : ∀ store ∈ stores, ∀ object, store.2 = .pointer object →
      MayHold module rewriting store.1 object) :
    HeapGood module rewriting (heap.writes stores) := by
  induction stores generalizing heap with
  | nil => exact good
  | cons store stores ih =>
      rw [List.forall_mem_cons] at may
      exact ih (good.write may.1) may.2

theorem allocate (good : HeapGood module rewriting heap) (source : Source Fn) :
    HeapGood module rewriting (heap.allocate source) :=
  good.of_memory rfl fun _ _ member => .inl (Heap.mem_of_mem_allocate member)

theorem expose (good : HeapGood module rewriting heap) {values : List (Value Fn)}
    (free : ∀ object, .pointer object ∈ values →
      ¬ rewriting.Owns object ∧ ¬ IsSpillSlot module rewriting object) :
    HeapGood module rewriting (heap.expose values) where
  known object known := by
    rcases known with foreign | exposed
    · exact good.known object (.inl foreign)
    · rcases List.mem_append.mp exposed with before | now
      · exact good.known object (.inr before)
      · obtain ⟨value, member, same⟩ := List.mem_filterMap.mp now
        cases value with
        | data => cases same
        | pointer pointed =>
            obtain rfl := Option.some.inj same
            exact free pointed member
  owned := good.owned
  spilled := good.spilled
  followed := good.followed

end HeapGood

/-- A pointer to nowhere that the pass is concerned with may be stored in any other such object. -/
theorem mayHold_of_free {holder object : Object Fn} (unowned : ¬ rewriting.Owns object)
    (unspilled : ¬ IsSpillSlot module rewriting object)
    (elsewhere : ¬ IsSpillSlot module rewriting holder) :
    MayHold module rewriting holder object where
  owned owned := absurd owned unowned
  spilled := unspilled
  followed fn body site slot source defined converts spills :=
    absurd ⟨fn, body, slot, .inst site, source, defined, .inl ⟨site, rfl, converts⟩, spills⟩
      elsewhere

/-! ## Registers -/

theorem RegistersGood.update {fn : Fn} {registers : Operand → Value Fn} {index : Nat}
    {value : Value Fn} (good : RegistersGood module rewriting fn registers)
    (result : ∀ body, module.body fn = some body → ∀ object, value = .pointer object →
      Good module rewriting fn body (.inst index) object) :
    RegistersGood module rewriting fn (Function.update registers (.inst index) value) := by
  intro body defined operand object holds
  by_cases same : operand = .inst index
  · subst same
    rw [Function.update_self] at holds
    exact result body defined object holds
  · rw [Function.update_of_ne same] at holds
    exact good body defined operand object holds

section Phis

variable {body : Body Fn} {index source : Nat} {operand : Operand}

omit [DecidableEq Fn] in
theorem phi_of_phiSource (found : body.phiSource index source = some operand) :
    ∃ incoming, body.insts[index]? = some (.phi incoming) ∧
      operand ∈ (Inst.phi incoming : Inst Fn).operands := by
  unfold Body.phiSource at found
  split at found
  · rename_i incoming there
    obtain ⟨before, after, rfl, -⟩ := List.lookup_eq_some_iff.mp found
    exact ⟨_, there, by simp [Inst.operands]⟩
  · cases found

variable {fn : Fn} {registers : Operand → Value Fn} {target : Nat}

omit [DecidableEq Fn] in
theorem mem_takes (arrives : index ∈ body.phisAt target)
    (found : body.phiSource index source = some operand) :
    .take fn index operand (registers operand) ∈ body.takes fn registers source target :=
  List.mem_filterMap.mpr ⟨index, arrives, by rw [found, Option.map_some]⟩

/-- Registers stay good on the way to the next instruction. -/
theorem RegistersGood.enter (plan : Plan module rewriting)
    (good : RegistersGood module rewriting fn registers) (defined : module.body fn = some body)
    (followed : ∀ event ∈ body.takes fn registers source target,
      event.AsFollowed module rewriting) :
    RegistersGood module rewriting fn (body.enter registers source target) := by
  intro other same value object holds
  obtain rfl := Option.some.inj (defined.symm.trans same)
  cases value with
  | inst index =>
      simp only [Body.enter] at holds
      split at holds
      · rename_i arrives
        cases found : body.phiSource index source with
        | none =>
            rw [found] at holds
            cases holds
        | some operand =>
            rw [found] at holds
            obtain ⟨incoming, there, used⟩ := phi_of_phiSource found
            refine good_of_move plan defined there rfl nofun nofun used
              (good body defined operand object holds) fun site converts reached => ?_
            rcases followed _ (mem_takes arrives found) with data | takes
            · cases data.symm.trans holds
            · exact takes body defined site converts reached
      · exact good body defined _ object holds
  | _ => exact good body defined _ object holds

end Phis

/-! ## Instructions -/

section Effects

variable {fn : Fn} {body : Body Fn} {index : Nat} {inst : Inst Fn}
  {registers : Operand → Value Fn} {heap after : Heap Fn} {value : Value Fn}
  {events : List (Event Fn)}

/-- What one instruction leaves. -/
structure Leaves (module : Module Fn) (rewriting : Rewriting Fn) (fn : Fn) (body : Body Fn)
    (index : Nat) (value : Value Fn) (after : Heap Fn) (events : List (Event Fn)) : Prop where
  heap : HeapGood module rewriting after
  result : ∀ object, value = .pointer object →
    Good module rewriting fn body (.inst index) object
  right : ∀ event ∈ events, event.FreesRight rewriting

/-- A value that is used where pointers do not stay has no pointer that must. -/
theorem free_of_use (plan : Plan module rewriting)
    (registersGood : RegistersGood module rewriting fn registers)
    (defined : module.body fn = some body) (there : body.insts[index]? = some inst)
    {operand : Operand} (used : operand ∈ inst.operands) {object : Object Fn}
    (holds : registers operand = .pointer object) :
    (rewriting.Owns object → ∃ scopeFunctions,
      module.Harmless scopeFunctions body (rewriting.Erases fn) operand index inst) ∧
    (IsSpillSlot module rewriting object → inst.KeepsSlot module.frees operand) :=
  have good := registersGood body defined operand object holds
  ⟨fun owned => harmless_of_owned plan good owned defined there used,
    fun spilled => keepsSlot_of_spilled plan good spilled defined there used⟩

theorem leaves_of_store (plan : Plan module rewriting) (heapGood : HeapGood module rewriting heap)
    (registersGood : RegistersGood module rewriting fn registers)
    (defined : module.body fn = some body) {stored address : Operand} {holder : Object Fn}
    (there : body.insts[index]? = some (.store stored address))
    (points : registers address = .pointer holder)
    (followed : (Event.store fn stored address holder (registers stored)).AsFollowed module
      rewriting) :
    Leaves module rewriting fn body index .data (heap.write holder (registers stored))
      [.store fn stored address holder (registers stored)] where
  heap := heapGood.write fun object holds => by
    have good := registersGood body defined stored object holds
    have target := registersGood body defined address holder points
    obtain ⟨keeps, lets⟩ := free_of_use plan registersGood defined there List.mem_cons_self holds
    refine ⟨fun owned => ?_, fun spilled => lets spilled rfl,
      fun other otherBody site slot source otherDefined converts spills => ?_⟩
    · obtain ⟨root, isRoot, reached⟩ := good.owned owned
      have apart : address ≠ stored := fun same =>
        followed.1 same ⟨object, holds, owned⟩
      obtain ⟨scopeFunctions, same | ⟨slot, strip, kept⟩⟩ := keeps owned
      · exact absurd same apart
      · obtain ⟨alloca, stripped⟩ := Body.isAlloca_of_slotOf strip
        exact ⟨fn, body, slot, root, target.stripped _ slot alloca stripped, defined, isRoot,
          index, stored, address, reached, there, apart, strip⟩
    · -- The slot is one of this function, since its address is known nowhere else.
      obtain ⟨own, ownSource, -⟩ := target.spilled ⟨other, otherBody, slot, .inst site, source,
        otherDefined, .inl ⟨site, rfl, converts⟩, spills⟩
      obtain ⟨rfl, rfl⟩ : fn = other ∧ own = slot := by
        rw [source] at ownSource
        injection ownSource with first second
        exact ⟨first.symm, second.symm⟩
      obtain rfl := Option.some.inj (defined.symm.trans otherDefined)
      rcases followed.2 with data | takes
      · cases data.symm.trans holds
      · exact good.followed site converts (takes body defined site own converts spills source)
  result := nofun
  right := by simp [Event.FreesRight]

/-- The address of a slot that a followed value is stored to is not passed to a call that does not
free. -/
theorem not_spilled_of_argument (plan : Plan module rewriting)
    (registersGood : RegistersGood module rewriting fn registers)
    (defined : module.body fn = some body) {isInvoke : Bool} {callee : Callee Fn}
    {arguments : List Operand} (there : body.insts[index]? = some (.call isInvoke callee arguments))
    (keeps : ∀ target, callee = .direct target → isFreeFunction (module.name target) = false)
    {object : Object Fn} (passed : .pointer object ∈ arguments.map registers) :
    ¬ IsSpillSlot module rewriting object := by
  intro spilled
  obtain ⟨operand, member, holds⟩ := List.mem_map.mp passed
  cases callee with
  | indirect address =>
      have kept := (free_of_use plan registersGood defined there
        (List.mem_cons_of_mem address member) holds).2 spilled
      cases isInvoke <;> exact kept
  | direct target =>
      have kept := (free_of_use plan registersGood defined there member holds).2 spilled
      cases isInvoke with
      | true => exact kept
      | false =>
          rw [Inst.KeepsSlot, Module.frees, keeps target rfl] at kept
          cases kept

theorem leaves_of_free (plan : Plan module rewriting) (heapGood : HeapGood module rewriting heap)
    (registersGood : RegistersGood module rewriting fn registers)
    (defined : module.body fn = some body) {isInvoke : Bool} {callee : Fn}
    {arguments : List Operand}
    (there : body.insts[index]? = some (.call isInvoke (.direct callee) arguments))
    (frees : isFreeFunction (module.name callee) = true)
    (followed : (Event.free fn index arguments (arguments.map registers)).AsFollowed module
      rewriting) :
    Leaves module rewriting fn body index .data heap
      [.free fn index arguments (arguments.map registers)] where
  heap := heapGood
  result := nofun
  right := by
    rw [List.forall_mem_singleton]
    refine ⟨fun site claimed => ?_, fun kept passed member => ?_⟩
    · have converts := (plan.erased fn index site claimed).1
      refine ⟨converts, fun other another => plan.unique fn index other site another claimed,
        fun object first => ?_⟩
      obtain ⟨operand, here, holds⟩ : ∃ operand, operand ∈ arguments.head? ∧
          registers operand = .pointer object := by
        rw [List.head?_map] at first
        exact Option.map_eq_some_iff.mp first
      exact (registersGood body defined operand object holds).followed site converts
        (followed body defined site claimed operand here)
    · rintro ⟨object, rfl, owned⟩
      obtain ⟨operand, used, holds⟩ := List.mem_map.mp member
      obtain ⟨scopeFunctions, harmless⟩ :=
        (free_of_use plan registersGood defined there used holds).1 owned
      cases isInvoke with
      | true => exact harmless
      | false =>
          rw [Module.Harmless, if_pos frees] at harmless
          exact kept harmless

theorem leaves_of_intrinsic (plan : Plan module rewriting)
    (heapGood : HeapGood module rewriting heap)
    (registersGood : RegistersGood module rewriting fn registers)
    (defined : module.body fn = some body) {isInvoke : Bool} {callee : Fn}
    {arguments : List Operand} {stores : List (Object Fn × Value Fn)}
    (there : body.insts[index]? = some (.call isInvoke (.direct callee) arguments))
    (intrinsic : isIntrinsic (module.name callee) = true)
    (within : ∀ result ∈ value :: stores.map Prod.snd,
      heap.Within (arguments.map registers) result)
    (targets : ∀ store ∈ stores, .pointer store.1 ∈ arguments.map registers)
    (followed : (Event.intrinsic fn index (value :: stores.map Prod.snd)).AsFollowed module
      rewriting) :
    Leaves module rewriting fn body index value (heap.writes stores)
      [.intrinsic fn index (value :: stores.map Prod.snd)] := by
  obtain ⟨unfreed, unsited⟩ := not_intrinsic_of_free intrinsic
  have passed {object : Object Fn} :
      .pointer object ∈ arguments.map registers → ¬ IsSpillSlot module rewriting object :=
    not_spilled_of_argument plan registersGood defined there fun target same => by
      cases same
      exact unfreed
  have result {object : Object Fn}
      (member : .pointer object ∈ value :: stores.map Prod.snd) :
      ¬ rewriting.Owns object ∧ ¬ IsSpillSlot module rewriting object := by
    refine ⟨fun owned => followed _ member ⟨object, rfl, owned⟩, ?_⟩
    rcases within _ member with data | argument | ⟨holder, -, held⟩
    · cases data
    · exact passed argument
    · exact heapGood.spilled holder object held
  refine ⟨heapGood.writes fun store member object holds => ?_, fun object holds => ?_, ?_⟩
  · have stored := result (List.mem_cons_of_mem _ (List.mem_map.mpr ⟨store, member, holds⟩))
    exact mayHold_of_free stored.1 stored.2 (passed (targets store member))
  · have returned := result (List.mem_cons.mpr (.inl holds.symm))
    refine good_of_other plan defined there rfl nofun rfl (fun other operands same => ?_)
      returned.1 returned.2
    cases same
    exact unsited
  · simp [Event.FreesRight]

theorem leaves_of_effect (plan : Plan module rewriting)
    (heapGood : HeapGood module rewriting heap)
    (registersGood : RegistersGood module rewriting fn registers)
    (defined : module.body fn = some body) (there : body.insts[index]? = some inst)
    (effect : Effect module fn index registers heap inst value after events)
    (followed : ∀ event ∈ events, event.AsFollowed module rewriting) :
    Leaves module rewriting fn body index value after events := by
  cases effect with
  | gep =>
      rw [List.forall_mem_singleton] at followed
      refine ⟨heapGood, fun object holds => ?_, by simp [Event.FreesRight]⟩
      refine good_of_move plan defined there rfl (fun _ _ _ same => ?_) nofun List.mem_cons_self
        (registersGood body defined _ object holds) fun site converts reached => ?_
      · cases same
        rfl
      · exact (followed.resolve_left (by simp [holds])) body defined site converts reached
  | bitcast =>
      rw [List.forall_mem_singleton] at followed
      refine ⟨heapGood, fun object holds => ?_, by simp [Event.FreesRight]⟩
      refine good_of_move plan defined there rfl nofun (fun _ same => ?_) List.mem_cons_self
        (registersGood body defined _ object holds) fun site converts reached => ?_
      · cases same
        rfl
      · exact (followed.resolve_left (by simp [holds])) body defined site converts reached
  | select chosen =>
      rw [List.forall_mem_singleton] at followed
      refine ⟨heapGood, fun object holds => ?_, by simp [Event.FreesRight]⟩
      refine good_of_move plan defined there rfl nofun nofun ?_
        (registersGood body defined _ object holds) fun site converts reached => ?_
      · rcases chosen with rfl | rfl <;> simp [Inst.operands]
      · exact (followed.resolve_left (by simp [holds])) body defined site converts reached
  | load points held =>
      refine ⟨heapGood, fun object holds => ?_, by simp⟩
      subst holds
      exact good_of_load plan defined there (registersGood body defined _ _ points) heapGood
        (held.resolve_left nofun)
  | store points =>
      exact leaves_of_store plan heapGood registersGood defined there points
        (followed _ List.mem_cons_self)
  | alloca =>
      refine ⟨heapGood.allocate _, fun object holds => ?_, by simp⟩
      cases holds
      exact good_of_alloca plan defined there rfl
  | allocate _ =>
      refine ⟨heapGood.allocate _, fun object holds => ?_, by simp⟩
      cases holds
      exact good_of_allocate there rfl
  | arenaAlloc =>
      refine ⟨heapGood.allocate _, fun object holds => ?_, by simp⟩
      cases holds
      refine good_of_other plan defined there rfl nofun rfl nofun ?_ ?_
      · rintro ⟨_, _, converts, same⟩
        cases same
        obtain ⟨callee, arguments, call, -⟩ := site_of_converts plan converts defined
        cases there.symm.trans call
      · rintro ⟨_, _, _, _, same, -⟩
        cases same
  | exhausted _ => exact ⟨heapGood, nofun, by simp⟩
  | arenaExhausted => exact ⟨heapGood, nofun, by simp⟩
  | free frees =>
      exact leaves_of_free plan heapGood registersGood defined there frees
        (followed _ List.mem_cons_self)
  | erased => exact ⟨heapGood, nofun, by simp⟩
  | intrinsic intrinsic within targets =>
      exact leaves_of_intrinsic plan heapGood registersGood defined there intrinsic within targets
        (followed _ List.mem_cons_self)
  | @other operands result known =>
      have given {object : Object Fn} (member : .pointer object ∈ operands.map registers) :
          ¬ rewriting.Owns object ∧ ¬ IsSpillSlot module rewriting object := by
        obtain ⟨operand, used, holds⟩ := List.mem_map.mp member
        obtain ⟨keeps, lets⟩ := free_of_use plan registersGood defined there used holds
        exact ⟨fun owned => (keeps owned).elim fun _ => id, lets⟩
      have exposed := heapGood.expose fun object member => given member
      refine ⟨exposed, fun object holds => ?_, by simp⟩
      obtain ⟨unowned, unspilled⟩ := exposed.known object (known object holds)
      exact good_of_other plan defined there rfl nofun rfl nofun unowned unspilled

end Effects

/-! ## Steps -/

section Steps

variable {frame : Frame Fn} {body : Body Fn} {heap : Heap Fn} {value : Value Fn} {next : Nat}

omit [DecidableEq Fn] in
theorem right_of_takes : ∀ event ∈ frame.goOnTakes body value next, event.FreesRight rewriting := by
  intro event member
  obtain ⟨index, -, found⟩ := List.mem_filterMap.mp member
  obtain ⟨operand, -, rfl⟩ := Option.map_eq_some_iff.mp found
  trivial

theorem registersGood_goOn (plan : Plan module rewriting)
    (good : RegistersGood module rewriting frame.fn frame.registers)
    (defined : module.body frame.fn = some body)
    (result : ∀ object, value = .pointer object →
      Good module rewriting frame.fn body (.inst frame.point) object)
    (followed : ∀ event ∈ frame.goOnTakes body value next, event.AsFollowed module rewriting) :
    RegistersGood module rewriting (frame.goOn body value next).fn
      (frame.goOn body value next).registers := by
  refine RegistersGood.enter plan (good.update fun other same => ?_) defined followed
  obtain rfl := Option.some.inj (defined.symm.trans same)
  exact result

/-- What a waiting call returns. -/
theorem good_of_waits (plan : Plan module rewriting) (waits : frame.Waits module)
    (defined : module.body frame.fn = some body) {object : Object Fn}
    (unowned : ¬ rewriting.Owns object) (unspilled : ¬ IsSpillSlot module rewriting object) :
    Good module rewriting frame.fn body (.inst frame.point) object := by
  obtain ⟨other, isInvoke, callee, arguments, target, same, there, canBe, plain⟩ := waits
  obtain rfl := Option.some.inj (defined.symm.trans same)
  refine good_of_other plan defined there rfl nofun rfl (fun called operands call => ?_)
    unowned unspilled
  cases call
  exact (not_free_of_plain canBe plain rfl).2

/-- Neither a pointer of a converted allocation nor the address of its slot is returned. -/
theorem free_of_returns (plan : Plan module rewriting)
    (good : RegistersGood module rewriting frame.fn frame.registers)
    (returns : frame.Returns module value) {object : Object Fn} (holds : value = .pointer object) :
    ¬ rewriting.Owns object ∧ ¬ IsSpillSlot module rewriting object := by
  rcases returns with rfl | ⟨body, operand, defined, there, rfl⟩
  · cases holds
  · obtain ⟨keeps, lets⟩ := free_of_use plan good defined there (List.mem_singleton.mpr rfl) holds
    exact ⟨fun owned => (keeps owned).elim fun _ => id, lets⟩

/-- What a function starts with. -/
theorem registersGood_entry {target : Fn} {arguments : List (Value Fn)}
    (heapGood : HeapGood module rewriting heap)
    (kept : ∀ index object, arguments[index]? = some (.pointer object) → rewriting.Owns object →
      module.KeepsParam target index)
    (unspilled : ∀ object, .pointer object ∈ arguments → ¬ IsSpillSlot module rewriting object) :
    RegistersGood module rewriting (Frame.entry target arguments).fn
      (Frame.entry target arguments).registers := by
  intro body defined operand object holds
  have isParam {index : Nat} (same : operand = .param index)
      (given : arguments[index]? = some (.pointer object)) :
      Good module rewriting target body operand object := by
    subst same
    exact {
      owned := fun owned => ⟨_, .inr ⟨index, rfl, kept index object given owned⟩, .root⟩
      spilled := fun spilled => absurd spilled (unspilled object (List.mem_of_getElem? given))
      address := fun _ _ reached => nomatch reached
      stripped := fun fuel _ _ stripped => by cases fuel <;> cases stripped
      followed := fun _ _ reached => nomatch reached }
  cases operand with
  | param index =>
      refine isParam rfl ?_
      simp only [Frame.entry, List.getD_eq_getElem?_getD] at holds
      cases given : arguments[index]? with
      | none => simp [given] at holds
      | some argument =>
          rw [given, Option.getD_some] at holds
          rw [holds]
  | global index =>
      cases holds
      have free := heapGood.known ⟨.foreign, index⟩ (.inl rfl)
      exact {
        owned := fun owned => absurd owned free.1
        spilled := fun spilled => absurd spilled free.2
        address := fun _ _ reached => nomatch reached
        stripped := fun fuel _ _ stripped => by cases fuel <;> cases stripped
        followed := fun _ _ reached => nomatch reached }
  | inst _ | constant => cases holds

end Steps

/-! ## Runs -/

section Runs

variable {before after : State Fn} {events : List (Event Fn)}

theorem stateGood_step (plan : Plan module rewriting) (good : StateGood module rewriting before)
    (step : Step module before events after)
    (followed : ∀ event ∈ events, event.AsFollowed module rewriting) :
    StateGood module rewriting after ∧ ∀ event ∈ events, event.FreesRight rewriting := by
  obtain ⟨heapGood, frames, waits⟩ := good
  cases step with
  | @execute frame rest heap after body inst value _ next defined there effect flows =>
      rw [List.forall_mem_append] at followed
      have top := frames frame List.mem_cons_self
      obtain ⟨heap, result, right⟩ :=
        leaves_of_effect plan heapGood top defined there effect followed.1
      refine ⟨⟨heap, fun other member => ?_, waits⟩, List.forall_mem_append.mpr
        ⟨right, right_of_takes⟩⟩
      rcases List.mem_cons.mp member with same | member
      · cases same
        exact registersGood_goOn plan top defined result followed.2
      · exact frames other (List.mem_cons_of_mem _ member)
  | @call frame rest heap body isInvoke callee arguments target defined there canBe plain inside =>
      rw [List.forall_mem_singleton] at followed
      have top := frames frame List.mem_cons_self
      refine ⟨⟨heapGood, fun other member => ?_, fun other member => ?_⟩,
        by simp [Event.FreesRight]⟩
      · rcases List.mem_cons.mp member with same | member
        · cases same
          refine registersGood_entry heapGood (fun index object given owned =>
            followed index _ given ⟨object, rfl, owned⟩) fun object =>
              not_spilled_of_argument plan top defined there fun called same => ?_
          exact (not_free_of_plain canBe plain same).1
        · exact frames other member
      · rcases List.mem_cons.mp member with same | member
        · cases same
          exact ⟨body, isInvoke, callee, arguments, target, defined, there, canBe, plain⟩
        · exact waits other member
  | @callOut frame rest heap body isInvoke callee arguments target defined there canBe plain
      outside =>
      rw [List.forall_mem_singleton] at followed
      have top := frames frame List.mem_cons_self
      refine ⟨⟨heapGood.expose fun object passed => ⟨fun owned =>
          followed _ passed ⟨object, rfl, owned⟩, ?_⟩, fun other member => ?_,
        fun other member => ?_⟩, by simp [Event.FreesRight]⟩
      · refine not_spilled_of_argument plan top defined there (fun called same => ?_) passed
        exact (not_free_of_plain canBe plain same).1
      · exact frames other (by simpa using member)
      · rcases List.mem_cons.mp member with same | member
        · cases same
          exact ⟨body, isInvoke, callee, arguments, target, defined, there, canBe, plain⟩
        · exact waits other member
  | @ret frame caller rest heap body value next returns defined flows =>
      have top := frames frame List.mem_cons_self
      have below := frames caller (by simp)
      refine ⟨⟨heapGood, fun other member => ?_, fun other member => ?_⟩, right_of_takes⟩
      · rcases List.mem_cons.mp member with same | member
        · cases same
          refine registersGood_goOn plan below defined (fun object holds => ?_) followed
          obtain ⟨unowned, unspilled⟩ := free_of_returns plan top returns holds
          exact good_of_waits plan (waits caller (by simp)) defined unowned unspilled
        · exact frames other (by simp [member])
      · exact waits other (List.mem_cons_of_mem _ member)
  | @retOut frame rest heap value returns =>
      have top := frames frame List.mem_cons_self
      refine ⟨⟨heapGood.expose fun object passed => ?_, fun other member => ?_,
        fun other member => ?_⟩, by simp⟩
      · exact free_of_returns plan top returns (List.mem_singleton.mp passed).symm
      · exact frames other (List.mem_cons_of_mem _ member)
      · exact waits other (List.mem_cons_of_mem _ member)
  | @comeBack caller rest heap body value next known defined flows =>
      have below := frames caller (by simp)
      refine ⟨⟨heapGood, fun other member => ?_, fun other member => ?_⟩, right_of_takes⟩
      · rcases List.mem_cons.mp member with same | member
        · cases same
          refine registersGood_goOn plan below defined (fun object holds => ?_) followed
          obtain ⟨unowned, unspilled⟩ := heapGood.known object (known object holds)
          exact good_of_waits plan (waits caller (by simp)) defined unowned unspilled
        · exact frames other (by simp [member])
      · exact waits other (List.mem_cons_of_mem _ member)
  | @callIn rest heap target arguments known inside =>
      have free {object : Object Fn} (passed : .pointer object ∈ arguments) :=
        heapGood.known object (known _ passed object rfl)
      refine ⟨⟨heapGood, fun other member => ?_, fun other member => ?_⟩, by simp⟩
      · rcases List.mem_cons.mp member with same | member
        · cases same
          exact registersGood_entry heapGood (fun index object given owned =>
            absurd owned (free (List.mem_of_getElem? given)).1) fun object passed =>
              (free passed).2
        · exact frames other member
      · refine waits other ?_
        simpa using member
  | @storeOut rest heap object value knownObject known =>
      refine ⟨⟨heapGood.write fun pointed holds => ?_, frames, waits⟩, by simp⟩
      obtain ⟨unowned, unspilled⟩ := heapGood.known pointed (known pointed holds)
      exact mayHold_of_free unowned unspilled (heapGood.known object knownObject).2
  | @loadOut rest heap object value knownObject held =>
      refine ⟨⟨heapGood.expose fun pointed passed => ?_, frames, waits⟩, by simp⟩
      obtain rfl := List.mem_singleton.mp passed
      exact ⟨fun owned => (heapGood.known object knownObject).2
        (heapGood.owned object pointed held owned), heapGood.spilled object pointed held⟩

theorem stateGood_initial : StateGood module rewriting State.initial where
  heap := {
    known := by
      rintro object (foreign | exposed)
      · refine ⟨?_, ?_⟩
        · rintro ⟨fn, site, -, source⟩
          cases foreign.symm.trans source
        · rintro ⟨fn, body, slot, root, source, -⟩
          cases foreign.symm.trans source
      · cases exposed
    owned := nofun
    spilled := nofun
    followed := nofun }
  frames := by simp [State.initial]
  waits := by simp [State.initial]

theorem freesRight_of_runs (plan : Plan module rewriting) (run : Runs module before events after)
    (good : StateGood module rewriting before)
    (followed : ∀ event ∈ events, event.AsFollowed module rewriting) :
    ∀ event ∈ events, event.FreesRight rewriting := by
  induction run with
  | nil => simp
  | step step _ ih =>
      rw [List.forall_mem_append] at followed
      obtain ⟨next, right⟩ := stateGood_step plan good step followed.1
      exact List.forall_mem_append.mpr ⟨right, ih next followed.2⟩

end Runs
end LifetimeArena
end TopoLlvm
