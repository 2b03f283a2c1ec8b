import TopoLlvm.Transforms.ArenaIR

/-!
# What the escape walk follows

The walk visits the values that an allocation's result reaches by moves and through stack slots.
Where it does not end, every use of such a value is harmless in the walk's terms, and the calls
that it has matched are those that free one of them.
-/

namespace TopoLlvm
namespace LifetimeArena

open Worklist (Verdict Outcome)

namespace Inst

variable {Fn : Type}

/-- The instruction does not let the address of a slot go; a call that frees it does not. -/
def KeepsSlot (frees : Fn → Bool) (address : Operand) : Inst Fn → Prop
  | load _ | gep .. => True
  | store value _ => value ≠ address
  | call false (.direct fn) _ => frees fn = true
  | _ => False

end Inst

namespace Body

variable {Fn : Type} (body : Body Fn)

/-- The values that the walk takes for addresses within a stack slot. -/
inductive SlotAddress (slot : Nat) : Operand → Prop
  | slot : SlotAddress slot (.inst slot)
  | gep {index : Nat} {inst : Inst Fn} {value : Operand} : SlotAddress slot value →
      body.insts[index]? = some inst → inst.isGep = true → value ∈ inst.operands →
      SlotAddress slot (.inst index)

/-- Nothing but loads, and stores of other values, uses the addresses within the slot. -/
def SlotKept (frees : Fn → Bool) (slot : Nat) : Prop :=
  ∀ value, body.SlotAddress slot value → ∀ (index : Nat) (inst : Inst Fn),
    body.insts[index]? = some inst → value ∈ inst.operands → inst.KeepsSlot frees value

/-- The values that a value reaches by moves and through stack slots. -/
inductive Follows (root : Operand) : Operand → Prop
  | root : Follows root root
  | move {index : Nat} {inst : Inst Fn} {value : Operand} : Follows root value →
      body.insts[index]? = some inst → inst.isMove = true → value ∈ inst.operands →
      Follows root (.inst index)
  | reload {index reload slot : Nat} {value address source : Operand} : Follows root value →
      body.insts[index]? = some (.store value address) → address ≠ value →
      body.slotOf address = some slot → body.SlotAddress slot source →
      body.insts[reload]? = some (.load source) → Follows root (.inst reload)

/-- A followed value is stored to the slot. -/
def Spills (root : Operand) (slot : Nat) : Prop :=
  ∃ (index : Nat) (value address : Operand), body.Follows root value ∧
    body.insts[index]? = some (.store value address) ∧ address ≠ value ∧
      body.slotOf address = some slot

/-- The values that a walk may visit. -/
def values (root : Operand) : List Operand :=
  root :: (List.range body.insts.length).map .inst

variable {body}

theorem inst_mem_values {root : Operand} {index : Nat} {inst : Inst Fn}
    (there : body.insts[index]? = some inst) : .inst index ∈ body.values root := by
  obtain ⟨small, -⟩ := List.getElem?_eq_some_iff.mp there
  exact List.mem_cons_of_mem _ (List.mem_map_of_mem (List.mem_range.mpr small))

@[simp] theorem length_values {root : Operand} :
    (body.values root).length = body.insts.length + 1 := by
  simp [values]

/-! ## Stack slots -/

section

variable {order : UseOrder Fn} {slot : Nat}

theorem slotUse_push {address : Operand} {user : Nat} {loads pushed after : List Operand}
    (used : body.slotUse address user loads = .go pushed after) {next : Operand}
    (member : next ∈ pushed) :
    next = .inst user ∧ ∃ inst, body.insts[user]? = some inst ∧ inst.isGep = true := by
  unfold slotUse at used
  split at used
  · cases used
    cases member
  · rename_i there
    cases used
    exact ⟨List.mem_singleton.mp member, _, there, rfl⟩
  · split at used
    · cases used
    · cases used
      cases member
  · cases used

/-- A load that is found reads an address within the slot. -/
def IsLoadOf (body : Body Fn) (slot : Nat) (load : Operand) : Prop :=
  ∃ index source, load = .inst index ∧ body.insts[index]? = some (.load source) ∧
    body.SlotAddress slot source

theorem slotUse_loads {address : Operand} {user : Nat} {loads : List Operand} {inst : Inst Fn}
    (there : body.insts[user]? = some inst) (operand : address ∈ inst.operands)
    (reached : body.SlotAddress slot address)
    (found : ∀ load ∈ loads, body.IsLoadOf slot load) :
    ∀ load ∈ (body.slotUse address user loads).acc, body.IsLoadOf slot load := by
  unfold slotUse
  split
  · rename_i source load
    obtain rfl := Option.some.inj (there.symm.trans load)
    intro next member
    rcases List.mem_append.mp member with member | member
    · exact found next member
    · exact ⟨user, source, List.mem_singleton.mp member, load,
        List.mem_singleton.mp operand ▸ reached⟩
  · exact found
  · split <;> exact found
  · exact found

theorem slotUse_grows (address : Operand) (user : Nat) (loads : List Operand) :
    loads ⊆ (body.slotUse address user loads).acc := by
  unfold slotUse
  split
  · exact List.subset_append_left ..
  · exact List.Subset.refl _
  · split <;> exact List.Subset.refl _
  · exact List.Subset.refl _

theorem slotAddress_of_push (address : Operand) (user : Nat) (loads pushed after : List Operand)
    (reached : body.SlotAddress slot address) (uses : user ∈ order.users body address)
    (used : body.slotUse address user loads = .go pushed after) :
    ∀ next ∈ pushed, body.SlotAddress slot next := by
  intro next member
  obtain ⟨rfl, inst, there, gep⟩ := slotUse_push used member
  obtain ⟨other, same, operand⟩ := (order.mem_users ..).mp uses
  obtain rfl := Option.some.inj (there.symm.trans same)
  exact .gep reached there gep operand

/-- The loads found are exactly the loads from the slot, and its address does not leak. -/
theorem slotLoads_spec {loads : List Operand} (found : body.slotLoads order slot = some loads)
    (frees : Fn → Bool) :
    body.SlotKept frees slot ∧ ∀ load, load ∈ loads ↔ body.IsLoadOf slot load := by
  unfold slotLoads at found
  cases search : body.searchSlot order slot with
  | stopped last => simp [search] at found
  | finished visited last =>
      rw [search] at found
      cases found
      have sound : ∀ load ∈ (body.searchSlot order slot).acc, body.IsLoadOf slot load :=
        Worklist.walk_induction (body.SlotAddress slot)
          (fun loads => ∀ load ∈ loads, body.IsLoadOf slot load) slotAddress_of_push
          (fun address user acc reached uses before => by
            obtain ⟨inst, there, operand⟩ := (order.mem_users ..).mp uses
            exact slotUse_loads there operand reached before)
          .slot (fun _ member => (List.not_mem_nil member).elim)
      rw [search] at sound
      obtain ⟨first, closed⟩ := Worklist.walk_closed (· ⊆ ·) (fun _ => List.Subset.refl _)
        (fun _ _ _ => List.Subset.trans) slotUse_grows
        (fun address user acc pushed after _ used next member => by
          obtain ⟨rfl, inst, there, -⟩ := slotUse_push used member
          exact inst_mem_values there)
        (List.mem_cons_self (l := (List.range body.insts.length).map .inst)) (by simp) search
      have visits : ∀ address, body.SlotAddress slot address → address ∈ visited := by
        intro address reached
        induction reached with
        | slot => exact first
        | @gep index inst value reached there gep operand ih =>
            obtain ⟨before, pushed, after, used, inside, -⟩ :=
              closed value ih index ((order.mem_users ..).mpr ⟨inst, there, operand⟩)
            cases inst <;> cases gep
            simp only [slotUse, there] at used
            cases used
            exact inside List.mem_cons_self
      have uses (address : Operand) (reached : body.SlotAddress slot address) (user : Nat)
          (inst : Inst Fn) (there : body.insts[user]? = some inst)
          (operand : address ∈ inst.operands) :=
        closed address (visits address reached) user
          ((order.mem_users ..).mpr ⟨inst, there, operand⟩)
      refine ⟨fun address reached user inst there operand => ?_, fun load =>
        ⟨sound load, ?_⟩⟩
      · obtain ⟨before, pushed, after, used, -, -⟩ := uses address reached user inst there operand
        simp only [slotUse, there] at used
        cases inst with
        | load _ | gep _ _ _ => trivial
        | store value _ =>
            intro same
            simp [same] at used
        | _ => simp at used
      · rintro ⟨user, source, rfl, there, reached⟩
        obtain ⟨before, pushed, after, used, -, grown⟩ :=
          uses source reached user _ there (List.mem_singleton.mpr rfl)
        simp only [slotUse, there] at used
        cases used
        exact grown (List.mem_append_right _ List.mem_cons_self)

end

end Body

namespace Module

variable {Fn : Type} (module : Module Fn) (scopeFunctions : List Fn) (body : Body Fn)

def frees (fn : Fn) : Bool := isFreeFunction (module.name fn)

/-- The walk goes on at the use, counting it among the calls that free the value; and allocators do
nothing to their arguments. -/
def Harmless (frees : Nat → Prop) (value : Operand) (index : Nat) : Inst Fn → Prop
  | .gep .. | .bitcast _ | .phi _ | .select .. | .load _ => True
  | .store _ address =>
      address = value ∨ ∃ slot, body.slotOf address = some slot ∧ body.SlotKept module.frees slot
  | .call false (.direct fn) _ =>
      if isFreeFunction (module.name fn) then frees index
      else isAllocFunction (module.name fn) = true ∨ isIntrinsic (module.name fn) = true ∨
        fn ∈ scopeFunctions
  | .arenaAlloc isCalloc _ => isCalloc = true
  | _ => False

/-- All uses of the values that the root reaches are harmless. -/
def Confined (frees : Nat → Prop) (root : Operand) : Prop :=
  ∀ value, body.Follows root value → ∀ (index : Nat) (inst : Inst Fn),
    body.insts[index]? = some inst → value ∈ inst.operands →
      module.Harmless scopeFunctions body frees value index inst

variable [DecidableEq Fn] {module scopeFunctions body} {order : UseOrder Fn} {root : Operand}

theorem use_push {value : Operand} {user : Nat} {frees after : List Nat}
    {pushed : List Operand}
    (used : module.use order scopeFunctions body value user frees = .go pushed after)
    {inst : Inst Fn} (there : body.insts[user]? = some inst) {next : Operand}
    (member : next ∈ pushed) :
    inst.isMove = true ∧ next = .inst user ∨
      ∃ stored address slot loads, inst = .store stored address ∧ address ≠ value ∧
        body.slotOf address = some slot ∧ body.slotLoads order slot = some loads ∧
          next ∈ loads := by
  simp only [use, there] at used
  cases inst with
  | gep inBounds base indices =>
      cases used
      exact .inl ⟨rfl, List.mem_singleton.mp member⟩
  | bitcast source =>
      cases used
      exact .inl ⟨rfl, List.mem_singleton.mp member⟩
  | phi incoming =>
      cases used
      exact .inl ⟨rfl, List.mem_singleton.mp member⟩
  | select condition onTrue onFalse =>
      cases used
      exact .inl ⟨rfl, List.mem_singleton.mp member⟩
  | load address =>
      cases used
      cases member
  | store stored address =>
      dsimp only at used
      split at used
      · cases used
        cases member
      · rename_i other
        cases found : (body.slotOf address).bind (body.slotLoads order) with
        | none => simp [found] at used
        | some loads =>
            rw [found] at used
            cases used
            obtain ⟨slot, strip, loaded⟩ := Option.bind_eq_some_iff.mp found
            exact .inr ⟨stored, address, slot, pushed, rfl, other, strip, loaded, member⟩
  | call isInvoke callee arguments =>
      cases isInvoke <;> cases callee <;> simp only at used
      · split at used
        · cases used
          cases member
        · split at used
          · cases used
            cases member
          · split at used <;> cases used
            cases member
      all_goals cases used
  | arenaAlloc isCalloc sizes =>
      cases isCalloc <;> cases used
      cases member
  | _ => cases used

theorem follows_of_push (value : Operand) (user : Nat) (frees : List Nat)
    (pushed : List Operand) (after : List Nat) (reached : body.Follows root value)
    (uses : user ∈ order.users body value)
    (used : module.use order scopeFunctions body value user frees = .go pushed after) :
    ∀ next ∈ pushed, body.Follows root next := by
  intro next member
  obtain ⟨inst, there, operand⟩ := (order.mem_users ..).mp uses
  rcases use_push used there member with
    ⟨move, rfl⟩ | ⟨stored, address, slot, loads, rfl, other, strip, loaded, inside⟩
  · exact .move reached there move operand
  · obtain ⟨reload, source, rfl, load, reads⟩ :=
      ((Body.slotLoads_spec loaded fun _ => false).2 next).mp inside
    have same : value = stored := by
      rcases List.mem_cons.mp operand with same | same
      · exact same
      · exact absurd (List.mem_singleton.mp same).symm other
    subst same
    exact .reload reached there other strip reads load

theorem use_grows (value : Operand) (user : Nat) (frees : List Nat) :
    frees ⊆ (module.use order scopeFunctions body value user frees).acc := by
  unfold use
  split <;> try exact List.Subset.refl _
  · split
    · exact List.Subset.refl _
    · split <;> exact List.Subset.refl _
  · split
    · dsimp only [Verdict.acc]
      split
      · exact List.Subset.refl _
      · exact List.subset_append_left ..
    · split
      · exact List.Subset.refl _
      · split <;> exact List.Subset.refl _
  · split <;> exact List.Subset.refl _

/-- A call that frees a value that the root reaches. -/
def FreesFollowed (module : Module Fn) (body : Body Fn) (root : Operand) (index : Nat) : Prop :=
  ∃ value fn arguments, body.Follows root value ∧
    body.insts[index]? = some (.call false (.direct fn) arguments) ∧
      isFreeFunction (module.name fn) = true ∧ value ∈ arguments

/-- Only a call that frees the value is added. -/
theorem use_acc {value : Operand} {user : Nat} {frees : List Nat} {inst : Inst Fn}
    (there : body.insts[user]? = some inst) {index : Nat}
    (member : index ∈ (module.use order scopeFunctions body value user frees).acc) :
    index ∈ frees ∨ index = user ∧ ∃ fn arguments, inst = .call false (.direct fn) arguments ∧
      isFreeFunction (module.name fn) = true := by
  simp only [use, there] at member
  cases inst with
  | store stored address =>
      refine .inl ?_
      dsimp only at member
      split at member
      · exact member
      · split at member <;> exact member
  | call isInvoke callee arguments =>
      cases isInvoke <;> cases callee <;> simp only at member
      · split at member
        · rename_i fn free
          dsimp only [Verdict.acc] at member
          split at member
          · exact .inl member
          · rcases List.mem_append.mp member with member | member
            · exact .inl member
            · exact .inr ⟨List.mem_singleton.mp member, fn, arguments, rfl, free⟩
        · refine .inl ?_
          split at member
          · exact member
          · split at member <;> exact member
      all_goals exact .inl member
  | arenaAlloc isCalloc sizes => cases isCalloc <;> exact .inl member
  | _ => exact .inl member

theorem use_frees (value : Operand) (user : Nat) (frees : List Nat)
    (reached : body.Follows root value) (uses : user ∈ order.users body value)
    (found : ∀ index ∈ frees, module.FreesFollowed body root index) :
    ∀ index ∈ (module.use order scopeFunctions body value user frees).acc,
      module.FreesFollowed body root index := by
  intro index member
  obtain ⟨inst, there, operand⟩ := (order.mem_users ..).mp uses
  rcases use_acc there member with member | ⟨rfl, fn, arguments, rfl, free⟩
  · exact found index member
  · exact ⟨value, fn, arguments, reached, there, free, operand⟩

/-- The calls that a walk has matched free values that it has reached, also if it was ended. -/
theorem freesFollowed_of_escapesScope :
    ∀ index ∈ (module.escapesScope order scopeFunctions body root).acc,
      module.FreesFollowed body root index :=
  Worklist.walk_induction (body.Follows root)
    (fun frees => ∀ index ∈ frees, module.FreesFollowed body root index) follows_of_push
    (fun value user frees reached uses found => use_frees value user frees reached uses found)
    .root (fun _ member => (List.not_mem_nil member).elim)

/-- A walk that is not ended has met only harmless uses, and all calls that free a value. -/
theorem confined_of_escapesScope {visited : List Operand} {frees : List Nat}
    (stays : module.escapesScope order scopeFunctions body root = .finished visited frees) :
    module.Confined scopeFunctions body (· ∈ frees) root := by
  obtain ⟨first, closed⟩ := Worklist.walk_closed (· ⊆ ·) (fun _ => List.Subset.refl _)
    (fun _ _ _ => List.Subset.trans) use_grows
    (fun value user frees pushed after uses used next member => by
      obtain ⟨inst, there, -⟩ := (order.mem_users ..).mp uses
      rcases use_push used there member with
        ⟨-, rfl⟩ | ⟨stored, address, slot, loads, -, -, -, loaded, inside⟩
      · exact Body.inst_mem_values there
      · obtain ⟨reload, source, rfl, load, -⟩ :=
          ((Body.slotLoads_spec loaded fun _ => false).2 next).mp inside
        exact Body.inst_mem_values load)
    (List.mem_cons_self (l := (List.range body.insts.length).map .inst)) (by simp) stays
  have uses (value : Operand) (member : value ∈ visited) (index : Nat) (inst : Inst Fn)
      (there : body.insts[index]? = some inst) (operand : value ∈ inst.operands) :=
    closed value member index ((order.mem_users ..).mpr ⟨inst, there, operand⟩)
  have visits : ∀ value, body.Follows root value → value ∈ visited := by
    intro value reached
    induction reached with
    | root => exact first
    | @move index inst value reached there move operand ih =>
        obtain ⟨before, pushed, after, used, inside, -⟩ := uses value ih index inst there operand
        cases inst <;> cases move <;> simp only [use, there] at used <;> cases used <;>
          exact inside List.mem_cons_self
    | @reload index reload slot value address source reached there other strip reads load ih =>
        obtain ⟨before, pushed, after, used, inside, -⟩ :=
          uses value ih index _ there List.mem_cons_self
        simp only [use, there, if_neg other, strip, Option.bind_some] at used
        cases loaded : body.slotLoads order slot with
        | none => simp [loaded] at used
        | some loads =>
            rw [loaded] at used
            cases used
            exact inside (((Body.slotLoads_spec loaded fun _ => false).2 _).mpr
              ⟨reload, source, rfl, load, reads⟩)
  intro value reached index inst there operand
  obtain ⟨before, pushed, after, used, -, grown⟩ :=
    uses value (visits value reached) index inst there operand
  simp only [use, there] at used
  cases inst with
  | gep _ _ _ | bitcast _ | phi _ | select _ _ _ | load _ => trivial
  | store stored address =>
      by_cases same : address = value
      · exact .inl same
      · dsimp only at used
        rw [if_neg same] at used
        cases found : (body.slotOf address).bind (body.slotLoads order) with
        | none => simp [found] at used
        | some loads =>
            obtain ⟨slot, strip, loaded⟩ := Option.bind_eq_some_iff.mp found
            exact .inr ⟨slot, strip, (Body.slotLoads_spec loaded _).1⟩
  | call isInvoke callee arguments =>
      cases isInvoke <;> cases callee <;> simp only at used
      · unfold Harmless
        split at used
        · rename_i free
          simp only [free, if_true]
          cases used
          refine grown ?_
          split
          · assumption
          · exact List.mem_append_right _ List.mem_cons_self
        · rename_i other
          simp only [other]
          split at used
          · exact .inr (.inl ‹_›)
          · split at used
            · exact .inr (.inr ‹_›)
            · cases used
      all_goals cases used
  | arenaAlloc isCalloc sizes =>
      cases isCalloc
      · cases used
      · rfl
  | _ => cases used

end Module
end LifetimeArena
end TopoLlvm
