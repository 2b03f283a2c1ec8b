import TopoLlvm.Library.Trail
import TopoLlvm.Transforms.ArenaPlan

/-!
# Frees of escaping allocations

The escape walk returns at the first escaping use, with the calls it has matched so far.  So what an
escaping allocation adds to the calls that are never erased depends on the order of the uses.
-/

namespace TopoLlvm
namespace LifetimeArena

open TopoLlvm.Runtime (Name)
open Worklist (Verdict Outcome Uniform)

namespace Body

variable {Fn : Type} {body : Body Fn}

/-- The loads from a slot are found unless its address leaks, in whatever order it is looked at. -/
theorem slotLoads_eq_none_iff (order : UseOrder Fn) (slot : Nat) :
    body.slotLoads order slot = none ↔ ¬ body.SlotKept (fun _ => false) slot := by
  constructor
  · intro leaked kept
    unfold slotLoads at leaked
    cases search : body.searchSlot order slot with
    | finished visited loads => simp [search] at leaked
    | stopped last =>
        obtain ⟨address, user, before, reached, uses, stops⟩ :=
          Worklist.exists_stop_of_walk (body.SlotAddress slot) slotAddress_of_push .slot search
        obtain ⟨inst, there, operand⟩ := (order.mem_users ..).mp uses
        have keeps := kept address reached user inst there operand
        simp only [slotUse, there] at stops
        cases inst with
        | load _ | gep _ _ _ => cases stops
        | store value _ =>
            dsimp only at stops
            rw [if_neg keeps] at stops
            cases stops
        | call isInvoke callee _ => cases isInvoke <;> cases callee <;> cases keeps
        | _ => exact keeps
  · intro leaks
    cases found : body.slotLoads order slot with
    | none => rfl
    | some loads => exact absurd (slotLoads_spec found fun _ => false).1 leaks

variable (body) in
/-- The instruction has the value among its operands. -/
def Uses (user : Nat) (value : Operand) : Prop :=
  ∃ inst, body.insts[user]? = some inst ∧ value ∈ inst.operands

end Body

namespace Module

variable {Fn : Type} (module : Module Fn) (order : UseOrder Fn) (scopeFunctions : List Fn)
  (body : Body Fn)

/-- The walk returns at the use. -/
def Escapes (value : Operand) (user : Nat) : Prop :=
  match body.insts[user]? with
  | some (.gep ..) | some (.bitcast _) | some (.phi _) | some (.select ..) | some (.load _) => False
  | some (.store _ address) =>
      address ≠ value ∧
        ∀ slot, body.slotOf address = some slot → ¬ body.SlotKept (fun _ => false) slot
  | some (.call false (.direct fn) _) =>
      isFreeFunction (module.name fn) = false ∧ isIntrinsic (module.name fn) = false ∧
        fn ∉ scopeFunctions
  | some (.arenaAlloc isCalloc _) => isCalloc = false
  | _ => True

/-- The values that the walk goes on with. -/
def pushes (value : Operand) (user : Nat) : List Operand :=
  match body.insts[user]? with
  | some (.gep ..) | some (.bitcast _) | some (.phi _) | some (.select ..) => [.inst user]
  | some (.store _ address) =>
      if address = value then [] else ((body.slotOf address).bind (body.slotLoads order)).getD []
  | _ => []

/-- Record the call if it is one that frees. -/
def addFree (matchedFrees : List Nat) (one : Operand × Nat) : List Nat :=
  match body.insts[one.2]? with
  | some (.call false (.direct fn) _) =>
      if isFreeFunction (module.name fn) then
        if one.2 ∈ matchedFrees then matchedFrees else matchedFrees ++ [one.2]
      else matchedFrees
  | _ => matchedFrees

variable [DecidableEq Fn]

theorem uniform_use : Uniform (module.use order scopeFunctions body)
    (fun one => module.Escapes scopeFunctions body one.1 one.2) (pushes order body)
    (module.addFree body) where
  stop value user frees escapes := by
    cases there : body.insts[user]? with
    | none => simp only [use, there]
    | some inst =>
        simp only [Escapes, there] at escapes
        simp only [use, there]
        cases inst with
        | gep _ _ _ | bitcast _ | phi _ | select _ _ _ | load _ => exact escapes.elim
        | store stored address =>
            have none : (body.slotOf address).bind (body.slotLoads order) = none := by
              refine Option.bind_eq_none_iff.mpr fun slot strip => ?_
              exact (Body.slotLoads_eq_none_iff order slot).mpr (escapes.2 slot strip)
            dsimp only
            rw [if_neg escapes.1, none]
        | call isInvoke callee arguments =>
            cases isInvoke <;> cases callee
            · simp only [escapes.1, escapes.2.1, Bool.false_eq_true, if_false, if_neg escapes.2.2]
            all_goals rfl
        | arenaAlloc isCalloc _ =>
            rw [show isCalloc = false from escapes]
            rfl
        | _ => rfl
  go value user frees stays := by
    cases there : body.insts[user]? with
    | none => simp [Escapes, there] at stays
    | some inst =>
        simp only [Escapes, there] at stays
        simp only [use, pushes, addFree, there]
        cases inst with
        | gep _ _ _ | bitcast _ | phi _ | select _ _ _ | load _ => rfl
        | store stored address =>
            dsimp only
            by_cases same : address = value
            · rw [if_pos same, if_pos same]
            · rw [if_neg same, if_neg same]
              cases found : (body.slotOf address).bind (body.slotLoads order) with
              | some loads => rfl
              | none =>
                  refine absurd ⟨same, fun slot strip => ?_⟩ stays
                  exact (Body.slotLoads_eq_none_iff order slot).mp
                    (Option.bind_eq_none_iff.mp found slot strip)
        | call isInvoke callee arguments =>
            cases isInvoke <;> cases callee
            · rename_i fn
              dsimp only at stays ⊢
              by_cases free : isFreeFunction (module.name fn) = true
              · rw [if_pos free, if_pos free]
              · rw [if_neg free, if_neg free]
                by_cases intrinsic : isIntrinsic (module.name fn) = true
                · rw [if_pos intrinsic]
                · rw [if_neg intrinsic, if_pos]
                  by_contra outside
                  exact stays ⟨Bool.eq_false_iff.mpr free, Bool.eq_false_iff.mpr intrinsic, outside⟩
            all_goals exact absurd trivial stays
        | arenaAlloc isCalloc _ =>
            rw [show isCalloc = true from Bool.not_eq_false isCalloc ▸ stays]
            rfl
        | _ => exact absurd trivial stays

/-- The uses of what an allocation reaches, as the walk would look at them if it never returned. -/
def usesInOrder (root : Operand) : List (Operand × Nat) :=
  Worklist.trail (pushes order body) (order.users body) (body.insts.length + 1) root

/-- A call that frees one of its arguments. -/
def IsFree (index : Nat) : Prop :=
  ∃ fn arguments, body.insts[index]? = some (.call false (.direct fn) arguments) ∧
    isFreeFunction (module.name fn) = true

variable {module order scopeFunctions body} {root : Operand}

omit [DecidableEq Fn] in
theorem mem_foldl_addFree {index : Nat} (isFree : module.IsFree body index)
    (uses : List (Operand × Nat)) (frees : List Nat) :
    index ∈ uses.foldl (module.addFree body) frees ↔
      index ∈ frees ∨ ∃ value, (value, index) ∈ uses := by
  obtain ⟨fn, arguments, there, free⟩ := isFree
  induction uses generalizing frees with
  | nil => simp
  | cons one uses ih =>
      have here : index ∈ module.addFree body frees one ↔ index ∈ frees ∨ one.2 = index := by
        by_cases same : one.2 = index
        · simp only [addFree, same, there, free, if_true, or_true, iff_true]
          split
          · assumption
          · exact List.mem_append_right _ List.mem_cons_self
        · rw [or_iff_left same, addFree]
          split
          · split
            · split
              · rfl
              · rw [List.mem_append, List.mem_singleton, or_iff_left (Ne.symm same)]
            · rfl
          · rfl
      have first : one.2 = index ↔ ∃ value, (value, index) = one :=
        ⟨fun same => ⟨one.1, Prod.ext rfl same.symm⟩, fun ⟨_, same⟩ => same ▸ rfl⟩
      rw [List.foldl_cons, ih, here, first, or_assoc, ← exists_or]
      simp only [List.mem_cons]

variable (module order scopeFunctions body root) in
/-- The walk has matched the calls that free before its first escaping use. -/
theorem escapesScope_cases :
    ((∀ one ∈ usesInOrder order body root, ¬ module.Escapes scopeFunctions body one.1 one.2) ∧
        ∃ visited frees, module.escapesScope order scopeFunctions body root =
          .finished visited frees) ∨
      ∃ before, Worklist.EndsAt (fun one => module.Escapes scopeFunctions body one.1 one.2)
          (usesInOrder order body root) before ∧
        module.escapesScope order scopeFunctions body root =
          .stopped (before.foldl (module.addFree body) []) := by
  rcases Worklist.walk_trail (uniform_use module order scopeFunctions body) with
    ⟨none, visited, finished⟩ | stopped
  · exact .inl ⟨none, visited, _, finished⟩
  · exact .inr stopped

/-- All calls that free what an escaping allocation reaches are matched exactly where each of them is
met before every escaping use. -/
theorem matched_iff (order : UseOrder Fn) :
    (∀ frees, module.escapesScope order scopeFunctions body root = .stopped frees →
        ∀ index, module.FreesFollowed body root index → index ∈ frees) ↔
      ∀ before last after, usesInOrder order body root = before ++ last :: after →
        module.Escapes scopeFunctions body last.1 last.2 →
          ∀ index, module.FreesFollowed body root index → ∃ value, (value, index) ∈ before := by
  have isFree {index : Nat} (followed : module.FreesFollowed body root index) :
      module.IsFree body index := by
    obtain ⟨value, fn, arguments, -, there, free, -⟩ := followed
    exact ⟨fn, arguments, there, free⟩
  have mem {index : Nat} (followed : module.FreesFollowed body root index)
      (uses : List (Operand × Nat)) :
      index ∈ uses.foldl (module.addFree body) [] ↔ ∃ value, (value, index) ∈ uses := by
    rw [mem_foldl_addFree (isFree followed)]
    exact or_iff_right List.not_mem_nil
  constructor
  · intro complete before last after split escapes index followed
    rcases escapesScope_cases module order scopeFunctions body root with
      ⟨none, -⟩ | ⟨earlier, ends, stopped⟩
    · exact absurd escapes (none last (split ▸ List.mem_append_right _ List.mem_cons_self))
    · obtain ⟨value, member⟩ := (mem followed earlier).mp (complete _ stopped index followed)
      exact ⟨value, ends.subset split escapes member⟩
  · intro met frees stopped index followed
    rcases escapesScope_cases module order scopeFunctions body root with
      ⟨-, visited, frees', finished⟩ | ⟨before, ⟨-, last, after, escapes, split⟩, ended⟩
    · rw [finished] at stopped
      cases stopped
    · rw [ended] at stopped
      cases stopped
      exact (mem followed before).mpr (met before last after split escapes index followed)

/-! ## Every order of the uses -/

/-- The values that the root reaches through values that the call does not use. -/
inductive FollowsBefore (body : Body Fn) (root : Operand) (call : Nat) : Operand → Prop
  | root : FollowsBefore body root call root
  | move {index : Nat} {inst : Inst Fn} {value : Operand} : FollowsBefore body root call value →
      ¬ body.Uses call value → body.insts[index]? = some inst → inst.isMove = true →
      value ∈ inst.operands → FollowsBefore body root call (.inst index)
  | reload {index reload slot : Nat} {value address source : Operand} :
      FollowsBefore body root call value → ¬ body.Uses call value →
      body.insts[index]? = some (.store value address) → address ≠ value →
      body.slotOf address = some slot → body.SlotAddress slot source →
      body.insts[reload]? = some (.load source) → FollowsBefore body root call (.inst reload)

omit [DecidableEq Fn] in
theorem followsBefore_of_route {call : Nat} {value : Operand}
    (route : Worklist.Route (pushes order body) (order.users body)
      (fun value => ∃ user ∈ order.users body value, user = call) root value) :
    FollowsBefore body root call value := by
  have uses {value : Operand} (used : body.Uses call value) :
      ∃ user ∈ order.users body value, user = call :=
    ⟨call, (order.mem_users ..).mpr used, rfl⟩
  induction route with
  | root => exact .root
  | @step value next user _ apart uses' pushed ih =>
      obtain ⟨inst, there, operand⟩ := (order.mem_users ..).mp uses'
      have unused := mt uses apart
      simp only [pushes, there] at pushed
      cases inst with
      | gep _ _ _ | bitcast _ | phi _ | select _ _ _ =>
          obtain rfl := List.mem_singleton.mp pushed
          exact .move ih unused there rfl operand
      | store stored address =>
          dsimp only at pushed
          split at pushed
          · cases pushed
          · rename_i other
            cases found : (body.slotOf address).bind (body.slotLoads order) with
            | none => simp [found] at pushed
            | some loads =>
                rw [found] at pushed
                obtain ⟨slot, strip, loaded⟩ := Option.bind_eq_some_iff.mp found
                obtain ⟨reload, source, rfl, load, reads⟩ :=
                  ((Body.slotLoads_spec loaded fun _ => false).2 next).mp pushed
                obtain rfl : value = stored := by
                  rcases List.mem_cons.mp operand with same | same
                  · exact same
                  · exact absurd (List.mem_singleton.mp same).symm other
                exact .reload ih unused there other strip reads load
      | _ => cases pushed

/-- Where the root reaches no escaping use but through values that the call frees, the call is
matched in every order of the uses. -/
theorem matched_of_followsBefore {index : Nat} (followed : module.FreesFollowed body root index)
    (first : ∀ value, FollowsBefore body root index value → ∀ user, body.Uses user value →
      ¬ module.Escapes scopeFunctions body value user) (order : UseOrder Fn) {frees : List Nat}
    (stopped : module.escapesScope order scopeFunctions body root = .stopped frees) :
    index ∈ frees := by
  obtain ⟨value, fn, arguments, -, there, free, -⟩ := followed
  rcases escapesScope_cases module order scopeFunctions body root with
    ⟨-, visited, frees', finished⟩ | ⟨before, ⟨-, last, after, escapes, split⟩, ended⟩
  · rw [finished] at stopped
    cases stopped
  · rw [ended] at stopped
    cases stopped
    refine (mem_foldl_addFree ⟨fn, arguments, there, free⟩ before []).mpr (.inr ?_)
    by_contra absent
    have route := Worklist.route_of_trail (· = index) split fun one member same =>
      absent ⟨one.1, same ▸ member⟩
    have member : last ∈ usesInOrder order body root :=
      split ▸ List.mem_append_right _ List.mem_cons_self
    have uses := Worklist.uses_of_mem_trailFrom member
    exact first last.1 (followsBefore_of_route route) last.2 ((order.mem_users ..).mp uses) escapes

/-! ## What a scope collects -/

variable (module order scopeFunctions body root) in
/-- The calls that an allocation adds where its result escapes. -/
def contributedFrees : List Nat :=
  match module.escapesScope order scopeFunctions body root with
  | .stopped frees => frees
  | .finished _ _ => []

/-- What is never erased is what the allocations of the scope's functions add. -/
theorem mem_escapingFrees {group : Group Fn} {info : ScopeInfo Fn}
    (found : module.discoverScope group = some info) (fn : Fn) (index : Nat) :
    (fn, index) ∈ info.escapingFrees ↔
      ∃ body call, fn ∈ info.scopeFuncsIR ∧ module.body fn = some body ∧
        call ∈ module.findAllocSites body ∧
          index ∈ module.contributedFrees group.order info.scopeFuncsIR body (.inst call) := by
  unfold discoverScope at found
  split at found
  · cases found
  · obtain ⟨owner, -, found⟩ := Option.bind_eq_some_iff.mp found
    dsimp only at found
    split at found
    · cases found
    · cases found
      rw [List.mem_flatMap]
      constructor
      · rintro ⟨⟨owner, call, outcome⟩, walked, member⟩
        obtain ⟨covered, body, defined, site, rfl⟩ := mem_walks.mp walked
        refine ⟨body, call, ?_⟩
        cases result : module.escapesScope _ _ body (.inst call) with
        | finished =>
            rw [result] at member
            cases member
        | stopped frees =>
            rw [result] at member
            obtain ⟨_, freed, same⟩ := List.mem_map.mp member
            cases same
            rw [contributedFrees, result]
            exact ⟨covered, defined, site, freed⟩
      · rintro ⟨body, call, covered, defined, site, matched⟩
        refine ⟨(fn, call, _), mem_walks.mpr ⟨covered, body, defined, site, rfl⟩, ?_⟩
        rw [contributedFrees] at matched
        cases result : module.escapesScope _ _ body (.inst call) with
        | finished =>
            rw [result] at matched
            cases matched
        | stopped frees =>
            rw [result] at matched
            exact List.mem_map_of_mem matched

variable (module) in
/-- What an escaping allocation adds has all calls that free what it reaches exactly where, in the
order of the uses, each of them is met before every escaping use; this is so in every order for a
call without which no escaping use is reached. -/
theorem escapingFrees_complete_iff :
    (∀ (group : Group Fn) (info : ScopeInfo Fn), module.discoverScope group = some info →
      ∀ fn index, (fn, index) ∈ info.escapingFrees ↔
        ∃ body call, fn ∈ info.scopeFuncsIR ∧ module.body fn = some body ∧
          call ∈ module.findAllocSites body ∧
            index ∈ module.contributedFrees group.order info.scopeFuncsIR body (.inst call)) ∧
      (∀ (order : UseOrder Fn) (scopeFunctions : List Fn) (body : Body Fn) (root : Operand),
        (∀ frees, module.escapesScope order scopeFunctions body root = .stopped frees →
            ∀ index, module.FreesFollowed body root index → index ∈ frees) ↔
          ∀ before last after, usesInOrder order body root = before ++ last :: after →
            module.Escapes scopeFunctions body last.1 last.2 →
              ∀ index, module.FreesFollowed body root index →
                ∃ value, (value, index) ∈ before) ∧
      ∀ (scopeFunctions : List Fn) (body : Body Fn) (root : Operand) (index : Nat),
        module.FreesFollowed body root index →
          (∀ value, FollowsBefore body root index value → ∀ user, body.Uses user value →
            ¬ module.Escapes scopeFunctions body value user) →
          ∀ (order : UseOrder Fn) (frees : List Nat),
            module.escapesScope order scopeFunctions body root = .stopped frees → index ∈ frees :=
  ⟨fun _ _ found => mem_escapingFrees found, fun order _ _ _ => matched_iff order,
    fun _ _ _ _ followed first order _ => matched_of_followsBefore followed first order⟩

/-- Keeps what it has allocated on both sides of a call that frees it. -/
def keepingBody : Body Name where
  insts := [.call false (.direct "malloc".toList) [.constant],
    .call false (.direct "keep".toList) [.inst 0],
    .other [.param 0],
    .call false (.direct "free".toList) [.inst 0],
    .call false (.direct "keep".toList) [.inst 0],
    .ret none]
  next index := if index = 2 then [3, 4] else if index = 3 then [5] else [index + 1]
  phisAt _ := []
  typed := by simp [Inst.indices]

def keeping : Module Name where
  name := id
  body fn := if fn = "build".toList then some keepingBody else none

theorem keeping_loses_free :
    keeping.escapesScope .inOrder ["build".toList] keepingBody (.inst 0) = .stopped [] ∧
      keeping.FreesFollowed keepingBody (.inst 0) 3 :=
  ⟨rfl, .inst 0, "free".toList, [.inst 0], .root, rfl, rfl, List.mem_singleton.mpr rfl⟩

end Module
end LifetimeArena
end TopoLlvm
