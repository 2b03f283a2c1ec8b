import TopoLlvm.Transforms.ArenaPass

/-!
# What the arena pass has decided

Groups are converted one after the other, each in the module that the earlier ones have left.  In
terms of the original module: a converted allocation is confined, up to calls that are erased, and
an erased call frees a value that its one claiming allocation reaches.
-/

namespace TopoLlvm
namespace LifetimeArena

open Worklist (Outcome)

variable {Fn : Type} [DecidableEq Fn]

/-- The rewriting touches calls only: it converts allocations and erases calls that free. -/
def Rewriting.Touches (rewriting : Rewriting Fn) (module : Module Fn) (fn : Fn) (body : Body Fn) :
    Prop :=
  (∀ index, rewriting.Erases fn index → ∃ callee arguments,
    body.insts[index]? = some (.call false (.direct callee) arguments) ∧
      isFreeFunction (module.name callee) = true) ∧
  ∀ index, rewriting.Converts fn index → ∃ callee arguments,
    body.insts[index]? = some (.call false (.direct callee) arguments) ∧
      isAllocFunction (module.name callee) = true

/-! ## One rewriting -/

section Rewrite

variable {module : Module Fn} {rewriting : Rewriting Fn} {fn : Fn} {body : Body Fn} {index : Nat}
  {inst : Inst Fn}

theorem not_free_of_alloc {name : TopoLlvm.Runtime.Name} (allocates : isAllocFunction name = true) :
    isFreeFunction name = false := by
  have apart : (["malloc", "_Znwm", "_Znwj", "_Znam", "_Znaj", "calloc"].map String.toList).all
      (fun name => !isFreeFunction name) = true := by decide
  simpa using List.all_eq_true.mp apart name (List.contains_iff_mem.mp allocates)

theorem insts_rewriteBody : (module.rewriteBody rewriting fn body).insts[index]? =
    body.insts[index]?.map (module.rewriteInst rewriting fn index) :=
  List.getElem?_mapIdx

theorem rewriteInst_shapes : module.rewriteInst rewriting fn index inst = inst ∨
    module.rewriteInst rewriting fn index inst = .erased ∨
      ∃ isCalloc sizes, module.rewriteInst rewriting fn index inst = .arenaAlloc isCalloc sizes := by
  unfold Module.rewriteInst
  split
  · split
    · exact .inr (.inl rfl)
    · split
      · exact .inr (.inr ⟨_, _, rfl⟩)
      · exact .inl rfl
  · exact .inl rfl

/-- What is not a direct call stays. -/
theorem rewriteInst_eq_of_not_call
    (other : ∀ isInvoke callee arguments, inst ≠ .call isInvoke (.direct callee) arguments) :
    module.rewriteInst rewriting fn index inst = inst := by
  unfold Module.rewriteInst
  split
  · exact absurd rfl (other _ _ _)
  · rfl

/-- An instruction of the rewritten body that is neither a conversion nor an erasure was there. -/
theorem insts_of_rewriteBody
    (there : (module.rewriteBody rewriting fn body).insts[index]? = some inst)
    (arena : ∀ isCalloc sizes, inst ≠ .arenaAlloc isCalloc sizes) (kept : inst ≠ .erased) :
    body.insts[index]? = some inst := by
  rw [insts_rewriteBody] at there
  obtain ⟨original, found, rfl⟩ := Option.map_eq_some_iff.mp there
  have shapes : module.rewriteInst rewriting fn index original = original ∨ _ := rewriteInst_shapes
  rcases shapes with same | gone | ⟨isCalloc, sizes, converted⟩
  · rw [same, found]
  · exact absurd gone kept
  · exact absurd converted (arena isCalloc sizes)

theorem rewriteBody_of_insts (there : body.insts[index]? = some inst)
    (other : ∀ isInvoke callee arguments, inst ≠ .call isInvoke (.direct callee) arguments) :
    (module.rewriteBody rewriting fn body).insts[index]? = some inst := by
  rw [insts_rewriteBody, there, Option.map_some, rewriteInst_eq_of_not_call other]

theorem isAlloca_rewriteBody :
    (module.rewriteBody rewriting fn body).isAlloca index = body.isAlloca index := by
  rw [Body.isAlloca, Body.isAlloca, insts_rewriteBody]
  cases body.insts[index]? with
  | none => rfl
  | some inst => exact Module.rewriteInst_kinds.1

theorem stripOffsets_rewriteBody (fuel : Nat) (value : Operand) :
    (module.rewriteBody rewriting fn body).stripOffsets fuel value =
      body.stripOffsets fuel value := by
  induction fuel generalizing value with
  | zero => cases value <;> rfl
  | succ fuel ih =>
      cases value with
      | inst index =>
          simp only [Body.stripOffsets, insts_rewriteBody]
          cases there : body.insts[index]? with
          | none => rfl
          | some inst =>
              rw [Option.map_some]
              cases inst with
              | call isInvoke callee arguments =>
                  cases callee with
                  | indirect address => rfl
                  | direct callee =>
                      by_cases erases : rewriting.Erases fn index
                      · simp [Module.rewriteInst, erases]
                      · by_cases converts : rewriting.Converts fn index <;>
                          simp [Module.rewriteInst, erases, converts]
              | gep inBounds base indices =>
                  cases inBounds
                  · rfl
                  · exact ih base
              | bitcast source => exact ih source
              | _ => rfl
      | _ => rfl

theorem slotOf_rewriteBody (address : Operand) :
    (module.rewriteBody rewriting fn body).slotOf address = body.slotOf address := by
  have length : (module.rewriteBody rewriting fn body).insts.length = body.insts.length :=
    List.length_mapIdx
  simp only [Body.slotOf, Body.stripInBoundsOffsets, length, stripOffsets_rewriteBody,
    isAlloca_rewriteBody]

theorem slotAddress_rewriteBody {slot : Nat} {value : Operand} :
    (module.rewriteBody rewriting fn body).SlotAddress slot value ↔
      body.SlotAddress slot value := by
  constructor
  · intro reached
    induction reached with
    | slot => exact .slot
    | gep _ there gep operand ih =>
        exact .gep ih (insts_of_rewriteBody there (by rintro _ _ rfl; cases gep)
          (by rintro rfl; cases gep)) gep operand
  · intro reached
    induction reached with
    | slot => exact .slot
    | gep _ there gep operand ih =>
        exact .gep ih (rewriteBody_of_insts there (by rintro _ _ _ rfl; cases gep)) gep operand

theorem follows_rewriteBody {root value : Operand} :
    (module.rewriteBody rewriting fn body).Follows root value ↔ body.Follows root value := by
  constructor
  · intro reached
    induction reached with
    | root => exact .root
    | move _ there move operand ih =>
        exact .move ih (insts_of_rewriteBody there (by rintro _ _ rfl; cases move)
          (by rintro rfl; cases move)) move operand
    | reload _ there other strip reads load ih =>
        exact .reload ih (insts_of_rewriteBody there nofun nofun) other
          ((slotOf_rewriteBody _).symm.trans strip) (slotAddress_rewriteBody.mp reads)
          (insts_of_rewriteBody load nofun nofun)
  · intro reached
    induction reached with
    | root => exact .root
    | move _ there move operand ih =>
        exact .move ih (rewriteBody_of_insts there (by rintro _ _ _ rfl; cases move)) move operand
    | reload _ there other strip reads load ih =>
        exact .reload ih (rewriteBody_of_insts there nofun) other
          ((slotOf_rewriteBody _).trans strip) (slotAddress_rewriteBody.mpr reads)
          (rewriteBody_of_insts load nofun)

/-- An operand is used by the rewritten instruction, or by a call that is erased. -/
theorem rewriteInst_cases (touches : rewriting.Touches module fn body)
    (there : body.insts[index]? = some inst) :
    module.rewriteInst rewriting fn index inst = inst ∨
      (rewriting.Erases fn index ∧ ∃ callee arguments,
        inst = .call false (.direct callee) arguments ∧
          isFreeFunction (module.name callee) = true) ∨
      ∃ callee arguments, inst = .call false (.direct callee) arguments ∧
        isAllocFunction (module.name callee) = true ∧ ∃ isCalloc,
          module.rewriteInst rewriting fn index inst = .arenaAlloc isCalloc arguments := by
  unfold Module.rewriteInst
  split
  · split
    · rename_i erases
      obtain ⟨callee, arguments, found, free⟩ := touches.1 index erases
      exact .inr (.inl ⟨erases, callee, arguments, Option.some.inj (there.symm.trans found), free⟩)
    · split
      · rename_i converts
        obtain ⟨callee, arguments, found, allocates⟩ := touches.2 index converts
        cases Option.some.inj (there.symm.trans found)
        exact .inr (.inr ⟨_, _, rfl, allocates, _, rfl⟩)
      · exact .inl rfl
  · exact .inl rfl

theorem slotKept_of_rewriteBody (touches : rewriting.Touches module fn body) {slot : Nat}
    (kept : (module.rewriteBody rewriting fn body).SlotKept module.frees slot) :
    body.SlotKept module.frees slot := by
  intro value reached index inst there operand
  have after := kept value (slotAddress_rewriteBody.mpr reached) index
    (module.rewriteInst rewriting fn index inst) (by rw [insts_rewriteBody, there, Option.map_some])
  rcases rewriteInst_cases touches there with same | ⟨-, callee, arguments, rfl, free⟩ |
    ⟨callee, arguments, rfl, -, isCalloc, converted⟩
  · rw [same] at after
    exact after operand
  · exact free
  · rw [converted] at after
    exact (after operand).elim

/-- A pointer that is confined in the rewritten body is confined in the original, but for the calls
that are erased. -/
theorem confined_of_rewriteBody (touches : rewriting.Touches module fn body)
    {scopeFunctions : List Fn} {frees : Nat → Prop} {root : Operand}
    (confined : (module.rewrite rewriting).Confined scopeFunctions
      (module.rewriteBody rewriting fn body) frees root) :
    module.Confined scopeFunctions body (fun index => frees index ∨ rewriting.Erases fn index)
      root := by
  intro value reached index inst there operand
  have after := confined value (follows_rewriteBody.mpr reached) index
    (module.rewriteInst rewriting fn index inst) (by rw [insts_rewriteBody, there, Option.map_some])
  rcases rewriteInst_cases touches there with same | ⟨erases, callee, arguments, rfl, free⟩ |
    ⟨callee, arguments, rfl, allocates, isCalloc, converted⟩
  · rw [same] at after
    have harmless := after operand
    cases inst with
    | store stored address =>
        exact harmless.imp_right fun ⟨slot, strip, kept⟩ =>
          ⟨slot, (slotOf_rewriteBody _).symm.trans strip, slotKept_of_rewriteBody touches kept⟩
    | call isInvoke callee arguments =>
        cases isInvoke with
        | true => exact harmless
        | false =>
            cases callee with
            | indirect address => exact harmless
            | direct callee =>
                by_cases free : isFreeFunction (module.name callee) = true
                · have freed : frees index := by
                    simpa [Module.Harmless, Module.rewrite, free] using harmless
                  simpa [Module.Harmless, free] using Or.inl freed
                · simpa [Module.Harmless, Module.rewrite, free] using harmless
    | _ => exact harmless
  · simp only [Module.Harmless, free, if_true]
    exact .inr erases
  · simp only [Module.Harmless, not_free_of_alloc allocates, allocates, true_or, if_false,
      Bool.false_eq_true]

theorem freesFollowed_of_rewriteBody {root : Operand}
    (freed : (module.rewrite rewriting).FreesFollowed (module.rewriteBody rewriting fn body) root
      index) : module.FreesFollowed body root index := by
  obtain ⟨value, callee, arguments, reached, there, free, operand⟩ := freed
  exact ⟨value, callee, arguments, follows_rewriteBody.mp reached,
    insts_of_rewriteBody there nofun nofun, free, operand⟩

/-- A call that is left is neither converted nor erased. -/
theorem call_of_rewriteBody {isInvoke : Bool} {callee : Fn} {arguments : List Operand}
    (there : (module.rewriteBody rewriting fn body).insts[index]? =
      some (.call isInvoke (.direct callee) arguments)) :
    ¬ rewriting.Erases fn index ∧ ¬ rewriting.Converts fn index := by
  rw [insts_rewriteBody] at there
  obtain ⟨original, -, same⟩ := Option.map_eq_some_iff.mp there
  unfold Module.rewriteInst at same
  split at same
  · split at same
    · cases same
    · split at same
      · cases same
      · exact ⟨‹_›, ‹_›⟩
  · rename_i other
    exact absurd same (other _ _ _)

end Rewrite

/-! ## One group -/

section Group

variable {module : Module Fn} {group : Group Fn} {info : ScopeInfo Fn}

theorem mem_walks {order : UseOrder Fn} {scopeFuncsIR : List Fn} {fn : Fn} {call : Nat}
    {outcome : Worklist.Outcome Operand (List Nat)} :
    (fn, call, outcome) ∈ module.walks order scopeFuncsIR ↔
      fn ∈ scopeFuncsIR ∧ ∃ body, module.body fn = some body ∧ call ∈ module.findAllocSites body ∧
        outcome = module.escapesScope order scopeFuncsIR body (.inst call) := by
  rw [Module.walks, List.mem_flatMap]
  constructor
  · rintro ⟨owner, covered, inside⟩
    cases defined : module.body owner with
    | none => simp [defined] at inside
    | some body =>
        simp only [defined, Option.map_some, Option.getD_some, List.mem_map,
          Prod.mk.injEq] at inside
        obtain ⟨call, site, rfl, rfl, rfl⟩ := inside
        exact ⟨covered, body, defined, site, rfl⟩
  · rintro ⟨covered, body, defined, site, rfl⟩
    refine ⟨fn, covered, ?_⟩
    rw [defined]
    exact List.mem_map.mpr ⟨call, site, rfl⟩

/-- The walk from a safe site was not ended. -/
theorem safeSite_spec (found : module.discoverScope group = some info) {site : AllocSite Fn}
    (safe : site ∈ info.safeSites) :
    ∃ body, module.body site.fn = some body ∧ site.call ∈ module.findAllocSites body ∧
      ∃ visited, module.escapesScope group.order info.scopeFuncsIR body (.inst site.call) =
        .finished visited site.matchedFrees := by
  unfold Module.discoverScope at found
  split at found
  · cases found
  · obtain ⟨owner, -, found⟩ := Option.bind_eq_some_iff.mp found
    dsimp only at found
    split at found
    · cases found
    · cases found
      obtain ⟨⟨fn, call, outcome⟩, walked, chosen⟩ := List.mem_filterMap.mp safe
      cases outcome with
      | stopped frees => cases chosen
      | finished visited frees =>
          cases chosen
          obtain ⟨-, body, defined, site, walk⟩ := mem_walks.mp walked
          exact ⟨body, defined, site, visited, walk.symm⟩

omit [DecidableEq Fn] in
theorem mem_findAllocSites {body : Body Fn} {call : Nat}
    (member : call ∈ module.findAllocSites body) : ∃ callee arguments,
      body.insts[call]? = some (.call false (.direct callee) arguments) ∧
        isAllocFunction (module.name callee) = true := by
  obtain ⟨-, allocates⟩ := List.mem_filter.mp member
  split at allocates
  · rename_i callee arguments there
    exact ⟨callee, arguments, there, allocates⟩
  · cases allocates

omit [DecidableEq Fn] in
theorem mem_findAllocSites_of_insts {body : Body Fn} {call : Nat} {callee : Fn}
    {arguments : List Operand}
    (there : body.insts[call]? = some (.call false (.direct callee) arguments))
    (allocates : isAllocFunction (module.name callee) = true) :
    call ∈ module.findAllocSites body := by
  obtain ⟨small, -⟩ := List.getElem?_eq_some_iff.mp there
  exact List.mem_filter.mpr ⟨List.mem_range.mpr small, by simpa [there] using allocates⟩

theorem erased_of_apply {fn : Fn} {free call : Nat}
    (erased : (fn, free, call) ∈ info.applyArenaReplacement.erased) :
    ∃ site ∈ info.safeSites, site.fn = fn ∧ site.call = call ∧ free ∈ site.matchedFrees ∧
      info.siteIsConvertible site = true := by
  obtain ⟨site, kept, inside⟩ := List.mem_flatMap.mp erased
  obtain ⟨safe, convertible⟩ := List.mem_filter.mp kept
  obtain ⟨claimed, matched, same⟩ := List.mem_map.mp inside
  cases same
  exact ⟨site, safe, rfl, rfl, matched, convertible⟩

theorem converted_of_apply {fn : Fn} {call : Nat}
    (converted : (fn, call) ∈ info.applyArenaReplacement.converted) :
    ∃ site ∈ info.safeSites, site.fn = fn ∧ site.call = call ∧
      info.siteIsConvertible site = true := by
  obtain ⟨site, kept, same⟩ := List.mem_map.mp converted
  obtain ⟨safe, convertible⟩ := List.mem_filter.mp kept
  cases same
  exact ⟨site, safe, rfl, rfl, convertible⟩

/-- Two members that satisfy a predicate that only one member satisfies. -/
theorem eq_of_countP_eq_one {α : Type*} {holds : α → Bool} {all : List α}
    (once : all.countP holds = 1) {first second : α} (left : first ∈ all) (right : second ∈ all)
    (one : holds first = true) (other : holds second = true) : first = second := by
  rw [List.countP_eq_length_filter] at once
  obtain ⟨only, single⟩ := List.length_eq_one_iff.mp once
  have fst : first ∈ all.filter holds := List.mem_filter.mpr ⟨left, one⟩
  have snd : second ∈ all.filter holds := List.mem_filter.mpr ⟨right, other⟩
  rw [single, List.mem_singleton] at fst snd
  exact fst.trans snd.symm

/-- A call is erased on behalf of one site. -/
theorem claim_unique {fn : Fn} {free first second : Nat}
    (one : (fn, free, first) ∈ info.applyArenaReplacement.erased)
    (other : (fn, free, second) ∈ info.applyArenaReplacement.erased) : first = second := by
  obtain ⟨site, safe, rfl, rfl, matched, convertible⟩ := erased_of_apply one
  obtain ⟨rival, present, same, rfl, also, -⟩ := erased_of_apply other
  have claim := List.all_eq_true.mp convertible free matched
  simp only [Bool.and_eq_true, decide_eq_true_eq] at claim
  have : site = rival := eq_of_countP_eq_one claim.1 safe present
    (by simp [matched]) (by simp [same, also])
  exact this ▸ rfl

/-- The walk of a site that is converted, and the calls that are erased for it. -/
theorem applied (found : module.discoverScope group = some info) {fn : Fn} {call : Nat}
    (converted : (fn, call) ∈ info.applyArenaReplacement.converted) :
    ∃ body, module.body fn = some body ∧ call ∈ module.findAllocSites body ∧
      module.Confined info.scopeFuncsIR body (info.applyArenaReplacement.Erases fn)
        (.inst call) := by
  obtain ⟨site, safe, rfl, rfl, convertible⟩ := converted_of_apply converted
  obtain ⟨body, defined, member, visited, walk⟩ := safeSite_spec found safe
  refine ⟨body, defined, member, fun value reached index inst there operand => ?_⟩
  have harmless := Module.confined_of_escapesScope walk value reached index inst there operand
  unfold Module.Harmless at harmless ⊢
  split at harmless <;> try exact harmless
  split at harmless
  · rename_i free
    rw [if_pos free]
    refine ⟨site.call, List.mem_flatMap.mpr ⟨site, ?_, List.mem_map.mpr ⟨index, harmless, rfl⟩⟩⟩
    exact List.mem_filter.mpr ⟨safe, convertible⟩
  · rename_i other
    rw [if_neg other]
    exact harmless

/-- What a call that is erased frees. -/
theorem freesFollowed_of_apply (found : module.discoverScope group = some info) {fn : Fn}
    {free call : Nat} (erased : (fn, free, call) ∈ info.applyArenaReplacement.erased) :
    (fn, call) ∈ info.applyArenaReplacement.converted ∧
      ∃ body, module.body fn = some body ∧ module.FreesFollowed body (.inst call) free := by
  obtain ⟨site, safe, rfl, rfl, matched, convertible⟩ := erased_of_apply erased
  obtain ⟨body, defined, -, visited, walk⟩ := safeSite_spec found safe
  refine ⟨List.mem_map.mpr ⟨site, List.mem_filter.mpr ⟨safe, convertible⟩, rfl⟩, body, defined, ?_⟩
  have followed := @Module.freesFollowed_of_escapesScope Fn module info.scopeFuncsIR body _
    group.order (.inst site.call) free
  rw [walk] at followed
  exact followed matched

theorem touches_of_apply (found : module.discoverScope group = some info) {fn : Fn}
    {body : Body Fn} (defined : module.body fn = some body) :
    info.applyArenaReplacement.Touches module fn body := by
  constructor
  · rintro index ⟨call, erased⟩
    obtain ⟨-, other, same, value, callee, arguments, -, there, free, -⟩ :=
      freesFollowed_of_apply found erased
    obtain rfl := Option.some.inj (defined.symm.trans same)
    exact ⟨callee, arguments, there, free⟩
  · intro index converted
    obtain ⟨other, same, member, -⟩ := applied found converted
    obtain rfl := Option.some.inj (defined.symm.trans same)
    exact mem_findAllocSites member

end Group

/-! ## All groups -/

/-- What the decisions mean in the original module. -/
structure Plan (module : Module Fn) (rewriting : Rewriting Fn) : Prop where
  converted : ∀ fn call, rewriting.Converts fn call → ∃ body, module.body fn = some body ∧
    call ∈ module.findAllocSites body ∧
      ∃ scopeFunctions, module.Confined scopeFunctions body (rewriting.Erases fn) (.inst call)
  erased : ∀ fn free call, (fn, free, call) ∈ rewriting.erased → rewriting.Converts fn call ∧
    ∃ body, module.body fn = some body ∧ module.FreesFollowed body (.inst call) free
  unique : ∀ fn free first second, (fn, free, first) ∈ rewriting.erased →
    (fn, free, second) ∈ rewriting.erased → first = second

/-- A body of the module that some groups have left, beside the original. -/
structure Evolved (module : Module Fn) (rewriting : Rewriting Fn) (fn : Fn)
    (original body : Body Fn) : Prop where
  call : ∀ index callee arguments,
    body.insts[index]? = some (.call false (.direct callee) arguments) →
      original.insts[index]? = some (.call false (.direct callee) arguments) ∧
        ¬ rewriting.Erases fn index
  confined : ∀ scopeFunctions frees root, module.Confined scopeFunctions body frees root →
    module.Confined scopeFunctions original (fun index => frees index ∨ rewriting.Erases fn index)
      root
  freed : ∀ root index, module.FreesFollowed body root index →
    module.FreesFollowed original root index

/-- The pass's state after some groups. -/
structure Stage (module : Module Fn) (state : Module Fn × Rewriting Fn) : Prop where
  name : state.1.name = module.name
  body : ∀ fn body, state.1.body fn = some body →
    ∃ original, module.body fn = some original ∧ Evolved module state.2 fn original body
  plan : Plan module state.2

omit [DecidableEq Fn] in
theorem Rewriting.erases_append {first second : Rewriting Fn} {fn : Fn} {index : Nat} :
    Rewriting.Erases ⟨first.converted ++ second.converted, first.erased ++ second.erased⟩ fn index ↔
      first.Erases fn index ∨ second.Erases fn index := by
  simp only [Rewriting.Erases, List.mem_append, exists_or]

omit [DecidableEq Fn] in
theorem Module.Confined.mono {module : Module Fn} {scopeFunctions : List Fn} {body : Body Fn}
    {frees more : Nat → Prop} {root : Operand}
    (confined : module.Confined scopeFunctions body frees root)
    (le : ∀ index, frees index → more index) :
    module.Confined scopeFunctions body more root := by
  intro value reached index inst there operand
  have harmless := confined value reached index inst there operand
  unfold Module.Harmless at harmless ⊢
  split at harmless <;> try exact harmless
  split at harmless
  · rename_i free
    rw [if_pos free]
    exact le index harmless
  · rename_i other
    rw [if_neg other]
    exact harmless

theorem Stage.runGroup {module : Module Fn} {state : Module Fn × Rewriting Fn}
    (stage : Stage module state) (group : Group Fn) :
    Stage module (Module.runGroup state group) := by
  obtain ⟨⟨name, bodies⟩, before⟩ := state
  obtain ⟨named, evolved, plan⟩ := stage
  dsimp only at named evolved plan
  subst named
  unfold Module.runGroup
  split
  · exact ⟨rfl, evolved, plan⟩
  · rename_i info found
    have erases {fn : Fn} {index : Nat} : Rewriting.Erases
        ⟨before.converted ++ info.applyArenaReplacement.converted,
          before.erased ++ info.applyArenaReplacement.erased⟩ fn index ↔
        before.Erases fn index ∨ info.applyArenaReplacement.Erases fn index :=
      Rewriting.erases_append
    refine ⟨rfl, fun fn body defined => ?_, ?_⟩
    · obtain ⟨middle, present, rfl⟩ := Option.map_eq_some_iff.mp defined
      obtain ⟨original, there, evolved⟩ := evolved fn middle present
      refine ⟨original, there, fun index callee arguments call => ?_,
        fun scopeFunctions frees root confined => ?_, fun root index freed => ?_⟩
      · obtain ⟨same, kept⟩ := evolved.call index callee arguments
          (insts_of_rewriteBody call nofun nofun)
        exact ⟨same, fun both => (erases.mp both).elim kept (call_of_rewriteBody call).1⟩
      · refine (evolved.confined _ _ _
          (confined_of_rewriteBody (touches_of_apply found present) confined)).mono ?_
        rintro index ((freed | now) | earlier)
        · exact .inl freed
        · exact .inr (erases.mpr (.inr now))
        · exact .inr (erases.mpr (.inl earlier))
      · exact evolved.freed root index (freesFollowed_of_rewriteBody freed)
    · constructor
      · intro fn call converted
        rcases List.mem_append.mp converted with earlier | now
        · obtain ⟨body, there, site, scopeFunctions, confined⟩ := plan.converted fn call earlier
          exact ⟨body, there, site, scopeFunctions, confined.mono fun _ => erases.mpr ∘ .inl⟩
        · obtain ⟨middle, present, site, confined⟩ := applied found now
          obtain ⟨original, there, evolved⟩ := evolved fn middle present
          obtain ⟨callee, arguments, allocation, allocates⟩ := mem_findAllocSites site
          refine ⟨original, there, mem_findAllocSites_of_insts
            (evolved.call call callee arguments allocation).1 allocates, info.scopeFuncsIR,
            (evolved.confined _ _ _ confined).mono fun index => ?_⟩
          exact fun either => erases.mpr either.symm
      · intro fn free call erased
        rcases List.mem_append.mp erased with earlier | now
        · obtain ⟨converted, freed⟩ := plan.erased fn free call earlier
          exact ⟨List.mem_append_left _ converted, freed⟩
        · obtain ⟨converted, middle, present, freed⟩ := freesFollowed_of_apply found now
          obtain ⟨original, there, evolved⟩ := evolved fn middle present
          exact ⟨List.mem_append_right _ converted, original, there, evolved.freed _ _ freed⟩
      · -- A call that is erased for one group is not there any more for the next.
        have apart {fn : Fn} {free first second : Nat} (earlier : (fn, free, first) ∈ before.erased)
            (now : (fn, free, second) ∈ info.applyArenaReplacement.erased) : False := by
          obtain ⟨-, middle, present, value, callee, arguments, -, call, -, -⟩ :=
            freesFollowed_of_apply found now
          obtain ⟨original, -, evolved⟩ := evolved fn middle present
          exact (evolved.call free callee arguments call).2 ⟨first, earlier⟩
        intro fn free first second one other
        rcases List.mem_append.mp one with one | one
        · rcases List.mem_append.mp other with other | other
          · exact plan.unique fn free first second one other
          · exact (apart one other).elim
        · rcases List.mem_append.mp other with other | other
          · exact (apart other one).elim
          · exact claim_unique one other

/-- The decisions of the whole pass, in terms of the original module. -/
theorem plan_run (module : Module Fn) (groups : List (Group Fn)) :
    Plan module (module.run groups) := by
  have run (groups : List (Group Fn)) (state : Module Fn × Rewriting Fn)
      (stage : Stage module state) : Stage module (groups.foldl Module.runGroup state) := by
    induction groups generalizing state with
    | nil => exact stage
    | cons group groups ih => exact ih _ (stage.runGroup group)
  refine (run groups _ ⟨rfl, fun fn body defined => ⟨body, defined, ?_⟩, ?_⟩).plan
  · exact ⟨fun _ _ _ call => ⟨call, nofun⟩, fun _ _ _ confined => confined.mono fun _ => .inl,
      fun _ _ => id⟩
  · exact ⟨nofun, nofun, nofun⟩

end LifetimeArena
end TopoLlvm
