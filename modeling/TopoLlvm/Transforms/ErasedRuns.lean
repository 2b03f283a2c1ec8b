import TopoLlvm.Transforms.ErasedFrees

/-!
# The module that the arena pass leaves

All groups together rewrite the module once.  The rewritten module makes runs of the original, but
for the calls that are erased, so that what holds of frees in the original's runs holds of those
that remain.
-/

namespace TopoLlvm
namespace LifetimeArena

variable {Fn : Type} [DecidableEq Fn] {module : Module Fn} {rewriting : Rewriting Fn}

/-- The module after all groups. -/
def Module.after (module : Module Fn) (groups : List (Group Fn)) : Module Fn :=
  (groups.foldl Module.runGroup (module, { converted := [], erased := [] })).1

/-! ## One rewriting -/

omit [DecidableEq Fn] in
theorem Module.ext {first second : Module Fn} (name : first.name = second.name)
    (body : ∀ fn, first.body fn = second.body fn) : first = second := by
  obtain ⟨_, _⟩ := first
  obtain ⟨_, _⟩ := second
  cases name
  cases funext body
  rfl

omit [DecidableEq Fn] in
theorem Body.ext {body other : Body Fn} (next : body.next = other.next)
    (phisAt : body.phisAt = other.phisAt)
    (insts : ∀ index : Nat, body.insts[index]? = other.insts[index]?) : body = other := by
  obtain ⟨_, _, _, _⟩ := body
  obtain ⟨_, _, _, _⟩ := other
  cases next
  cases phisAt
  cases List.ext_getElem? insts
  rfl

theorem rewrite_nil : module.rewrite { converted := [], erased := [] } = module := by
  refine Module.ext rfl fun fn => ?_
  cases defined : module.body fn with
  | none => simp [Module.rewrite, defined]
  | some body =>
      simp only [Module.rewrite, defined, Option.map_some, Option.some.injEq]
      refine Body.ext rfl rfl fun index => ?_
      rw [insts_rewriteBody]
      cases body.insts[index]? with
      | none => rfl
      | some inst =>
          refine congrArg some ?_
          unfold Module.rewriteInst
          split
          · rw [if_neg (by rintro ⟨_, member⟩; cases member), if_neg (by simp [Rewriting.Converts])]
          · rfl

/-- Two rewritings in a row are one, since the second erases and converts calls that the first has
left. -/
theorem rewrite_rewrite {first second : Rewriting Fn} (touches : ∀ fn body,
      (module.rewrite first).body fn = some body → second.Touches (module.rewrite first) fn body) :
    (module.rewrite first).rewrite second = module.rewrite
      { converted := first.converted ++ second.converted
        erased := first.erased ++ second.erased } := by
  refine Module.ext rfl fun fn => ?_
  cases defined : module.body fn with
  | none => simp [Module.rewrite, defined]
  | some body =>
      have middle : (module.rewrite first).body fn = some (module.rewriteBody first fn body) := by
        simp [Module.rewrite, defined]
      obtain ⟨erases, -⟩ := touches fn _ middle
      simp only [Module.rewrite, defined, Option.map_some, Option.some.injEq]
      refine Body.ext rfl rfl fun index => ?_
      simp only [insts_rewriteBody]
      cases there : body.insts[index]? with
      | none => rfl
      | some inst =>
          refine congrArg some ?_
          have converts : Rewriting.Converts
              { converted := first.converted ++ second.converted
                erased := first.erased ++ second.erased } fn index ↔
              first.Converts fn index ∨ second.Converts fn index := List.mem_append
          cases inst with
          | call isInvoke callee arguments =>
              cases callee with
              | indirect address => rfl
              | direct callee =>
                  by_cases gone : first.Erases fn index
                  · simp [Module.rewriteInst, gone, Rewriting.erases_append]
                  · by_cases taken : first.Converts fn index
                    · -- What is an arena allocation now is not erased any more.
                      have still : ¬ second.Erases fn index := by
                        intro erased
                        obtain ⟨_, _, call, -⟩ := erases index erased
                        exact (call_of_rewriteBody call).2 taken
                      simp [Module.rewriteInst, gone, taken, still, Rewriting.erases_append,
                        converts]
                    · simp [Module.rewriteInst, gone, taken, Rewriting.erases_append, converts]
          | _ => rfl

/-- The pass leaves the module rewritten by all that it has decided. -/
theorem after_eq_rewrite (module : Module Fn) (groups : List (Group Fn)) :
    module.after groups = module.rewrite (module.run groups) := by
  have run (groups : List (Group Fn)) (state : Module Fn × Rewriting Fn)
      (rewritten : state.1 = module.rewrite state.2) :
      (groups.foldl Module.runGroup state).1 =
        module.rewrite (groups.foldl Module.runGroup state).2 := by
    induction groups generalizing state with
    | nil => exact rewritten
    | cons group groups ih =>
        refine ih _ ?_
        unfold Module.runGroup
        split
        · exact rewritten
        · rename_i info found
          obtain ⟨left, before⟩ := state
          dsimp only at rewritten found ⊢
          subst rewritten
          exact rewrite_rewrite fun fn body defined => touches_of_apply found defined
  exact run groups _ rewrite_nil.symm

/-! ## Runs of the rewritten module -/

/-- Nothing is freed, or by a call that is kept. -/
def Event.isKept (rewriting : Rewriting Fn) : Event Fn → Bool
  | free fn index _ _ => !decide (rewriting.Erases fn index)
  | _ => true

section Simulation

variable {fn : Fn} {body : Body Fn} {index : Nat}

theorem phiSource_rewriteBody {source : Nat} :
    (module.rewriteBody rewriting fn body).phiSource index source = body.phiSource index source := by
  unfold Body.phiSource
  rw [insts_rewriteBody]
  cases there : body.insts[index]? with
  | none => rfl
  | some inst =>
      rw [Option.map_some]
      cases inst with
      | call isInvoke callee arguments =>
          have shapes : module.rewriteInst rewriting fn index (.call isInvoke callee arguments) =
              _ ∨ _ := rewriteInst_shapes
          rcases shapes with same | gone | ⟨_, _, converted⟩
          · rw [same]
          · rw [gone]
          · rw [converted]
      | _ => rfl

theorem goOn_rewriteBody {frame : Frame Fn} {value : Value Fn} {next : Nat} :
    frame.goOn (module.rewriteBody rewriting fn body) value next = frame.goOn body value next := by
  have enter (registers : Operand → Value Fn) (source target : Nat) :
      (module.rewriteBody rewriting fn body).enter registers source target =
        body.enter registers source target := by
    funext operand
    cases operand with
    | inst index =>
        simp only [Body.enter, phiSource_rewriteBody]
        rfl
    | _ => rfl
  simp only [Frame.goOn, enter]

theorem goOnTakes_rewriteBody {frame : Frame Fn} {value : Value Fn} {next : Nat} :
    frame.goOnTakes (module.rewriteBody rewriting fn body) value next =
      frame.goOnTakes body value next := by
  simp only [Frame.goOnTakes, Body.takes, phiSource_rewriteBody]
  rfl

omit [DecidableEq Fn] in
theorem isKept_takes [DecidableEq Fn] {frame : Frame Fn} {value : Value Fn} {next : Nat} :
    (frame.goOnTakes body value next).filter (·.isKept rewriting) =
      frame.goOnTakes body value next := by
  rw [List.filter_eq_self]
  intro event member
  obtain ⟨index, -, found⟩ := List.mem_filterMap.mp member
  obtain ⟨operand, -, rfl⟩ := Option.map_eq_some_iff.mp found
  rfl

variable {registers : Operand → Value Fn} {heap last : Heap Fn} {value : Value Fn}
  {inst : Inst Fn} {events : List (Event Fn)}

/-- An instruction of the rewritten module does what the original does, but for what it frees. -/
theorem effect_of_rewriteInst (touches : rewriting.Touches module fn body)
    (there : body.insts[index]? = some inst)
    (effect : Effect (module.rewrite rewriting) fn index registers heap
      (module.rewriteInst rewriting fn index inst) value last events) :
    ∃ all, Effect module fn index registers heap inst value last all ∧
      events = all.filter (·.isKept rewriting) := by
  rcases rewriteInst_cases touches there with same | ⟨erases, callee, arguments, rfl, frees⟩ |
    ⟨callee, arguments, rfl, allocates, isCalloc, converted⟩
  · -- Calls that are still there are not erased.
    have calls (isInvoke : Bool) (callee : Fn) (arguments : List Operand)
        (call : inst = .call isInvoke (.direct callee) arguments) :
        ¬ rewriting.Erases fn index := by
      have kept : (module.rewriteBody rewriting fn body).insts[index]? =
          some (.call isInvoke (.direct callee) arguments) := by
        rw [insts_rewriteBody, there, Option.map_some, same, call]
      exact (call_of_rewriteBody kept).1
    rw [same] at effect
    cases effect with
    | gep => exact ⟨_, .gep, rfl⟩
    | bitcast => exact ⟨_, .bitcast, rfl⟩
    | select chosen => exact ⟨_, .select chosen, rfl⟩
    | load points held => exact ⟨_, .load points held, rfl⟩
    | store points => exact ⟨_, .store points, rfl⟩
    | alloca => exact ⟨_, .alloca, rfl⟩
    | allocate allocates => exact ⟨_, .allocate allocates, rfl⟩
    | arenaAlloc => exact ⟨_, .arenaAlloc, rfl⟩
    | exhausted allocates => exact ⟨_, .exhausted allocates, rfl⟩
    | arenaExhausted => exact ⟨_, .arenaExhausted, rfl⟩
    | free frees => exact ⟨_, .free frees, by simp [Event.isKept, calls _ _ _ rfl]⟩
    | erased => exact ⟨_, .erased, rfl⟩
    | intrinsic intrinsic within targets =>
        exact ⟨_, .intrinsic intrinsic within targets, rfl⟩
    | other known => exact ⟨_, .other known, rfl⟩
  · have gone : module.rewriteInst rewriting fn index (.call false (.direct callee) arguments) =
        .erased := by
      rw [Module.rewriteInst, if_pos erases]
    rw [gone] at effect
    cases effect with
    | erased => exact ⟨_, .free frees, by simp [Event.isKept, erases]⟩
  · rw [converted] at effect
    cases effect with
    | arenaAlloc => exact ⟨_, .allocate allocates, rfl⟩
    | arenaExhausted => exact ⟨_, .exhausted allocates, rfl⟩

end Simulation

omit [DecidableEq Fn] in
theorem Plan.touches (plan : Plan module rewriting) {fn : Fn} {body : Body Fn}
    (defined : module.body fn = some body) : rewriting.Touches module fn body := by
  constructor
  · rintro index ⟨site, erased⟩
    obtain ⟨-, other, same, value, callee, arguments, -, there, free, -⟩ :=
      plan.erased fn index site erased
    obtain rfl := Option.some.inj (defined.symm.trans same)
    exact ⟨callee, arguments, there, free⟩
  · intro index converted
    exact site_of_converts plan converted defined

omit [DecidableEq Fn] in
theorem returns_of_rewrite [DecidableEq Fn] {frame : Frame Fn} {value : Value Fn}
    (returns : frame.Returns (module.rewrite rewriting) value) : frame.Returns module value := by
  rcases returns with data | ⟨body, operand, defined, there, same⟩
  · exact .inl data
  · obtain ⟨original, found, rfl⟩ := Option.map_eq_some_iff.mp defined
    exact .inr ⟨original, operand, found, insts_of_rewriteBody there nofun nofun, same⟩

theorem step_of_rewrite (plan : Plan module rewriting) {before after : State Fn}
    {events : List (Event Fn)} (step : Step (module.rewrite rewriting) before events after) :
    ∃ all, Step module before all after ∧ events = all.filter (·.isKept rewriting) := by
  have inside {target : Fn} : ((module.rewrite rewriting).body target).isSome =
      (module.body target).isSome := Option.isSome_map
  cases step with
  | execute defined there effect flows =>
      obtain ⟨body, found, rfl⟩ := Option.map_eq_some_iff.mp defined
      rw [insts_rewriteBody] at there
      obtain ⟨inst, original, rfl⟩ := Option.map_eq_some_iff.mp there
      obtain ⟨all, effect', rfl⟩ :=
        effect_of_rewriteInst (plan.touches found) original effect
      rw [goOn_rewriteBody, goOnTakes_rewriteBody]
      exact ⟨_, .execute found original effect' flows, by rw [List.filter_append, isKept_takes]⟩
  | call defined there canBe plain defined' =>
      obtain ⟨body, found, rfl⟩ := Option.map_eq_some_iff.mp defined
      exact ⟨_, .call found (insts_of_rewriteBody there nofun nofun) canBe plain
        (inside.symm.trans defined'), rfl⟩
  | callOut defined there canBe plain outside =>
      obtain ⟨body, found, rfl⟩ := Option.map_eq_some_iff.mp defined
      exact ⟨_, .callOut found (insts_of_rewriteBody there nofun nofun) canBe plain
        (Option.map_eq_none_iff.mp outside), rfl⟩
  | ret returns defined flows =>
      obtain ⟨body, found, rfl⟩ := Option.map_eq_some_iff.mp defined
      rw [goOn_rewriteBody, goOnTakes_rewriteBody]
      exact ⟨_, .ret (returns_of_rewrite returns) found flows, isKept_takes.symm⟩
  | retOut returns => exact ⟨_, .retOut (returns_of_rewrite returns), rfl⟩
  | comeBack known defined flows =>
      obtain ⟨body, found, rfl⟩ := Option.map_eq_some_iff.mp defined
      rw [goOn_rewriteBody, goOnTakes_rewriteBody]
      exact ⟨_, .comeBack known found flows, isKept_takes.symm⟩
  | callIn known defined => exact ⟨_, .callIn known (inside.symm.trans defined), rfl⟩
  | storeOut knownObject known => exact ⟨_, .storeOut knownObject known, rfl⟩
  | loadOut knownObject held => exact ⟨_, .loadOut knownObject held, rfl⟩

/-- Runs of the rewritten module are runs of the original without what erased calls free. -/
theorem runs_of_rewrite (plan : Plan module rewriting) {before after : State Fn}
    {events : List (Event Fn)} (run : Runs (module.rewrite rewriting) before events after) :
    ∃ all, Runs module before all after ∧ events = all.filter (·.isKept rewriting) := by
  induction run with
  | nil => exact ⟨[], .nil, rfl⟩
  | step step _ ih =>
      obtain ⟨now, original, rfl⟩ := step_of_rewrite plan step
      obtain ⟨more, run, rfl⟩ := ih
      exact ⟨now ++ more, .step original run, by rw [List.filter_append]⟩

/-! ## Frees -/

/-- In runs that are as the walks take them, an erased call frees pointers of the allocation that
claims it, and other calls free no pointers of converted allocations; and what the pass leaves makes
such runs without the erased calls. -/
theorem erased_frees_claimed (module : Module Fn) (groups : List (Group Fn)) :
    (∀ events last, Runs module State.initial events last →
      (∀ event ∈ events, event.AsFollowed module (module.run groups)) →
        ∀ event ∈ events, event.FreesRight (module.run groups)) ∧
    ∀ events last, Runs (module.after groups) State.initial events last →
      ∃ all, Runs module State.initial all last ∧
        events = all.filter (·.isKept (module.run groups)) := by
  have plan := plan_run module groups
  refine ⟨fun events last run followed =>
    freesRight_of_runs plan run stateGood_initial followed, fun events last run => ?_⟩
  rw [after_eq_rewrite] at run
  exact runs_of_rewrite plan run

/-! ## A pointer that is chosen -/

open TopoLlvm.Runtime (Name)

/-- Frees what it has allocated or its parameter. -/
def choosingBody : Body Name where
  insts := [.call false (.direct "malloc".toList) [.constant],
    .select .constant (.inst 0) (.param 0),
    .call false (.direct "free".toList) [.inst 1],
    .ret none]
  next index := [index + 1]
  phisAt _ := []
  typed := by simp [Inst.indices]

def choosing : Module Name where
  name := id
  body fn := if fn = "build".toList then some choosingBody else none

def choosingGroup : Group Name where
  toLifetimeScope := openScope
  logicBlocks := [("build".toList, ["open".toList])]
  order := .inOrder

theorem run_choosing : choosing.run [choosingGroup] =
    { converted := [("build".toList, 0)], erased := [("build".toList, 2, 0)] } := by
  rfl

/-- What the environment passes and what the function allocates. -/
def foreignObject : Object Name := ⟨.foreign, 0⟩

def builtObject : Object Name := ⟨.site "build".toList 0, 0⟩

def chosenEvents (chosen : Operand) (object : Object Name) : List (Event Name) :=
  [.take "build".toList 1 chosen (.pointer object),
    .free "build".toList 2 [.inst 1] [.pointer object]]

theorem choosing_runs {chosen : Operand} {object : Object Name}
    (one : chosen = .inst 0 ∧ object = builtObject ∨
      chosen = .param 0 ∧ object = foreignObject) :
    ∃ last, Runs choosing State.initial (chosenEvents chosen object) last := by
  let entered : Frame Name := .entry "build".toList [.pointer foreignObject]
  let allocated := entered.goOn choosingBody (.pointer builtObject) 1
  have holds : allocated.registers chosen = .pointer object := by
    rcases one with ⟨rfl, rfl⟩ | ⟨rfl, rfl⟩ <;> rfl
  let selected := allocated.goOn choosingBody (.pointer object) 2
  have enter : Step choosing State.initial []
      ⟨[.code entered, .environment], (State.initial : State Name).heap⟩ :=
    .callIn (by simp [Heap.KnownValue, Heap.Known, foreignObject]) rfl
  have allocate : Step choosing ⟨[.code entered, .environment], (State.initial : State Name).heap⟩
      ([] ++ entered.goOnTakes choosingBody (.pointer builtObject) 1)
      ⟨[.code allocated, .environment],
        (State.initial : State Name).heap.allocate builtObject.source⟩ :=
    .execute rfl rfl (.allocate rfl) List.mem_cons_self
  have select (heap : Heap Name) : Step choosing ⟨[.code allocated, .environment], heap⟩
      ([.take "build".toList 1 chosen (.pointer object)] ++
        allocated.goOnTakes choosingBody (.pointer object) 2)
      ⟨[.code selected, .environment], heap⟩ := by
    have effect : Effect choosing "build".toList 1 allocated.registers heap
        (.select .constant (.inst 0) (.param 0)) (allocated.registers chosen) heap
        [.take "build".toList 1 chosen (allocated.registers chosen)] :=
      .select (one.imp And.left And.left)
    rw [holds] at effect
    exact .execute rfl rfl effect List.mem_cons_self
  have free (heap : Heap Name) : Step choosing ⟨[.code selected, .environment], heap⟩
      ([.free "build".toList 2 [.inst 1] [.pointer object]] ++
        selected.goOnTakes choosingBody .data 3)
      ⟨[.code (selected.goOn choosingBody .data 3), .environment], heap⟩ :=
    .execute rfl rfl (.free rfl) List.mem_cons_self
  exact ⟨_, .step enter (.step allocate (.step (select _) (.step (free _) .nil)))⟩

/-- The erased call frees the parameter. -/
theorem choosing_erases_foreign : ¬ ∀ events last, Runs choosing State.initial events last →
    ∀ event ∈ events, event.FreesRight (choosing.run [choosingGroup]) := by
  intro right
  obtain ⟨last, run⟩ := choosing_runs (.inr ⟨rfl, rfl⟩)
  obtain ⟨claimed, -⟩ := right _ last run _ (List.mem_cons_of_mem _ List.mem_cons_self)
  rw [run_choosing] at claimed
  have source := (claimed 0 List.mem_cons_self).2.2 foreignObject rfl
  cases source

theorem choosing_frees_built : ∃ last,
    Runs choosing State.initial (chosenEvents (.inst 0) builtObject) last ∧
      ∀ event ∈ chosenEvents (.inst 0) builtObject,
        event.FreesRight (choosing.run [choosingGroup]) := by
  obtain ⟨last, run⟩ := choosing_runs (.inl ⟨rfl, rfl⟩)
  refine ⟨last, run, (erased_frees_claimed choosing [choosingGroup]).1 _ last run ?_⟩
  rw [run_choosing]
  have only {body : Body Name} (defined : choosing.body "build".toList = some body) :
      body = choosingBody := (Option.some.inj defined).symm
  intro event member
  rcases List.mem_cons.mp member with rfl | member
  · refine .inr fun body defined site converts reached => ?_
    obtain rfl := only defined
    obtain rfl : site = 0 := by simpa [Rewriting.Converts] using converts
    exact .root
  · obtain rfl := List.mem_singleton.mp member
    intro body defined site erased operand first
    obtain rfl := only defined
    obtain rfl : site = 0 := by simpa using erased
    obtain rfl := Option.some.inj first
    exact .move .root rfl rfl (List.mem_cons_of_mem _ List.mem_cons_self)

end LifetimeArena
end TopoLlvm
