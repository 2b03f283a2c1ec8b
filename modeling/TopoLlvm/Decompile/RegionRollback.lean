import TopoLlvm.Decompile.RegionLifting

/-!
# Giving up a `try` region

The recovery of a `try` statement lifts the protected region before it looks at the clauses of the
landing pad.  Lifting only ever adds to the visited blocks, so a recovery that is given up leaves
the state as it was exactly when there was nothing to lift.
-/

namespace TopoLlvm
namespace Decompile
namespace RegionLifting

/-- More blocks are visited, and the same regions are being lifted. -/
structure State.Extends (before after : State) : Prop where
  visited : ∀ block, before.visited block = true → after.visited block = true
  ehRegionEntries : after.ehRegionEntries = before.ehRegionEntries

theorem State.Extends.refl (state : State) : state.Extends state := ⟨fun _ => id, rfl⟩

theorem State.Extends.trans {first second third : State} (before : first.Extends second)
    (after : second.Extends third) : first.Extends third :=
  ⟨fun block => after.visited block ∘ before.visited block,
    after.ehRegionEntries.trans before.ehRegionEntries⟩

theorem State.extends_visit (state : State) (block : BlockId) :
    state.Extends (state.visit block) := by
  refine ⟨fun other lifted => ?_, rfl⟩
  by_cases same : other = block
  · simp [visit, same]
  · simp [visit, same, lifted]

/-- What is put back is what was there, so a region only adds to the visited blocks. -/
theorem State.extends_unprotect {state inside : State} {entry landingPadBB : BlockId}
    (fresh : state.ehRegionEntries entry = false)
    (grown : (state.protect entry landingPadBB).Extends inside) :
    state.Extends (inside.unprotect entry landingPadBB (state.visited landingPadBB)) := by
  constructor
  · intro block lifted
    by_cases pad : block = landingPadBB
    · simpa [unprotect, pad] using pad ▸ lifted
    · have kept := grown.visited block
      simp only [protect, Function.update_of_ne pad] at kept
      simpa [unprotect, pad] using kept lifted
  · funext block
    by_cases same : block = entry
    · simp [unprotect, same, fresh]
    · simp [unprotect, grown.ehRegionEntries, protect, same]

theorem State.protect_visited {state : State} {entry landingPadBB block : BlockId}
    (lifted : state.visited block = true) :
    (state.protect entry landingPadBB).visited block = true := by
  by_cases pad : block = landingPadBB
  · simp [protect, pad]
  · simp [protect, pad, lifted]

theorem State.unprotect_protect {state : State} {entry landingPadBB : BlockId}
    (fresh : state.ehRegionEntries entry = false) :
    (state.protect entry landingPadBB).unprotect entry landingPadBB (state.visited landingPadBB) =
      state := by
  simp only [protect, unprotect, Function.update_idem, Function.update_eq_self]
  rw [← fresh, Function.update_eq_self]

section Growth

variable {func : Function} {analyses : Analyses} {compactCompoundAssigns : List Stmt → List Stmt}
  {lift : Lift} {entry : BlockId} {exit : Option BlockId} {stmts lifted : List Stmt}
  {state after : State}

/-- Lifting only adds to the visited blocks. -/
def Grows (lift : Lift) : Prop :=
  ∀ ⦃entry exit stmts state lifted after⦄,
    lift entry exit stmts state = some (lifted, after) → state.Extends after

theorem liftLandingPad_grows (grows : Grows lift) {region : ProtectedRegion}
    {handlers : Option (List (Option String × List Stmt) × List Stmt)}
    (ran : liftLandingPad lift region state = some (handlers, after)) : state.Extends after := by
  unfold liftLandingPad at ran
  split at ran
  · cases ran
    exact .refl _
  · split at ran
    · obtain ⟨⟨body, last⟩, handled, same⟩ := Option.map_eq_some_iff.mp ran
      cases same
      exact grows handled
    · cases ran
      exact .refl _
  · obtain ⟨⟨body, last⟩, handled, same⟩ := Option.map_eq_some_iff.mp ran
    cases same
    exact grows handled

/-- Either no region is opened, or the region and its handlers are lifted one after the other, and
what follows is lifted only where a statement was recovered. -/
theorem tryLiftEHRegion_cases {recovered : Bool}
    (ran : tryLiftEHRegion func analyses lift entry exit stmts state =
      some (recovered, lifted, after)) :
    (recovered = false ∧ lifted = stmts ∧ after = state ∧
        (state.ehRegionEntries entry = false → protectedRegion func analyses entry exit = none)) ∨
      state.ehRegionEntries entry = false ∧
        ∃ region tryBody inside handlers last,
          protectedRegion func analyses entry exit = some region ∧
          lift (some entry) region.converge [] (state.protect entry region.landingPadBB) =
            some (tryBody, inside) ∧
          liftLandingPad lift region
              (inside.unprotect entry region.landingPadBB (state.visited region.landingPadBB)) =
            some (handlers, last) ∧
          (recovered = false ∧ lifted = stmts ∧ after = last ∧
              (∀ clauses finallyBody, handlers = some (clauses, finallyBody) → clauses = []) ∨
            recovered = true ∧ (after = last ∨
              ∃ stmts, lift region.converge exit stmts last = some (lifted, after))) := by
  unfold tryLiftEHRegion at ran
  split at ran
  case isTrue opened =>
    cases ran
    exact .inl ⟨rfl, rfl, rfl, fun fresh => absurd opened (by simp [fresh])⟩
  case isFalse closed =>
    have fresh : state.ehRegionEntries entry = false := by simpa using closed
    split at ran
    case h_1 none =>
      cases ran
      exact .inl ⟨rfl, rfl, rfl, fun _ => none⟩
    case h_2 region found =>
      refine .inr ⟨fresh, ?_⟩
      obtain ⟨⟨tryBody, inside⟩, protectedLift, ran⟩ := Option.bind_eq_some_iff.mp ran
      obtain ⟨⟨handlers, last⟩, handled, ran⟩ := Option.bind_eq_some_iff.mp ran
      refine ⟨region, tryBody, inside, handlers, last, found, protectedLift, handled, ?_⟩
      cases handlers with
      | none =>
          cases ran
          exact .inl ⟨rfl, rfl, rfl, fun _ _ same => by cases same⟩
      | some handlers =>
          dsimp only at ran
          split at ran
          case isTrue empty =>
            simp only [Bool.and_eq_true, List.isEmpty_iff] at empty
            cases ran
            refine .inl ⟨rfl, rfl, rfl, fun clauses finallyBody same => ?_⟩
            cases same
            exact empty.1.2
          case isFalse =>
            split at ran
            · obtain ⟨_, continued, same⟩ := Option.map_eq_some_iff.mp ran
              cases same
              exact .inr ⟨rfl, .inr ⟨_, continued⟩⟩
            · cases ran
              exact .inr ⟨rfl, .inl rfl⟩

theorem tryLiftEHRegion_grows (grows : Grows lift) {recovered : Bool}
    (ran : tryLiftEHRegion func analyses lift entry exit stmts state =
      some (recovered, lifted, after)) : state.Extends after := by
  rcases tryLiftEHRegion_cases ran with ⟨-, -, rfl, -⟩ |
    ⟨fresh, region, tryBody, inside, handlers, last, -, inner, handled, outcome⟩
  · exact .refl _
  · have upToHandlers : state.Extends last :=
      (State.extends_unprotect fresh (grows inner)).trans (liftLandingPad_grows grows handled)
    rcases outcome with ⟨-, -, rfl, -⟩ | ⟨-, rfl | ⟨_, continued⟩⟩
    · exact upToHandlers
    · exact upToHandlers
    · exact upToHandlers.trans (grows continued)

theorem liftLoopBody_grows (loop : Loop) (blocks : List BlockId) (body : List Stmt)
    (state : State) : state.Extends (liftLoopBody func loop blocks body state).2 := by
  induction blocks generalizing body state with
  | nil => exact .refl _
  | cons block blocks ih =>
      rw [liftLoopBody]
      split
      · exact ih body state
      · exact (state.extends_visit block).trans (ih _ _)

theorem State.extends_foldl_visit (blocks : List BlockId) (state : State) :
    state.Extends (blocks.foldl State.visit state) := by
  induction blocks generalizing state with
  | nil => exact .refl _
  | cons block blocks ih => exact (state.extends_visit block).trans (ih _)

theorem foldlM_grows (grows : Grows lift) {exitBlocks : List BlockId}
    (ran : exitBlocks.foldlM (fun (stmts, state) exitBB => lift (some exitBB) exit stmts state)
      (stmts, state) = some (lifted, after)) : state.Extends after := by
  induction exitBlocks generalizing stmts state with
  | nil =>
      cases ran
      exact .refl _
  | cons exitBB exitBlocks ih =>
      obtain ⟨⟨more, next⟩, first, rest⟩ := Option.bind_eq_some_iff.mp ran
      exact (grows first).trans (ih rest)

theorem liftLoop_grows (grows : Grows lift) {loop : Loop}
    (ran : liftLoop func analyses lift compactCompoundAssigns loop entry exit stmts state =
      some (lifted, after)) : state.Extends after :=
  (liftLoopBody_grows loop loop.blocks [] state).trans
    ((State.extends_foldl_visit loop.blocks _).trans (foldlM_grows grows ran))

theorem liftCases_grows (grows : Grows lift) {convergeBB : Option BlockId}
    {cases : List (Int × BlockId)} {bodies : List (Option Int × List Stmt)}
    (ran : liftCases lift convergeBB cases state = some (bodies, after)) : state.Extends after := by
  induction cases generalizing state bodies with
  | nil =>
      cases ran
      exact .refl _
  | cons case cases ih =>
      obtain ⟨⟨body, next⟩, first, ran⟩ := Option.bind_eq_some_iff.mp ran
      obtain ⟨⟨rest, last⟩, others, same⟩ := Option.bind_eq_some_iff.mp ran
      cases same
      exact (grows first).trans (ih others)

theorem liftArm_grows (grows : Grows lift) {arm : BlockId} {convergeBB : Option BlockId}
    (ran : liftArm lift arm convergeBB state = some (lifted, after)) : state.Extends after := by
  unfold liftArm at ran
  split at ran
  · exact grows ran
  · cases ran
    exact .refl _

theorem liftSwitch_grows (grows : Grows lift) {condition : Nat} {cases : List (Int × BlockId)}
    {defaultDest : BlockId}
    (ran : liftSwitch analyses lift entry condition cases defaultDest exit stmts state =
      some (lifted, after)) : state.Extends after := by
  obtain ⟨⟨bodies, next⟩, first, ran⟩ := Option.bind_eq_some_iff.mp ran
  obtain ⟨⟨body, last⟩, default, ran⟩ := Option.bind_eq_some_iff.mp ran
  exact (liftCases_grows grows first).trans ((liftArm_grows grows default).trans (grows ran))

theorem liftIf_grows (grows : Grows lift) {condition : Nat} {trueBB falseBB : BlockId}
    (ran : liftIf analyses lift entry condition trueBB falseBB exit stmts state =
      some (lifted, after)) : state.Extends after := by
  obtain ⟨⟨thenBody, next⟩, first, ran⟩ := Option.bind_eq_some_iff.mp ran
  obtain ⟨⟨elseBody, last⟩, second, ran⟩ := Option.bind_eq_some_iff.mp ran
  exact (grows first).trans ((liftArm_grows grows second).trans (grows ran))

theorem liftBlock_grows (grows : Grows lift)
    (ran : liftBlock func analyses lift compactCompoundAssigns entry exit stmts state =
      some (lifted, after)) : state.Extends after := by
  unfold liftBlock at ran
  dsimp only at ran
  split at ran
  · exact liftSwitch_grows grows ran
  · exact grows ran
  · cases ran
    exact .refl _
  · exact liftIf_grows grows ran
  · exact grows ran
  all_goals
    cases ran
    exact .refl _

/-- One step of the recursion: the entry is done, or a `try` statement was recovered, or the entry
is visited and its loop or block is lifted. -/
theorem liftBlockRegion_cases {fuel : Nat}
    (ran : liftBlockRegion func analyses compactCompoundAssigns (fuel + 1) (some entry) exit stmts
      state = some (lifted, after)) :
    (some entry = exit ∨ state.visited entry = true) ∧ lifted = stmts ∧ after = state ∨
      some entry ≠ exit ∧ state.visited entry = false ∧ ∃ recovered attempted attempt,
        tryLiftEHRegion func analyses (liftBlockRegion func analyses compactCompoundAssigns fuel)
            entry exit stmts state = some (recovered, attempted, attempt) ∧
          ((recovered = true ∨ attempt.visited entry = true) ∧ lifted = attempted ∧
              after = attempt ∨
            (recovered = false ∧ attempt.visited entry = false) ∧
              ((∃ loop, (analyses.getLoopFor entry).filter (·.header = entry) = some loop ∧
                  liftLoop func analyses
                    (liftBlockRegion func analyses compactCompoundAssigns fuel)
                    compactCompoundAssigns loop entry exit attempted (attempt.visit entry) =
                      some (lifted, after)) ∨
                (analyses.getLoopFor entry).filter (·.header = entry) = none ∧
                  liftBlock func analyses
                    (liftBlockRegion func analyses compactCompoundAssigns fuel)
                    compactCompoundAssigns entry exit attempted (attempt.visit entry) =
                      some (lifted, after))) := by
  rw [liftBlockRegion] at ran
  split at ran
  case isTrue done =>
    cases ran
    exact .inl ⟨by simpa using done, rfl, rfl⟩
  case isFalse open' =>
    obtain ⟨distinct, fresh⟩ : some entry ≠ exit ∧ state.visited entry = false := by
      simpa using open'
    obtain ⟨⟨recovered, attempted, attempt⟩, tried, ran⟩ := Option.bind_eq_some_iff.mp ran
    refine .inr ⟨distinct, fresh, recovered, attempted, attempt, tried, ?_⟩
    dsimp only at ran
    split at ran
    case isTrue done =>
      cases ran
      exact .inl ⟨by simpa using done, rfl, rfl⟩
    case isFalse failed =>
      refine .inr ⟨by simpa using failed, ?_⟩
      split at ran
      case h_1 loop header => exact .inl ⟨loop, header, ran⟩
      case h_2 none => exact .inr ⟨none, ran⟩

/-- Lifting only adds to the visited blocks, and leaves the set of opened regions as it was. -/
theorem liftBlockRegion_grows (fuel : Nat) :
    Grows (liftBlockRegion func analyses compactCompoundAssigns fuel) := by
  induction fuel with
  | zero =>
      intro entry exit stmts state lifted after ran
      cases ran
  | succ fuel ih =>
      intro entry exit stmts state lifted after ran
      cases entry with
      | none =>
          cases ran
          exact .refl _
      | some entry =>
          rcases liftBlockRegion_cases ran with ⟨-, -, rfl⟩ |
            ⟨-, -, recovered, attempted, attempt, tried, outcome⟩
          · exact .refl _
          · refine (tryLiftEHRegion_grows ih tried).trans ?_
            rcases outcome with ⟨-, -, rfl⟩ | ⟨-, ⟨loop, -, ran⟩ | ⟨-, ran⟩⟩
            · exact .refl _
            · exact (attempt.extends_visit entry).trans (liftLoop_grows ih ran)
            · exact (attempt.extends_visit entry).trans (liftBlock_grows ih ran)

/-! ## What a region visits -/

theorem landingPad_of_protectedRegion {region : ProtectedRegion}
    (found : protectedRegion func analyses entry exit = some region) :
    (func.block entry).landingPad = none ∧
      (func.block region.landingPadBB).landingPad = some region.landingPad := by
  unfold protectedRegion at found
  split at found
  case isTrue => cases found
  case isFalse usable =>
    simp only [Bool.or_eq_true, not_or, Bool.not_eq_true, Option.isSome_eq_false_iff,
      Option.isNone_iff_eq_none] at usable
    refine ⟨usable.1.1, ?_⟩
    split at found
    · cases found
    · split at found
      · obtain ⟨landingPad, here, same⟩ := Option.map_eq_some_iff.mp found
        cases same
        exact here
      · cases found

/-- A block that opens no region, because it is being lifted or begins with a landing pad. -/
theorem tryLiftEHRegion_closed
    (closed : state.ehRegionEntries entry = true ∨ (func.block entry).landingPad.isSome = true) :
    tryLiftEHRegion func analyses lift entry exit stmts state = some (false, stmts, state) := by
  rcases closed with closed | closed
  · simp [tryLiftEHRegion, closed]
  · simp [tryLiftEHRegion, protectedRegion, closed]

theorem liftBlockRegion_visits {fuel : Nat}
    (closed : state.ehRegionEntries entry = true ∨ (func.block entry).landingPad.isSome = true)
    (distinct : some entry ≠ exit)
    (ran : liftBlockRegion func analyses compactCompoundAssigns fuel (some entry) exit stmts
      state = some (lifted, after)) : after.visited entry = true := by
  cases fuel with
  | zero => cases ran
  | succ fuel =>
      have here (before : State) : (before.visit entry).visited entry = true := by
        simp [State.visit]
      rcases liftBlockRegion_cases ran with ⟨done, -, rfl⟩ |
        ⟨-, -, recovered, attempted, attempt, tried, outcome⟩
      · exact done.resolve_left distinct
      · rw [tryLiftEHRegion_closed closed] at tried
        cases tried
        rcases outcome with ⟨done, -, rfl⟩ | ⟨-, ⟨loop, -, ran⟩ | ⟨-, ran⟩⟩
        · exact done.resolve_left Bool.false_ne_true
        · exact (liftLoop_grows (liftBlockRegion_grows fuel) ran).visited entry (here _)
        · exact (liftBlock_grows (liftBlockRegion_grows fuel) ran).visited entry (here _)

theorem liftBlockRegion_done {fuel : Nat} (done : exit = some entry ∨ state.visited entry = true)
    (ran : liftBlockRegion func analyses compactCompoundAssigns fuel (some entry) exit stmts
      state = some (lifted, after)) : after = state := by
  cases fuel with
  | zero => cases ran
  | succ fuel =>
      rcases liftBlockRegion_cases ran with ⟨-, -, same⟩ | ⟨distinct, fresh, -⟩
      · exact same
      · rcases done with same | visited
        · exact absurd same.symm distinct
        · simp [fresh] at visited

theorem catchTypes_eq_nil {clauses : List Clause} : catchTypes clauses = some [] ↔ clauses = [] := by
  cases clauses with
  | nil => simp [catchTypes]
  | cons clause clauses =>
      cases clause with
      | catchAll => simp [catchTypes]
      | catchTyped readableName => by_cases named : readableName = "" <;> simp [catchTypes, named]
      | filter => simp [catchTypes]

/-- Neither the protected region nor a handler that is all cleanup has a block to lift. -/
def NothingToLift (region : ProtectedRegion) (entry : BlockId) (state : State) : Prop :=
  (region.converge = some entry ∨ state.visited entry = true) ∧
    (region.landingPad.clauses = [] → region.landingPad.isCleanup = true →
      region.converge = some region.landingPadBB ∨ state.visited region.landingPadBB = true)

/-- A recovery that is given up leaves everything as it was exactly when the block opens no region,
or a region in which there is nothing to lift. -/
theorem tryLiftEHRegion_restores_iff {fuel : Nat}
    (returned : tryLiftEHRegion func analyses
      (liftBlockRegion func analyses compactCompoundAssigns fuel) entry exit stmts state =
        some (false, lifted, after)) :
    lifted = stmts ∧ after = state ↔
      ∀ region, state.ehRegionEntries entry = false →
        protectedRegion func analyses entry exit = some region →
          NothingToLift region entry state := by
  rcases tryLiftEHRegion_cases returned with ⟨-, rfl, rfl, none⟩ |
    ⟨fresh, region, tryBody, inside, handlers, last, found, inner, handled, outcome⟩
  · refine ⟨fun _ region fresh found => ?_, fun _ => ⟨rfl, rfl⟩⟩
    rw [none fresh] at found
    cases found
  · obtain ⟨-, rfl, rfl, noClauses⟩ | ⟨contra, -⟩ := outcome
    swap
    · cases contra
    obtain ⟨entryPad, pad⟩ := landingPad_of_protectedRegion found
    constructor
    · rintro ⟨-, rfl⟩ region' - found'
      obtain rfl : region = region' := Option.some.inj (found.symm.trans found')
      constructor
      · -- Otherwise the entry itself is visited in the region.
        rw [or_iff_not_imp_left]
        intro distinct
        refine (liftLandingPad_grows (liftBlockRegion_grows fuel) handled).visited entry ?_
        have apart : entry ≠ region.landingPadBB := by
          rintro rfl
          rw [entryPad] at pad
          cases pad
        have visited := liftBlockRegion_visits (.inl (by simp [State.protect])) (Ne.symm distinct)
          inner
        simpa [State.unprotect, apart] using visited
      · -- Otherwise the pad is visited when the cleanup is lifted.
        intro noClause cleanup
        rw [or_iff_not_imp_left]
        intro distinct
        rw [liftLandingPad, catchTypes_eq_nil.mpr noClause] at handled
        simp only [cleanup, if_true] at handled
        obtain ⟨⟨body, _⟩, ran, same⟩ := Option.map_eq_some_iff.mp handled
        cases same
        exact liftBlockRegion_visits (.inr (by simp [pad])) (Ne.symm distinct) ran
    · intro nothing
      obtain ⟨noBody, noCleanup⟩ := nothing region fresh found
      have untouched : inside = state.protect entry region.landingPadBB := by
        refine liftBlockRegion_done (noBody.imp id fun visited => ?_) inner
        exact (State.protect_visited visited)
      rw [untouched, State.unprotect_protect fresh] at handled
      refine ⟨rfl, ?_⟩
      unfold liftLandingPad at handled
      split at handled
      · cases handled
        rfl
      · rename_i noClause
        split at handled
        case isTrue cleanup =>
          obtain ⟨⟨body, _⟩, ran, same⟩ := Option.map_eq_some_iff.mp handled
          cases same
          exact liftBlockRegion_done (noCleanup (catchTypes_eq_nil.mp noClause) cleanup) ran
        case isFalse =>
          cases handled
          rfl
      · -- With a clause the statement is recovered.
        obtain ⟨⟨body, _⟩, ran, same⟩ := Option.map_eq_some_iff.mp handled
        cases same
        exact absurd (noClauses _ _ rfl) (by simp)

end Growth

/-! ## A filter -/

/-- Call something that unwinds to a filter, and return. -/
def filtered : Function where
  blocks :=
    [{ insts := [1], landingPad := none, funcletPad := false, terminator := .invoke 2 1 2 },
      { insts := [], landingPad := none, funcletPad := false, terminator := .ret 3 },
      { insts := []
        landingPad := some { clauses := [.filter], isCleanup := false }
        funcletPad := false
        terminator := .resume }]
  personality := some "__gxx_personality_v0"

/-- A function without loops and joins. -/
def straight : Analyses where
  getLoopFor _ := none
  findNearestCommonDominator _ _ := none
  detectCountedLoop _ := none

def unlifted : State where
  visited _ := false
  ehRegionEntries _ := false

/-- The recovery is given up with the entry visited, and so the whole function is left out. -/
theorem filtered_is_lost :
    unlifted.visited 0 = false ∧
      (tryLiftEHRegion filtered straight (liftBlockRegion filtered straight id 9) 0 none []
        unlifted).map (fun (recovered, _, after) => (recovered, after.visited 0)) =
          some (false, true) ∧
      (liftBlockRegion filtered straight id 10 (some 0) none [] unlifted).map
        (fun (stmts, _) => stmts.length) = some 0 := by
  refine ⟨rfl, ?_, ?_⟩
  · rfl
  · rfl

/-- The state in which the region of the filter is given up. -/
def abandoned : State := ((unlifted.protect 0 2).visit 0).unprotect 0 2 false

theorem tryLiftEHRegion_restores_filtered :
    tryLiftEHRegion filtered straight (liftBlockRegion filtered straight id 9) 0 none [] unlifted =
        some (false, [], abandoned) ∧
      ¬(([] : List Stmt) = [] ∧ abandoned = unlifted) := by
  have returned : tryLiftEHRegion filtered straight (liftBlockRegion filtered straight id 9) 0 none
      [] unlifted = some (false, [], abandoned) := rfl
  refine ⟨returned, fun restored => ?_⟩
  have nothing := (tryLiftEHRegion_restores_iff returned).mp restored
  have opened := (nothing _ rfl rfl).1
  simp [unlifted, converge, straight] at opened

end RegionLifting
end Decompile
end TopoLlvm
