import TopoLlvm.Decompile.RegionRollback
import TopoLlvm.Decompile.StatementPlaces

/-!
# The walk of a lifting

Without calls that unwind, lifting a region is a walk over its blocks: a block is passed once, then
the arms of its branch, then the blocks where the arms meet again.  The walk writes down where each
block is put, and the statements hold the instructions of the blocks in the same order.
-/

namespace TopoLlvm
namespace Decompile
namespace RegionLifting

namespace Terminator

/-- The end of a block in a function of conditionals, loops and switches. -/
def isStructured : Terminator → Bool
  | .ret _ | .br _ | .condBr .. | .switch .. | .resume => true
  | .other _ successors => successors.isEmpty
  | .invoke .. | .funclet .. => false

/-- What is lifted as an instruction. -/
def ids : Terminator → List Nat
  | .ret id | .invoke id .. | .funclet id _ | .other id _ => [id]
  | .br _ | .condBr .. | .switch .. | .resume => []

/-- The destinations of a branch that chooses, in the order of the bodies. -/
def arms : Terminator → List BlockId
  | .condBr _ onTrue onFalse => [onTrue, onFalse]
  | .switch _ cases defaultDest => cases.map Prod.snd ++ [defaultDest]
  | .ret _ | .br _ | .invoke .. | .resume | .funclet .. | .other .. => []

end Terminator

/-- What is lifted of a block. -/
def Block.ids (block : Block) : List Nat := block.insts ++ block.terminator.ids

/-- Nothing is lifted of a block that does not exist. -/
theorem Function.block_of_le (func : Function) {block : BlockId}
    (absent : func.blocks.length ≤ block) :
    (func.block block).ids = [] ∧ (func.block block).terminator = .resume := by
  simp [Function.block, List.getElem?_eq_none absent, Block.ids, Terminator.ids]

/-- The loop of a header. -/
def Analyses.loopOf (analyses : Analyses) (block : BlockId) : Option Loop :=
  (analyses.getLoopFor block).filter (·.header = block)

/-- Where some ways meet again. -/
def Analyses.join (analyses : Analyses) : List BlockId → Option BlockId
  | [] => none
  | first :: others => converge analyses first others

/-- The blocks that are lifted with their places. -/
abbrev Log : Type := List (BlockId × List Place)

def Log.within (place : Place) (log : Log) : Log :=
  log.map fun (block, path) => (block, place :: path)

/-- The instructions of lifted blocks. -/
def Function.placed (func : Function) (log : Log) : List Placement :=
  log.flatMap fun (block, path) => (func.block block).ids.map (·, path)

/-- What a walk still has to pass, one after the other. -/
inductive Task where
  | region (entry : Option BlockId)
  | arms (branch : BlockId) (index : Nat) (dests : List BlockId)
  | exits (exitBlocks : List BlockId)

section Walk

variable (func : Function) (analyses : Analyses)

/-- Pass what is to be passed up to an exit. -/
inductive Walk : Task → Option BlockId → State → State → Log → Prop where
  | stop {exit : Option BlockId} {state : State} : Walk (.region none) exit state state []
  | done {entry : BlockId} {exit : Option BlockId} {state : State}
      (done : some entry = exit ∨ state.visited entry = true) :
      Walk (.region (some entry)) exit state state []
  | leaf {entry : BlockId} {exit : Option BlockId} {state : State} (distinct : some entry ≠ exit)
      (fresh : state.visited entry = false) (plain : analyses.loopOf entry = none)
      (final : (func.block entry).terminator.successors = []) :
      Walk (.region (some entry)) exit state (state.visit entry) [(entry, [])]
  | jump {entry target : BlockId} {exit : Option BlockId} {state after : State} {log : Log}
      (distinct : some entry ≠ exit) (fresh : state.visited entry = false)
      (plain : analyses.loopOf entry = none)
      (jumps : (func.block entry).terminator = .br target)
      (rest : Walk (.region (some target)) exit (state.visit entry) after log) :
      Walk (.region (some entry)) exit state after ((entry, []) :: log)
  | branch {entry : BlockId} {exit : Option BlockId} {state between after : State} {log rest : Log}
      (distinct : some entry ≠ exit) (fresh : state.visited entry = false)
      (plain : analyses.loopOf entry = none)
      (branches : (func.block entry).terminator.successors ⊆ (func.block entry).terminator.arms)
      (arms : Walk (.arms entry 0 (func.block entry).terminator.arms)
        (analyses.join (func.block entry).terminator.arms) (state.visit entry) between log)
      (joined : Walk (.region (analyses.join (func.block entry).terminator.arms)) exit between after
        rest) :
      Walk (.region (some entry)) exit state after ((entry, []) :: (log ++ rest))
  | loop {entry : BlockId} {exit : Option BlockId} {state inside after : State} {loop : Loop}
      {body : List BlockId} {log : Log} (distinct : some entry ≠ exit)
      (fresh : state.visited entry = false) (header : analyses.loopOf entry = some loop)
      (nodup : body.Nodup)
      (mem_body : ∀ block,
        block ∈ body ↔ block ∈ loop.blocks ∧ block ≠ entry ∧ state.visited block = false)
      (visited : ∀ block, inside.visited block = true ↔
        block = entry ∨ state.visited block = true ∨ block ∈ loop.blocks)
      (rest : Walk (.exits loop.exitBlocks) exit inside after log) :
      Walk (.region (some entry)) exit state after (body.map (·, [.loop entry]) ++ log)
  | noArms {branch : BlockId} {index : Nat} {exit : Option BlockId} {state : State} :
      Walk (.arms branch index []) exit state state []
  | arm {branch dest : BlockId} {index : Nat} {dests : List BlockId} {exit : Option BlockId}
      {state between after : State} {log rest : Log}
      (first : Walk (.region (some dest)) exit state between log)
      (others : Walk (.arms branch (index + 1) dests) exit between after rest) :
      Walk (.arms branch index (dest :: dests)) exit state after
        (log.within (.arm branch index) ++ rest)
  | noExits {exit : Option BlockId} {state : State} : Walk (.exits []) exit state state []
  | exit {exitBB : BlockId} {exitBlocks : List BlockId} {exit : Option BlockId}
      {state between after : State} {log rest : Log}
      (first : Walk (.region (some exitBB)) exit state between log)
      (others : Walk (.exits exitBlocks) exit between after rest) :
      Walk (.exits (exitBB :: exitBlocks)) exit state after (log ++ rest)

end Walk

@[simp]
theorem Function.placed_nil (func : Function) : func.placed [] = [] := rfl

@[simp]
theorem Function.placed_cons (func : Function) (block : BlockId) (path : List Place) (log : Log) :
    func.placed ((block, path) :: log) = (func.block block).ids.map (·, path) ++ func.placed log :=
  rfl

@[simp]
theorem Function.placed_append (func : Function) (log more : Log) :
    func.placed (log ++ more) = func.placed log ++ func.placed more := by
  simp [placed]

@[simp]
theorem Function.placed_within (func : Function) (place : Place) (log : Log) :
    func.placed (log.within place) = RegionLifting.within place (func.placed log) := by
  simp [placed, Log.within, RegionLifting.within, List.flatMap_map, List.map_flatMap,
    Function.comp_def]

section Correct

variable {func : Function} {analyses : Analyses} {folds : Nat → Nat → Nat → Bool} {lift : Lift}
  {entry : BlockId} {exit : Option BlockId} {stmts lifted : List Stmt} {state after : State}

theorem State.visited_visit (state : State) (first block : BlockId) :
    (state.visit first).visited block = true ↔ state.visited block = true ∨ block = first := by
  by_cases same : block = first
  · simp [visit, same]
  · simp [visit, same]

/-- Every lifting is a walk that puts the blocks where their instructions are. -/
def Walks (func : Function) (analyses : Analyses) (lift : Lift) : Prop :=
  ∀ ⦃entry exit stmts state lifted after⦄,
    lift entry exit stmts state = some (lifted, after) →
      ∃ log, Walk func analyses (.region entry) exit state after log ∧
        placements lifted = placements stmts ++ func.placed log

/-- Without calls that unwind there is no region to protect. -/
theorem protectedRegion_eq_none
    (structured : ∀ block, (func.block block).terminator.isStructured = true) :
    protectedRegion func analyses entry exit = none := by
  have keeps (bb : BlockId) (found : Invokes) (noPad : found.landingPadBB = none) :
      (visitForInvokes func analyses entry exit bb found).acc.landingPadBB = none := by
    have here := structured bb
    unfold visitForInvokes
    split
    · exact noPad
    · split
      · rename_i kind
        simp [kind, Terminator.isStructured] at here
      · split
        · exact noPad
        · exact noPad
  have noPad : (Worklist.search (visitForInvokes func analyses entry exit) func.blocks.length [entry]
      [] { normalDests := [], landingPadBB := none }).acc.landingPadBB = none :=
    (Worklist.search_induction (fun _ => True) (fun found => found.landingPadBB = none)
      (fun _ _ _ _ _ _ _ _ => trivial) (fun bb found _ => keeps bb found) (fun _ _ => trivial)
      (fun _ _ => trivial) rfl).1
  unfold protectedRegion
  split
  · rfl
  · split
    · rfl
    · rename_i found ended
      rw [ended] at noPad
      have noPad : found.landingPadBB = none := noPad
      simp [noPad]

theorem tryLiftEHRegion_structured
    (structured : ∀ block, (func.block block).terminator.isStructured = true) :
    tryLiftEHRegion func analyses lift entry exit stmts state = some (false, stmts, state) := by
  unfold tryLiftEHRegion
  split
  · rfl
  · rw [protectedRegion_eq_none structured]

/-! ### A loop -/

theorem placements_liftBodyBlock (loop : Loop) (bb : BlockId) :
    placements (liftBodyBlock func loop bb) = (func.block bb).ids.map (·, []) := by
  rw [liftBodyBlock, placements_append, placements_insts, Block.ids, List.map_append]
  congr 1
  cases (func.block bb).terminator with
  | br target =>
      dsimp only [Terminator.ids]
      split
      · rfl
      · split <;> rfl
  | switch condition cases defaultDest =>
      have empty {more : List (Option Int × List Stmt)} (none : ∀ case ∈ more, case.2 = []) :
          placements [.switchStmt bb condition more] = [] := by
        simp [Stmt.placements, casePlacements_empty none]
      exact empty (by simp +contextual [or_imp])
  | ret id | condBr condition onTrue onFalse | invoke id normalDest unwindDest | resume
  | funclet id successors | other id successors => rfl

/-- The blocks of a loop that are lifted, in order, are those that were not. -/
theorem liftLoopBody_blocks (func : Function) (loop : Loop) (blocks : List BlockId)
    (body : List Stmt) (state : State) :
    ∃ fresh : List BlockId, fresh.Nodup ∧
      (∀ block, block ∈ fresh ↔
        block ∈ blocks ∧ block ≠ loop.header ∧ state.visited block = false) ∧
      placements (liftLoopBody func loop blocks body state).1 =
        placements body ++ func.placed (fresh.map (·, [])) ∧
      ∀ block, (liftLoopBody func loop blocks body state).2.visited block = true ↔
        state.visited block = true ∨ block ∈ fresh := by
  induction blocks generalizing body state with
  | nil => exact ⟨[], List.nodup_nil, by simp, by simp [liftLoopBody], by simp [liftLoopBody]⟩
  | cons bb blocks ih =>
      rw [liftLoopBody]
      split
      case isTrue skipped =>
        obtain ⟨fresh, nodup, mem_fresh, placed, visited⟩ := ih body state
        refine ⟨fresh, nodup, fun block => ?_, placed, visited⟩
        have other : block = bb → ¬(block ≠ loop.header ∧ state.visited block = false) := by
          rintro rfl ⟨distinct, unvisited⟩
          simp [distinct, unvisited] at skipped
        rw [mem_fresh, List.mem_cons]
        refine ⟨And.imp_left .inr, fun listed => ⟨listed.1.resolve_left fun same => ?_, listed.2⟩⟩
        exact other same listed.2
      case isFalse lifted =>
        simp only [Bool.or_eq_true, decide_eq_true_eq, not_or, Bool.not_eq_true] at lifted
        obtain ⟨fresh, nodup, mem_fresh, placed, visited⟩ :=
          ih (body ++ liftBodyBlock func loop bb) (state.visit bb)
        have apart : bb ∉ fresh := fun listed => by
          simpa [State.visit] using ((mem_fresh bb).mp listed).2.2
        refine ⟨bb :: fresh, List.nodup_cons.mpr ⟨apart, nodup⟩, fun block => ?_, ?_,
          fun block => ?_⟩
        · by_cases same : block = bb
          · simp [same, lifted]
          · simp [mem_fresh, same, State.visit]
        · rw [placed, placements_append, placements_liftBodyBlock]
          simp [List.append_assoc]
        · rw [visited, State.visited_visit, List.mem_cons, or_assoc]

theorem visited_foldl_visit (blocks : List BlockId) (state : State) (block : BlockId) :
    (blocks.foldl State.visit state).visited block = true ↔
      state.visited block = true ∨ block ∈ blocks := by
  induction blocks generalizing state with
  | nil => simp
  | cons first blocks ih =>
      rw [List.foldl_cons, ih, State.visited_visit, List.mem_cons, or_assoc]

theorem foldlM_walks (walks : Walks func analyses lift) {exitBlocks : List BlockId}
    (ran : exitBlocks.foldlM (fun (stmts, state) exitBB => lift (some exitBB) exit stmts state)
      (stmts, state) = some (lifted, after)) :
    ∃ log, Walk func analyses (.exits exitBlocks) exit state after log ∧
      placements lifted = placements stmts ++ func.placed log := by
  induction exitBlocks generalizing stmts state with
  | nil =>
      cases ran
      exact ⟨[], .noExits, by simp⟩
  | cons exitBB exitBlocks ih =>
      obtain ⟨⟨more, between⟩, first, rest⟩ := Option.bind_eq_some_iff.mp ran
      obtain ⟨log, walked, placed⟩ := walks first
      obtain ⟨others, walkedOthers, placedOthers⟩ := ih rest
      refine ⟨log ++ others, .exit walked walkedOthers, ?_⟩
      rw [placedOthers, placed, Function.placed_append, List.append_assoc]

theorem liftLoop_walks (walks : Walks func analyses lift) {loop : Loop}
    (distinct : some entry ≠ exit) (fresh : state.visited entry = false)
    (header : analyses.loopOf entry = some loop)
    (ran : liftLoop func analyses lift (compactCompoundAssigns folds) loop entry exit stmts
      (state.visit entry) = some (lifted, after)) :
    ∃ log, Walk func analyses (.region (some entry)) exit state after log ∧
      placements lifted = placements stmts ++ func.placed log := by
  have same : loop.header = entry := by
    simpa using (Option.filter_eq_some_iff.mp header).2
  obtain ⟨body, nodup, mem_body, placed, visited⟩ :=
    liftLoopBody_blocks func loop loop.blocks [] (state.visit entry)
  obtain ⟨log, walked, placedRest⟩ := foldlM_walks walks ran
  refine ⟨body.map (·, [.loop entry]) ++ log, .loop distinct fresh header nodup (fun block => ?_)
    (fun block => ?_) walked, ?_⟩
  · rw [mem_body, same]
    simp +contextual [State.visit]
  · rw [visited_foldl_visit, visited, mem_body, State.visited_visit]
    tauto
  · -- Whatever the loop becomes, its statement holds the body at the place of the loop.
    have whole (stmt : Stmt) (holds : stmt.placements = within (.loop entry)
        (placements (compactCompoundAssigns folds
          (liftLoopBody func loop loop.blocks [] (state.visit entry)).1))) :
        placements (stmts ++ [stmt]) =
          placements stmts ++ func.placed (body.map (·, [.loop entry])) := by
      have inside : body.map (·, [Place.loop entry]) =
          Log.within (.loop entry) (body.map (·, [])) := by
        simp [Log.within]
      rw [inside, Function.placed_within, placements_append, placements_cons, placements_nil,
        List.append_nil, holds, placements_compactCompoundAssigns, placed, placements_nil,
        List.nil_append]
    rw [placedRest, Function.placed_append, ← List.append_assoc]
    congr 1
    refine whole _ ?_
    split
    · rfl
    · split <;> rfl

/-! ### A branch -/

/-- The cases are the first arms of a switch. -/
theorem liftCases_walks (walks : Walks func analyses lift) (branch : BlockId) (index : Nat)
    {convergeBB : Option BlockId} {cases : List (Int × BlockId)}
    {bodies : List (Option Int × List Stmt)}
    (ran : liftCases lift convergeBB cases state = some (bodies, after)) :
    ∃ log, bodies.length = cases.length ∧
      casePlacements branch index bodies = func.placed log ∧
      ∀ {others last rest},
        Walk func analyses (.arms branch (index + cases.length) others) convergeBB after last rest →
          Walk func analyses (.arms branch index (cases.map Prod.snd ++ others)) convergeBB state
            last (log ++ rest) := by
  induction cases generalizing state bodies index with
  | nil =>
      cases ran
      exact ⟨[], rfl, rfl, id⟩
  | cons case cases ih =>
      obtain ⟨⟨body, between⟩, first, ran⟩ := Option.bind_eq_some_iff.mp ran
      obtain ⟨⟨more, last⟩, later, same⟩ := Option.bind_eq_some_iff.mp ran
      cases same
      obtain ⟨log, walked, placed⟩ := walks first
      obtain ⟨others, lengths, placedOthers, continues⟩ := ih (index + 1) later
      refine ⟨log.within (.arm branch index) ++ others, by simp [lengths], ?_, fun rest => ?_⟩
      · rw [casePlacements, placedOthers, placed, Function.placed_append, Function.placed_within]
        rfl
      · rw [List.length_cons, Nat.add_comm cases.length, ← Nat.add_assoc] at rest
        rw [List.append_assoc]
        exact .arm walked (continues rest)

theorem liftArm_walks (walks : Walks func analyses lift) {arm : BlockId}
    {convergeBB : Option BlockId}
    (ran : liftArm lift arm convergeBB state = some (lifted, after)) :
    ∃ log, Walk func analyses (.region (some arm)) convergeBB state after log ∧
      placements lifted = func.placed log := by
  unfold liftArm at ran
  split at ran
  case isTrue => simpa using walks ran
  case isFalse met =>
    cases ran
    exact ⟨[], .done (.inl (not_ne_iff.mp met)), rfl⟩

theorem liftSwitch_walks (walks : Walks func analyses lift) {condition : Nat}
    {cases : List (Int × BlockId)} {defaultDest : BlockId} (distinct : some entry ≠ exit)
    (fresh : state.visited entry = false) (plain : analyses.loopOf entry = none)
    (kind : (func.block entry).terminator = .switch condition cases defaultDest)
    (ran : liftSwitch analyses lift entry condition cases defaultDest exit
      (stmts ++ (func.block entry).insts.map .inst) (state.visit entry) = some (lifted, after)) :
    ∃ log, Walk func analyses (.region (some entry)) exit state after log ∧
      placements lifted = placements stmts ++ func.placed log := by
  obtain ⟨⟨bodies, between⟩, first, ran⟩ := Option.bind_eq_some_iff.mp ran
  obtain ⟨⟨body, last⟩, default, ran⟩ := Option.bind_eq_some_iff.mp ran
  obtain ⟨caseLog, lengths, placedCases, continues⟩ := liftCases_walks walks entry 0 first
  obtain ⟨defaultLog, walkedDefault, placedDefault⟩ := liftArm_walks walks default
  obtain ⟨rest, walkedRest, placedRest⟩ := walks ran
  have arms := continues (.arm walkedDefault .noArms)
  refine ⟨_, .branch distinct fresh plain ?_ (by rw [kind]; exact arms)
    (by rw [kind]; exact walkedRest), ?_⟩
  · rw [kind]
    simp [Terminator.successors, Terminator.arms, List.subset_def, or_comm]
  · rw [placedRest]
    simp [Block.ids, kind, Terminator.ids, Stmt.placements, casePlacements_append, placedCases,
      casePlacements, placedDefault, lengths]

theorem liftIf_walks (walks : Walks func analyses lift) {condition : Nat} {trueBB falseBB : BlockId}
    (distinct : some entry ≠ exit) (fresh : state.visited entry = false)
    (plain : analyses.loopOf entry = none)
    (kind : (func.block entry).terminator = .condBr condition trueBB falseBB)
    (ran : liftIf analyses lift entry condition trueBB falseBB exit
      (stmts ++ (func.block entry).insts.map .inst) (state.visit entry) = some (lifted, after)) :
    ∃ log, Walk func analyses (.region (some entry)) exit state after log ∧
      placements lifted = placements stmts ++ func.placed log := by
  obtain ⟨⟨thenBody, between⟩, first, ran⟩ := Option.bind_eq_some_iff.mp ran
  obtain ⟨⟨elseBody, last⟩, second, ran⟩ := Option.bind_eq_some_iff.mp ran
  obtain ⟨thenLog, walkedThen, placedThen⟩ := walks first
  obtain ⟨elseLog, walkedElse, placedElse⟩ := liftArm_walks walks second
  obtain ⟨rest, walkedRest, placedRest⟩ := walks ran
  refine ⟨_, .branch distinct fresh plain ?_
    (by rw [kind]; exact .arm walkedThen (.arm walkedElse .noArms))
    (by rw [kind]; exact walkedRest), ?_⟩
  · rw [kind]
    exact List.Subset.refl _
  · rw [placedRest]
    simp [Block.ids, kind, Terminator.ids, Stmt.placements, placedThen, placedElse]

/-! ### A block -/

theorem liftBlock_walks (walks : Walks func analyses lift)
    (structured : (func.block entry).terminator.isStructured = true) (distinct : some entry ≠ exit)
    (fresh : state.visited entry = false) (plain : analyses.loopOf entry = none)
    (ran : liftBlock func analyses lift (compactCompoundAssigns folds) entry exit stmts
      (state.visit entry) = some (lifted, after)) :
    ∃ log, Walk func analyses (.region (some entry)) exit state after log ∧
      placements lifted = placements stmts ++ func.placed log := by
  unfold liftBlock at ran
  cases kind : (func.block entry).terminator with
  | switch condition cases defaultDest =>
      rw [kind] at ran
      exact liftSwitch_walks walks distinct fresh plain kind ran
  | condBr condition trueBB falseBB =>
      rw [kind] at ran
      exact liftIf_walks walks distinct fresh plain kind ran
  | br target =>
      rw [kind] at ran
      obtain ⟨log, walked, placed⟩ := walks ran
      refine ⟨_, .jump distinct fresh plain kind walked, ?_⟩
      rw [placed]
      simp [Block.ids, kind, Terminator.ids]
  | resume =>
      rw [kind] at ran
      cases ran
      refine ⟨_, .leaf distinct fresh plain (by rw [kind]; rfl), ?_⟩
      simp [Block.ids, kind, Terminator.ids]
  | ret id =>
      rw [kind] at ran
      cases ran
      refine ⟨_, .leaf distinct fresh plain (by rw [kind]; rfl), ?_⟩
      simp [Block.ids, kind, Terminator.ids, Stmt.placements]
  | other id successors =>
      have none : successors = [] := by simpa [kind, Terminator.isStructured] using structured
      rw [kind] at ran
      cases ran
      refine ⟨_, .leaf distinct fresh plain (by rw [kind]; exact none), ?_⟩
      simp [Block.ids, kind, Terminator.ids, Stmt.placements]
  | invoke | funclet => simp [kind, Terminator.isStructured] at structured

/-- Lifting is a walk over the blocks. -/
theorem liftBlockRegion_walks
    (structured : ∀ block, (func.block block).terminator.isStructured = true) (fuel : Nat) :
    Walks func analyses (liftBlockRegion func analyses (compactCompoundAssigns folds) fuel) := by
  induction fuel with
  | zero =>
      intro entry exit stmts state lifted after ran
      cases ran
  | succ fuel ih =>
      intro entry exit stmts state lifted after ran
      cases entry with
      | none =>
          cases ran
          exact ⟨[], .stop, by simp⟩
      | some entry =>
          rcases liftBlockRegion_cases ran with ⟨done, rfl, rfl⟩ |
            ⟨distinct, fresh, recovered, attempted, attempt, tried, outcome⟩
          · exact ⟨[], .done done, by simp⟩
          · rw [tryLiftEHRegion_structured structured] at tried
            cases tried
            rcases outcome with ⟨done, -⟩ | ⟨-, ⟨loop, header, ran⟩ | ⟨plain, ran⟩⟩
            · simp [fresh] at done
            · exact liftLoop_walks ih distinct fresh header ran
            · exact liftBlock_walks ih (structured entry) distinct fresh plain ran

end Correct

end RegionLifting
end Decompile
end TopoLlvm
