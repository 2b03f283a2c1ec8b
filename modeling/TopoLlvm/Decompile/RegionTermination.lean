import TopoLlvm.Decompile.RegionWalk
import Mathlib.Data.Finset.Card
import Mathlib.Data.Finset.Range

/-!
# Lifting ends

Every recursion of the lifting is made with one more block visited, so fuel for one more step than
there are blocks left gives a result.
-/

namespace TopoLlvm
namespace Decompile
namespace RegionLifting

section Termination

variable {func : Function} {analyses : Analyses} {compactCompoundAssigns : List Stmt → List Stmt}
  {lift : Lift} {entry : BlockId} {exit : Option BlockId} {stmts : List Stmt} {state after : State}

/-- The blocks of the function that are not lifted. -/
def Function.unvisited (func : Function) (state : State) : Finset BlockId :=
  (Finset.range func.blocks.length).filter fun block => state.visited block = false

theorem mem_unvisited {block : BlockId} :
    block ∈ func.unvisited state ↔ block < func.blocks.length ∧ state.visited block = false := by
  simp [Function.unvisited]

theorem unvisited_subset (grown : state.Extends after) :
    func.unvisited after ⊆ func.unvisited state := by
  intro block left
  rw [mem_unvisited, Bool.eq_false_iff] at left ⊢
  exact ⟨left.1, left.2 ∘ grown.visited block⟩

theorem unvisited_card_le (grown : state.Extends after) :
    (func.unvisited after).card ≤ (func.unvisited state).card :=
  Finset.card_le_card (unvisited_subset grown)

theorem unvisited_visit_card_lt (inside : entry < func.blocks.length)
    (fresh : state.visited entry = false) :
    (func.unvisited (state.visit entry)).card < (func.unvisited state).card := by
  refine Finset.card_lt_card ⟨unvisited_subset (state.extends_visit entry), fun same => ?_⟩
  have here := mem_unvisited.mp (same (mem_unvisited.mpr ⟨inside, fresh⟩))
  simp [State.visit] at here

/-- There is a result wherever fewer blocks than a bound are left. -/
def Total (func : Function) (bound : Nat) (lift : Lift) : Prop :=
  ∀ entry exit stmts ⦃state⦄, (func.unvisited state).card < bound →
    ∃ lifted after, lift entry exit stmts state = some (lifted, after)

section Total

variable {bound : Nat} (grows : Grows lift) (total : Total func bound lift)
include grows total

theorem foldlM_total (exitBlocks : List BlockId) (stmts : List Stmt)
    (few : (func.unvisited state).card < bound) :
    ∃ lifted after, exitBlocks.foldlM
      (fun (stmts, state) exitBB => lift (some exitBB) exit stmts state) (stmts, state) =
        some (lifted, after) := by
  induction exitBlocks generalizing stmts state with
  | nil => exact ⟨stmts, state, rfl⟩
  | cons exitBB exitBlocks ih =>
      obtain ⟨more, between, first⟩ := total (some exitBB) exit stmts few
      obtain ⟨lifted, after, rest⟩ :=
        ih more (lt_of_le_of_lt (unvisited_card_le (grows first)) few)
      refine ⟨lifted, after, ?_⟩
      rw [List.foldlM_cons]
      exact Option.bind_eq_some_iff.mpr ⟨_, first, rest⟩

theorem liftCases_total (convergeBB : Option BlockId) (cases : List (Int × BlockId))
    (few : (func.unvisited state).card < bound) :
    ∃ bodies after, liftCases lift convergeBB cases state = some (bodies, after) := by
  induction cases generalizing state with
  | nil => exact ⟨[], state, rfl⟩
  | cons case cases ih =>
      obtain ⟨body, between, first⟩ := total (some case.2) convergeBB [] few
      obtain ⟨bodies, after, rest⟩ := ih (lt_of_le_of_lt (unvisited_card_le (grows first)) few)
      exact ⟨(some case.1, body) :: bodies, after, by simp [liftCases, first, rest]⟩

end Total

theorem liftArm_total {bound : Nat} (total : Total func bound lift) (arm : BlockId)
    (convergeBB : Option BlockId) (few : (func.unvisited state).card < bound) :
    ∃ body after, liftArm lift arm convergeBB state = some (body, after) := by
  unfold liftArm
  split
  · exact total _ _ _ few
  · exact ⟨[], state, rfl⟩

theorem liftLoop_total {bound : Nat} (grows : Grows lift) (total : Total func bound lift)
    (loop : Loop) (few : (func.unvisited state).card < bound) :
    ∃ lifted after, liftLoop func analyses lift compactCompoundAssigns loop entry exit stmts state =
      some (lifted, after) :=
  foldlM_total grows total loop.exitBlocks _ (lt_of_le_of_lt (unvisited_card_le
    ((liftLoopBody_grows loop loop.blocks [] state).trans (State.extends_foldl_visit _ _))) few)

theorem liftSwitch_total {bound : Nat} (grows : Grows lift) (total : Total func bound lift)
    (condition : Nat) (cases : List (Int × BlockId)) (defaultDest : BlockId)
    (few : (func.unvisited state).card < bound) :
    ∃ lifted after, liftSwitch analyses lift entry condition cases defaultDest exit stmts state =
      some (lifted, after) := by
  obtain ⟨bodies, between, first⟩ := liftCases_total grows total
    (analyses.join (cases.map Prod.snd ++ [defaultDest])) cases few
  have fewer := lt_of_le_of_lt (unvisited_card_le (liftCases_grows grows first)) few
  obtain ⟨body, last, default⟩ := liftArm_total total defaultDest
    (analyses.join (cases.map Prod.snd ++ [defaultDest])) fewer
  obtain ⟨lifted, after, rest⟩ := total
    _ _ _ (lt_of_le_of_lt (unvisited_card_le (liftArm_grows grows default)) fewer)
  exact ⟨lifted, after, Option.bind_eq_some_iff.mpr ⟨_, first,
    Option.bind_eq_some_iff.mpr ⟨_, default, rest⟩⟩⟩

theorem liftIf_total {bound : Nat} (grows : Grows lift) (total : Total func bound lift)
    (condition : Nat) (trueBB falseBB : BlockId) (few : (func.unvisited state).card < bound) :
    ∃ lifted after, liftIf analyses lift entry condition trueBB falseBB exit stmts state =
      some (lifted, after) := by
  obtain ⟨thenBody, between, first⟩ :=
    total (some trueBB) (analyses.findNearestCommonDominator trueBB falseBB) [] few
  have fewer := lt_of_le_of_lt (unvisited_card_le (grows first)) few
  obtain ⟨elseBody, last, second⟩ := liftArm_total total falseBB
    (analyses.findNearestCommonDominator trueBB falseBB) fewer
  obtain ⟨lifted, after, rest⟩ := total
    _ _ _ (lt_of_le_of_lt (unvisited_card_le (liftArm_grows grows second)) fewer)
  exact ⟨lifted, after, Option.bind_eq_some_iff.mpr ⟨_, first,
    Option.bind_eq_some_iff.mpr ⟨_, second, rest⟩⟩⟩

theorem liftBlock_total {bound : Nat} (grows : Grows lift) (total : Total func bound lift)
    (few : (func.unvisited state).card < bound) :
    ∃ lifted after, liftBlock func analyses lift compactCompoundAssigns entry exit stmts state =
      some (lifted, after) := by
  unfold liftBlock
  cases (func.block entry).terminator with
  | switch condition cases defaultDest => exact liftSwitch_total grows total _ _ _ few
  | condBr condition trueBB falseBB => exact liftIf_total grows total _ _ _ few
  | br target => exact total _ _ _ few
  | invoke id normalDest unwindDest => exact total _ _ _ few
  | resume | ret id | funclet id successors | other id successors => exact ⟨_, _, rfl⟩

theorem liftBlockRegion_total (compactCompoundAssigns : List Stmt → List Stmt)
    (structured : ∀ block, (func.block block).terminator.isStructured = true)
    (headers : ∀ header loop, analyses.loopOf header = some loop → header < func.blocks.length)
    (fuel : Nat) :
    Total func fuel (liftBlockRegion func analyses compactCompoundAssigns fuel) := by
  induction fuel with
  | zero => exact fun _ _ _ _ few => absurd few (Nat.not_lt_zero _)
  | succ fuel ih =>
      intro entry exit stmts state few
      cases entry with
      | none => exact ⟨stmts, state, rfl⟩
      | some entry =>
          rw [liftBlockRegion]
          split
          · exact ⟨stmts, state, rfl⟩
          · rename_i fresh
            simp only [Bool.or_eq_true, decide_eq_true_eq, not_or, Bool.not_eq_true] at fresh
            rw [tryLiftEHRegion_structured structured]
            simp only [Option.bind_eq_bind, Option.bind_some, Bool.false_or, fresh.2,
              Bool.false_eq_true, if_false]
            by_cases inside : entry < func.blocks.length
            · have fewer : (func.unvisited (state.visit entry)).card < fuel :=
                lt_of_lt_of_le (unvisited_visit_card_lt inside fresh.2) (Nat.le_of_lt_succ few)
              split
              · exact liftLoop_total (liftBlockRegion_grows fuel) ih _ fewer
              · exact liftBlock_total (liftBlockRegion_grows fuel) ih fewer
            · -- Nothing is lifted of a block that does not exist.
              have absent := (func.block_of_le (Nat.le_of_not_lt inside)).2
              split
              · rename_i loop header
                exact absurd (headers entry loop header) inside
              · simp [liftBlock, absent]

end Termination

end RegionLifting
end Decompile
end TopoLlvm
