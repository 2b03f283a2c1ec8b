import TopoLlvm.Decompile.RegionCoverage
import TopoLlvm.Library.PostDominance

/-!
# Runs of lifted functions

In a function without loops, the arms of a branch are lifted up to the block where they meet again.
Where no block belongs to two arms, the lifted statements go the way of the function: they execute
the same instructions in the same order and return where it returns.
-/

namespace TopoLlvm
namespace Decompile
namespace RegionLifting

open PostDominance (Avoiding PostDominates MeetsAt)

/-- What instructions do, and what conditions and subjects say. -/
structure Meaning (S : Type*) where
  effect : Nat → S → S
  holds : Nat → S → Bool
  subject : Nat → S → Int

/-- Control goes on, or has returned. -/
inductive Outcome (S : Type*) where
  | normal (state : S)
  | returned (state : S)

/-! ## Statements -/

section Statements

variable {S : Type*}

def Outcome.andThen (outcome : Outcome S) (rest : S → Option (Outcome S)) : Option (Outcome S) :=
  match outcome with
  | .normal state => rest state
  | .returned state => some (.returned state)

variable (meaning : Meaning S) (returns : Nat → Bool)

def runInst (id : Nat) (state : S) : Outcome S :=
  if returns id then .returned (meaning.effect id state) else .normal (meaning.effect id state)

mutual

/-- Execute a statement; loops and what belongs to them are not part of this language, nor is
`try`. -/
def Stmt.run : Stmt → S → Option (Outcome S)
  | .inst id, state => some (runInst meaning returns id state)
  | .compoundAssign load operation store, state =>
      (runInst meaning returns load state).andThen fun state =>
        (runInst meaning returns operation state).andThen fun state =>
          some (runInst meaning returns store state)
  | .ifStmt _ condition thenBody elseBody, state =>
      if meaning.holds condition state then runAll thenBody state else runAll elseBody state
  | .switchStmt _ subject cases, state => runCases (meaning.subject subject state) cases state
  | .whileStmt .., _ | .forStmt .., _ | .tryCatch .., _ | .breakStmt, _ | .continueStmt, _ => none

def runAll : List Stmt → S → Option (Outcome S)
  | [], state => some (.normal state)
  | stmt :: stmts, state => (stmt.run state).bind fun outcome => outcome.andThen (runAll stmts)

/-- The first case that fits; the default case fits always. -/
def runCases (value : Int) : List (Option Int × List Stmt) → S → Option (Outcome S)
  | [], state => some (.normal state)
  | (label, body) :: cases, state =>
      if label.all (· = value) then runAll body state else runCases value cases state

end

variable {meaning returns}

@[simp] theorem runAll_nil (state : S) : runAll meaning returns [] state = some (.normal state) := by
  simp [runAll]

@[simp] theorem runAll_cons (stmt : Stmt) (stmts : List Stmt) (state : S) :
    runAll meaning returns (stmt :: stmts) state =
      (stmt.run meaning returns state).bind fun outcome =>
        outcome.andThen (runAll meaning returns stmts) := by
  simp [runAll]

theorem Outcome.andThen_andThen (outcome : Outcome S) (first second : S → Option (Outcome S)) :
    (outcome.andThen first).bind (fun outcome => outcome.andThen second) =
      outcome.andThen fun state => (first state).bind fun outcome => outcome.andThen second := by
  cases outcome with
  | normal state => rfl
  | returned state => rfl

theorem runAll_append (stmts more : List Stmt) (state : S) :
    runAll meaning returns (stmts ++ more) state =
      (runAll meaning returns stmts state).bind fun outcome =>
        outcome.andThen (runAll meaning returns more) := by
  induction stmts generalizing state with
  | nil => simp [Outcome.andThen]
  | cons stmt stmts ih =>
      rw [List.cons_append, runAll_cons, runAll_cons, Option.bind_assoc]
      refine congrArg _ (funext fun outcome => ?_)
      rw [Outcome.andThen_andThen]
      exact congrArg outcome.andThen (funext ih)

/-- A compound assignment does what its parts do. -/
theorem runAll_compactCompoundAssigns (folds : Nat → Nat → Nat → Bool) (stmts : List Stmt)
    (state : S) :
    runAll meaning returns (compactCompoundAssigns folds stmts) state =
      runAll meaning returns stmts state := by
  induction stmts using compactCompoundAssigns.induct folds generalizing state with
  | case1 load operation store stmts folded ih =>
      have inst (id : Nat) (more : List Stmt) : runAll meaning returns (.inst id :: more) =
          fun state => (runInst meaning returns id state).andThen (runAll meaning returns more) :=
        funext fun state => by rw [runAll_cons, Stmt.run, Option.bind_some]
      rw [compactCompoundAssigns, if_pos folded, runAll_cons, Stmt.run, funext ih]
      simp only [inst, Outcome.andThen_andThen, Option.bind_some]
  | case2 load operation store stmts apart ih =>
      rw [compactCompoundAssigns, if_neg apart, runAll_cons, runAll_cons]
      exact congrArg _ (funext fun outcome => congrArg outcome.andThen (funext ih))
  | case3 stmt stmts other ih =>
      rw [compactCompoundAssigns.eq_2 folds stmt stmts other, runAll_cons, runAll_cons]
      exact congrArg _ (funext fun outcome => congrArg outcome.andThen (funext ih))
  | case4 => rfl

/-- What instructions do one after the other. -/
def Meaning.effects (meaning : Meaning S) (ids : List Nat) (state : S) : S :=
  ids.foldl (fun state id => meaning.effect id state) state

theorem runAll_insts {ids : List Nat} (goOn : ∀ id ∈ ids, returns id = false) (more : List Stmt)
    (state : S) :
    runAll meaning returns (ids.map .inst ++ more) state =
      runAll meaning returns more (meaning.effects ids state) := by
  induction ids generalizing state with
  | nil => rfl
  | cons id ids ih =>
      obtain ⟨here, later⟩ := List.forall_mem_cons.mp goOn
      have first : runInst meaning returns id state = .normal (meaning.effect id state) := by
        simp [runInst, here]
      rw [List.map_cons, List.cons_append, runAll_cons, Stmt.run, Option.bind_some, first]
      exact ih later _

end Statements

/-! ## Functions -/

section Functions

variable {S : Type*} (func : Function)

def Function.edge (block next : BlockId) : Prop := next ∈ (func.block block).terminator.successors

/-- The instructions that return. -/
def Function.returns (id : Nat) : Bool := func.blocks.any fun block => block.terminator = .ret id

variable (meaning : Meaning S)

/-- Where a terminator goes on. -/
def Terminator.target (state : S) : Terminator → Option BlockId
  | .br target => some target
  | .condBr condition onTrue onFalse =>
      some (if meaning.holds condition state then onTrue else onFalse)
  | .switch condition cases defaultDest =>
      some (((cases.find? (·.1 = meaning.subject condition state)).map Prod.snd).getD defaultDest)
  | .ret _ | .invoke .. | .resume | .funclet .. | .other .. => none

/-- A run from a block up to an exit or a return. -/
inductive Function.Run : BlockId → Option BlockId → S → Outcome S → Prop
  | reached {entry : BlockId} {exit : Option BlockId} {state : S} (here : some entry = exit) :
      Run entry exit state (.normal state)
  | returned {entry : BlockId} {exit : Option BlockId} {state : S} {id : Nat}
      (distinct : some entry ≠ exit) (ends : (func.block entry).terminator = .ret id) :
      Run entry exit state
        (.returned (meaning.effect id (meaning.effects (func.block entry).insts state)))
  | goes {entry next : BlockId} {exit : Option BlockId} {state : S} {outcome : Outcome S}
      (distinct : some entry ≠ exit)
      (target : (func.block entry).terminator.target meaning
        (meaning.effects (func.block entry).insts state) = some next)
      (rest : Run next exit (meaning.effects (func.block entry).insts state) outcome) :
      Run entry exit state outcome

variable {func meaning}

theorem Terminator.mem_successors {state : S} {terminator : Terminator} {next : BlockId}
    (target : terminator.target meaning state = some next) : next ∈ terminator.successors := by
  cases terminator with
  | br other =>
      cases target
      exact List.mem_cons_self
  | condBr condition onTrue onFalse =>
      simp only [Terminator.target, Option.some.injEq] at target
      split at target <;> simp [successors, target]
  | switch condition cases defaultDest =>
      simp only [Terminator.target, Option.some.injEq] at target
      cases found : cases.find? (·.1 = meaning.subject condition state) with
      | none =>
          rw [found] at target
          cases target
          exact List.mem_cons_self
      | some case =>
          rw [found] at target
          cases target
          exact List.mem_cons_of_mem _ (List.mem_map_of_mem (List.mem_of_find?_eq_some found))
  | ret | invoke | resume | funclet | other => cases target

/-- A run up to an exit passes the place where some ways meet, or returns before. -/
theorem Function.Run.cut {entry : BlockId} {exit meet : Option BlockId} {state : S}
    {outcome : Outcome S} (run : func.Run meaning entry exit state outcome)
    (apart : ∀ passed, Avoiding func.edge meet entry passed → some passed ≠ exit) :
    (∃ last, outcome = .returned last ∧ func.Run meaning entry meet state (.returned last)) ∨
      ∃ met between, meet = some met ∧ func.Run meaning entry meet state (.normal between) ∧
        func.Run meaning met exit between outcome := by
  induction run with
  | @reached entry exit state here =>
      by_cases met : some entry = meet
      · exact .inr ⟨entry, state, met.symm, .reached met, .reached here⟩
      · exact absurd here (apart entry (.refl met))
  | @returned entry exit state id distinct ends =>
      by_cases met : some entry = meet
      · exact .inr ⟨entry, state, met.symm, .reached met, .returned distinct ends⟩
      · exact .inl ⟨_, rfl, .returned met ends⟩
  | @goes entry next exit state outcome distinct target rest ih =>
      by_cases met : some entry = meet
      · exact .inr ⟨entry, state, met.symm, .reached met, .goes distinct target rest⟩
      · obtain ⟨last, rfl, front⟩ | ⟨other, between, same, front, back⟩ :=
          ih fun passed path => apart passed (.head met (Terminator.mem_successors target) path)
        · exact .inl ⟨last, rfl, .goes met target front⟩
        · exact .inr ⟨other, between, same, .goes met target front, back⟩

end Functions

/-! ## Structured functions -/

section Structured

variable (func : Function) (analyses : Analyses)

/-- A function without loops, with what the tree of post-dominators says. -/
structure LoopFree : Prop where
  flow : ControlFlow func analyses
  plain : ∀ block, analyses.loopOf block = none
  acyclic : ∃ rank : BlockId → Nat, ∀ block next, func.edge block next → rank next < rank block
  meets : ∀ first second, Reachable func first → Reachable func second →
    MeetsAt func.edge (analyses.findNearestCommonDominator first second) [first, second]

/-- No block is passed from both before they meet. -/
def Apart (meet : Option BlockId) (first second : BlockId) : Prop :=
  ∀ shared, Avoiding func.edge meet first shared → ¬ Avoiding func.edge meet second shared

/-- The arms of a branch share no block before they meet. -/
def ArmsApart : Prop :=
  ∀ block, Reachable func block → (func.block block).terminator.arms.Pairwise
    (Apart func (analyses.join (func.block block).terminator.arms))

/-- A region that is still to be lifted, up to where all of its paths go. -/
structure Regular (entry : BlockId) (exit : Option BlockId) (state : State) : Prop where
  reachable : Reachable func entry
  bounded : ∀ met, exit = some met → PostDominates func.edge met entry
  fresh : ∀ block, Avoiding func.edge exit entry block → state.visited block = false

variable {func analyses}

/-! ### Where arms meet -/

theorem Reachable.step {block next : BlockId} (reachable : Reachable func block)
    (edge : func.edge block next) : Reachable func next := reachable.tail edge

/-- What all paths from a block pass can be reached. -/
theorem LoopFree.reachable_of_meets (loopFree : LoopFree func analyses) {meet : Option BlockId}
    {node met : BlockId} {nodes : List BlockId} (meets : MeetsAt func.edge meet nodes)
    (member : node ∈ nodes) (reachable : Reachable func node) (here : meet = some met) :
    Reachable func met := by
  obtain ⟨rank, falls⟩ := loopFree.acyclic
  exact reachable.trans ((meets.common met here node member).reaches falls)

theorem LoopFree.meets_converge (loopFree : LoopFree func analyses) {meet : Option BlockId}
    {node : BlockId} {nodes others : List BlockId} (meets : MeetsAt func.edge meet (node :: nodes))
    (reachable : Reachable func node) (reached : ∀ other ∈ others, Reachable func other) :
    MeetsAt func.edge (others.foldl (fun converge dest =>
        converge.bind fun converge => analyses.findNearestCommonDominator converge dest) meet)
      (node :: nodes ++ others) := by
  induction others generalizing meet nodes with
  | nil => rwa [List.append_nil]
  | cons other others ih =>
      obtain ⟨here, later⟩ := List.forall_mem_cons.mp reached
      have further : MeetsAt func.edge (meet.bind fun converge =>
          analyses.findNearestCommonDominator converge other) (node :: (nodes ++ [other])) := by
        refine meets.snoc (fun met same => ?_) fun none => by rw [none, Option.bind_none]
        have between := loopFree.reachable_of_meets meets List.mem_cons_self reachable same
        rw [same]
        exact loopFree.meets met other between here
      have all := ih further later
      rwa [List.cons_append, List.append_assoc] at all

theorem LoopFree.meets_join (loopFree : LoopFree func analyses) {arms : List BlockId}
    (some : arms ≠ []) (reachable : ∀ arm ∈ arms, Reachable func arm) :
    MeetsAt func.edge (analyses.join arms) arms := by
  cases arms with
  | nil => exact absurd rfl some
  | cons first others =>
      obtain ⟨here, later⟩ := List.forall_mem_cons.mp reachable
      exact loopFree.meets_converge (.single first) here later

/-- What is visited is visited before, or passed from one of some entries. -/
def Grown (func : Function) (exit : Option BlockId) (entries : List BlockId)
    (state after : State) : Prop :=
  ∀ block, after.visited block = true →
    state.visited block = true ∨ ∃ entry ∈ entries, Avoiding func.edge exit entry block

theorem Regular.after {entry : BlockId} {exit : Option BlockId} {entries : List BlockId}
    {state after : State} (regular : Regular func entry exit state)
    (grown : Grown func exit entries state after)
    (apart : ∀ first ∈ entries, Apart func exit first entry) : Regular func entry exit after := by
  refine ⟨regular.reachable, regular.bounded, fun block path => ?_⟩
  refine Bool.eq_false_iff.mpr fun visited => ?_
  obtain old | ⟨first, member, other⟩ := grown block visited
  · cases (regular.fresh block path).symm.trans old
  · exact apart first member block other path

theorem Grown.append {exit : Option BlockId} {entries others : List BlockId}
    {state between after : State} (first : Grown func exit entries state between)
    (second : Grown func exit others between after) :
    Grown func exit (entries ++ others) state after := by
  intro block visited
  obtain old | ⟨entry, member, path⟩ := second block visited
  · exact (first block old).imp_right fun ⟨entry, member, path⟩ =>
      ⟨entry, List.mem_append_left _ member, path⟩
  · exact .inr ⟨entry, List.mem_append_right _ member, path⟩

/-- A block that branches, with where its arms meet. -/
structure Branch (func : Function) (entry : BlockId) (exit meet : Option BlockId)
    (arms : List BlockId) (state : State) : Prop where
  regular : Regular func entry exit state
  distinct : some entry ≠ exit
  edges : ∀ arm ∈ arms, func.edge entry arm
  meets : MeetsAt func.edge meet arms
  apart : arms.Pairwise (Apart func meet)

namespace Branch

variable {entry arm passed met : BlockId} {exit meet : Option BlockId} {arms : List BlockId}
  {state between : State} (branch : Branch func entry exit meet arms state)
  (loopFree : LoopFree func analyses)

include branch loopFree

theorem ne_exit (member : arm ∈ arms) (path : Avoiding func.edge meet arm passed) :
    some passed ≠ exit := by
  obtain ⟨rank, falls⟩ := loopFree.acyclic
  refine branch.meets.ne_exit falls member path fun met here other among => ?_
  exact (branch.regular.bounded met here).step
    (fun same => branch.distinct (same ▸ here.symm)) (branch.edges other among)

theorem passes (member : arm ∈ arms) (path : Avoiding func.edge meet arm passed) :
    Avoiding func.edge exit entry passed :=
  .head branch.distinct (branch.edges arm member)
    (path.of_ne fun _ path => branch.ne_exit loopFree member path)

theorem regular_arm (member : arm ∈ arms) : Regular func arm meet (state.visit entry) := by
  refine ⟨branch.regular.reachable.step (branch.edges arm member),
    fun met here => branch.meets.common met here arm member, fun block path => ?_⟩
  refine Bool.eq_false_iff.mpr fun visited => ?_
  obtain old | rfl := (state.visited_visit entry block).mp visited
  · cases (branch.regular.fresh block (branch.passes loopFree member path)).symm.trans old
  · obtain ⟨rank, falls⟩ := loopFree.acyclic
    have below := falls block arm (branch.edges arm member)
    have above := PostDominance.rank_le falls path.reaches
    omega

theorem leads (member : arm ∈ arms) (distinct : some met ≠ exit) (here : meet = some met) :
    Avoiding func.edge exit entry met := by
  obtain ⟨rank, falls⟩ := loopFree.acyclic
  subst here
  exact .head branch.distinct (branch.edges arm member)
    ((branch.meets.common met rfl arm member).leads falls
      (fun _ path => branch.ne_exit loopFree member path) distinct)

/-- Behind the arms, nothing is visited yet. -/
theorem regular_joined (member : arm ∈ arms) (here : meet = some met)
    (grown : Grown func meet arms (state.visit entry) between) : Regular func met exit between := by
  subst here
  have reachable := branch.regular.reachable.step (branch.edges arm member)
  refine ⟨loopFree.reachable_of_meets branch.meets member reachable rfl, fun last same => ?_,
    fun block path => ?_⟩
  · obtain ⟨other, here, behind⟩ := branch.meets.nearest last fun other among =>
      (branch.regular.bounded last same).step
        (fun here => branch.distinct (here ▸ same.symm)) (branch.edges other among)
    cases here
    exact behind
  · refine Bool.eq_false_iff.mpr fun visited => ?_
    have leads := branch.leads loopFree member path.left_ne rfl
    obtain ⟨rank, falls⟩ := loopFree.acyclic
    obtain inside | ⟨other, among, before⟩ := grown block visited
    · obtain old | rfl := (state.visited_visit entry block).mp inside
      · cases (branch.regular.fresh block (leads.trans path)).symm.trans old
      · have below := falls block arm (branch.edges arm member)
        have between := PostDominance.rank_le falls path.reaches
        have above := PostDominance.rank_le falls
          ((branch.meets.common met rfl arm member).reaches falls)
        omega
    · exact branch.meets.not_reaches falls among before path.reaches

theorem grown (member : arm ∈ arms) (grown : Grown func meet arms (state.visit entry) between)
    {after : State} (rest : between = after ∨
      ∃ met, meet = some met ∧ Grown func exit [met] between after) :
    Grown func exit [entry] state after := by
  have inside : Grown func exit [entry] state between := by
    intro block visited
    obtain old | ⟨other, among, path⟩ := grown block visited
    · obtain before | rfl := (state.visited_visit entry block).mp old
      · exact .inl before
      · exact .inr ⟨block, List.mem_cons_self, .refl branch.distinct⟩
    · exact .inr ⟨entry, List.mem_cons_self, branch.passes loopFree among path⟩
  obtain rfl | ⟨met, here, further⟩ := rest
  · exact inside
  · intro block visited
    obtain old | ⟨_, same, path⟩ := further block visited
    · exact inside block old
    · rw [List.mem_singleton.mp same] at path
      have leads := branch.leads loopFree member path.left_ne here
      exact .inr ⟨entry, List.mem_cons_self, leads.trans path⟩

end Branch

/-! ### Lifting -/

variable {S : Type*} {meaning : Meaning S} {lift : Lift} {folds : Nat → Nat → Nat → Bool}

variable (func meaning) in
/-- The lifted statements go on behind others the way of the function. -/
def Emits (entry : BlockId) (exit : Option BlockId) (stmts lifted : List Stmt) : Prop :=
  ∃ emitted,
    (∀ state, runAll meaning func.returns lifted state =
      runAll meaning func.returns (stmts ++ emitted) state) ∧
    ∀ state outcome, func.Run meaning entry exit state outcome →
      runAll meaning func.returns emitted state = some outcome

variable (func meaning) in
/-- Regions are lifted to what goes their way. -/
structure Correct (lift : Lift) : Prop where
  nowhere : ∀ exit stmts state lifted after, lift none exit stmts state = some (lifted, after) →
    lifted = stmts ∧ after = state
  emits : ∀ entry exit stmts state lifted after, Regular func entry exit state →
    lift (some entry) exit stmts state = some (lifted, after) →
      Emits func meaning entry exit stmts lifted ∧ Grown func exit [entry] state after

theorem Emits.run {entry : BlockId} {exit : Option BlockId} {lifted : List Stmt}
    (emits : Emits func meaning entry exit [] lifted) {state : S} {outcome : Outcome S}
    (run : func.Run meaning entry exit state outcome) :
    runAll meaning func.returns lifted state = some outcome := by
  obtain ⟨emitted, same, means⟩ := emits
  rw [same, List.nil_append]
  exact means state outcome run

/-- Instructions of a block do not return. -/
theorem LoopFree.goesOn (loopFree : LoopFree func analyses) {block : BlockId} {id : Nat}
    (member : id ∈ (func.block block).insts) : func.returns id = false := by
  refine Bool.eq_false_iff.mpr fun returns => ?_
  obtain ⟨found, listed, ends⟩ := List.any_eq_true.mp returns
  obtain ⟨other, inside, rfl⟩ := List.mem_iff_getElem.mp listed
  have ends := of_decide_eq_true ends
  have here : func.block other = func.blocks[other] := by
    rw [Function.block, List.getElem?_eq_getElem inside]
    rfl
  have last : id ∈ (func.block other).terminator.ids := by
    rw [here, ends]
    exact List.mem_cons_self
  obtain rfl := loopFree.flow.owner block other id (List.mem_append_left _ member)
    (List.mem_append_right _ last)
  exact (List.nodup_append.mp (loopFree.flow.nodup block)).2.2 id member id last rfl

theorem Function.returns_of_ret {block : BlockId} {id : Nat}
    (ends : (func.block block).terminator = .ret id) : func.returns id = true := by
  have inside : block < func.blocks.length := by
    by_contra absent
    rw [(func.block_of_le (Nat.le_of_not_lt absent)).2] at ends
    cases ends
  refine List.any_eq_true.mpr ⟨func.blocks[block], List.getElem_mem inside, ?_⟩
  rw [Function.block, List.getElem?_eq_getElem inside] at ends
  exact decide_eq_true ends

/-- What is lifted of a branch and of what lies behind goes the way of the function. -/
theorem Branch.emits {entry : BlockId} {exit meet : Option BlockId} {arms : List BlockId}
    {state between after : State} {stmt : Stmt} {stmts lifted : List Stmt}
    (branch : Branch func entry exit meet arms state) (loopFree : LoopFree func analyses)
    (correct : Correct func meaning lift) {arm : BlockId} (member : arm ∈ arms)
    (inside : (func.block entry).terminator.successors ⊆ arms)
    (grown : Grown func meet arms (state.visit entry) between)
    (means : ∀ state next outcome, (func.block entry).terminator.target meaning state = some next →
      func.Run meaning next meet state outcome → stmt.run meaning func.returns state = some outcome)
    (ran : lift meet exit (stmts ++ (func.block entry).insts.map .inst ++ [stmt]) between =
      some (lifted, after)) :
    Emits func meaning entry exit stmts lifted ∧ Grown func exit [entry] state after := by
  obtain ⟨rest, same, behind, more⟩ : ∃ rest,
      (∀ state, runAll meaning func.returns lifted state = runAll meaning func.returns
        (stmts ++ (func.block entry).insts.map .inst ++ [stmt] ++ rest) state) ∧
      (∀ met state outcome, meet = some met → func.Run meaning met exit state outcome →
        runAll meaning func.returns rest state = some outcome) ∧
      (between = after ∨ ∃ met, meet = some met ∧ Grown func exit [met] between after) := by
    cases meet with
    | none =>
        obtain ⟨rfl, rfl⟩ := correct.nowhere _ _ _ _ _ ran
        exact ⟨[], fun state => by rw [List.append_nil], fun met _ _ none => (by cases none),
          .inl rfl⟩
    | some met =>
        obtain ⟨⟨rest, same, behind⟩, further⟩ := correct.emits _ _ _ _ _ _
          (branch.regular_joined loopFree member rfl grown) ran
        refine ⟨rest, same, fun other state outcome here => ?_, .inr ⟨met, rfl, further⟩⟩
        rw [← Option.some.inj here]
        exact behind state outcome
  refine ⟨⟨(func.block entry).insts.map .inst ++ (stmt :: rest), fun state => ?_, ?_⟩,
    branch.grown loopFree member grown more⟩
  · rw [same]
    simp only [List.append_assoc, List.singleton_append]
  · intro state outcome run
    rw [runAll_insts fun id => loopFree.goesOn]
    cases run with
    | reached here => exact absurd here branch.distinct
    | returned distinct ends =>
        have arms := branch.edges arm member
        simp [Function.edge, ends, Terminator.successors] at arms
    | @goes _ next _ _ _ distinct target run =>
        rw [runAll_cons]
        have among := inside (Terminator.mem_successors target)
        obtain ⟨last, rfl, front⟩ | ⟨met, between, here, front, back⟩ :=
          run.cut fun passed path => branch.ne_exit loopFree among path
        · rw [means _ _ _ target front]
          rfl
        · rw [means _ _ _ target front]
          exact behind met between outcome here back

theorem liftArm_emits {arm : BlockId} {meet : Option BlockId} {state after : State}
    {body : List Stmt} (correct : Correct func meaning lift)
    (regular : Regular func arm meet state) (ran : liftArm lift arm meet state = some (body, after)) :
    (∀ state outcome, func.Run meaning arm meet state outcome →
      runAll meaning func.returns body state = some outcome) ∧ Grown func meet [arm] state after := by
  rw [liftArm] at ran
  split at ran
  · obtain ⟨emits, grown⟩ := correct.emits _ _ _ _ _ _ regular ran
    exact ⟨fun state outcome => emits.run, grown⟩
  · rename_i here
    cases ran
    refine ⟨fun state outcome run => ?_, fun block => .inl⟩
    cases run with
    | reached _ => rfl
    | returned distinct _ | goes distinct _ _ => exact absurd (not_not.mp here) distinct

theorem liftCases_emits {meet : Option BlockId} (correct : Correct func meaning lift)
    {cases : List (Int × BlockId)} {state after : State} {bodies : List (Option Int × List Stmt)}
    (regular : ∀ dest ∈ cases.map Prod.snd, Regular func dest meet state)
    (apart : (cases.map Prod.snd).Pairwise (Apart func meet))
    (ran : liftCases lift meet cases state = some (bodies, after)) :
    (∀ (value : Int) (tail : List (Option Int × List Stmt)) (state : S),
      (∀ case, cases.find? (·.1 = value) = some case → ∀ outcome,
        func.Run meaning case.2 meet state outcome →
          runCases meaning func.returns value (bodies ++ tail) state = some outcome) ∧
      (cases.find? (·.1 = value) = none →
        runCases meaning func.returns value (bodies ++ tail) state =
          runCases meaning func.returns value tail state)) ∧
    Grown func meet (cases.map Prod.snd) state after := by
  induction cases generalizing state bodies with
  | nil =>
      cases ran
      exact ⟨fun value tail state => ⟨fun _ found => (by cases found), fun _ => rfl⟩, fun _ => .inl⟩
  | cons case cases ih =>
      obtain ⟨label, dest⟩ := case
      simp only [liftCases, Option.bind_eq_bind, Option.bind_eq_some_iff, Option.some.injEq,
        Prod.mk.injEq, Prod.exists] at ran
      obtain ⟨body, between, first, rest, last, later, rfl, rfl⟩ := ran
      obtain ⟨here, others⟩ := List.forall_mem_cons.mp regular
      obtain ⟨ahead, apartLater⟩ := List.pairwise_cons.mp apart
      obtain ⟨emits, grown⟩ := correct.emits _ _ _ _ _ _ here first
      obtain ⟨means, grownLater⟩ :=
        ih (fun dest among => (others dest among).after grown
          (List.forall_mem_singleton.mpr (ahead dest among))) apartLater later
      refine ⟨fun value tail state => ?_, grown.append grownLater⟩
      rw [List.cons_append, runCases, List.find?_cons]
      by_cases fits : label = value
      · simp only [fits, Option.all_some, decide_true, if_true, Option.some.injEq, reduceCtorEq,
          false_implies, and_true]
        rintro _ rfl outcome run
        exact emits.run run
      · simp only [fits, Option.all_some, decide_false, Bool.false_eq_true, if_false]
        exact means value tail state

theorem Function.edge_of_mem_arms {block arm : BlockId}
    (member : arm ∈ (func.block block).terminator.arms) : func.edge block arm := by
  rw [Function.edge]
  cases kind : (func.block block).terminator with
  | condBr condition onTrue onFalse => rwa [kind] at member
  | switch condition cases defaultDest =>
      rw [kind] at member
      simpa [Terminator.successors, Terminator.arms, or_comm] using member
  | ret | br | invoke | resume | funclet | other =>
      rw [kind] at member
      cases member

/-- Where the terminator has arms, the block is a branch. -/
theorem LoopFree.branch (loopFree : LoopFree func analyses) (apart : ArmsApart func analyses)
    {entry : BlockId} {exit : Option BlockId} {state : State}
    (regular : Regular func entry exit state) (distinct : some entry ≠ exit)
    (some : (func.block entry).terminator.arms ≠ []) :
    Branch func entry exit (analyses.join (func.block entry).terminator.arms)
      (func.block entry).terminator.arms state where
  regular := regular
  distinct := distinct
  edges _ := Function.edge_of_mem_arms
  meets := loopFree.meets_join some fun _ member =>
    regular.reachable.step (Function.edge_of_mem_arms member)
  apart := apart entry regular.reachable

theorem liftIf_emits {entry trueBB falseBB : BlockId} {exit : Option BlockId} {condition : Nat}
    {state after : State} {stmts lifted : List Stmt} (loopFree : LoopFree func analyses)
    (apart : ArmsApart func analyses) (correct : Correct func meaning lift)
    (regular : Regular func entry exit state) (distinct : some entry ≠ exit)
    (kind : (func.block entry).terminator = .condBr condition trueBB falseBB)
    (ran : liftIf analyses lift entry condition trueBB falseBB exit
      (stmts ++ (func.block entry).insts.map .inst) (state.visit entry) = some (lifted, after)) :
    Emits func meaning entry exit stmts lifted ∧ Grown func exit [entry] state after := by
  have branch := loopFree.branch apart regular distinct (by simp [kind, Terminator.arms])
  simp only [kind, Terminator.arms] at branch
  simp only [liftIf, Option.bind_eq_bind, Option.bind_eq_some_iff, Prod.exists] at ran
  obtain ⟨thenBody, between, first, elseBody, last, second, rest⟩ := ran
  have onTrue := branch.regular_arm loopFree List.mem_cons_self
  have onFalse := branch.regular_arm loopFree (List.mem_cons_of_mem _ List.mem_cons_self)
  obtain ⟨emitsTrue, grownTrue⟩ := correct.emits _ _ _ _ _ _ onTrue first
  have apartFalse := (List.pairwise_cons.mp branch.apart).1 falseBB List.mem_cons_self
  obtain ⟨emitsFalse, grownFalse⟩ :=
    liftArm_emits correct
      (onFalse.after grownTrue (List.forall_mem_singleton.mpr apartFalse)) second
  refine branch.emits loopFree correct List.mem_cons_self (by simp [kind, Terminator.successors])
    (grownTrue.append grownFalse) (fun state next outcome target run => ?_) rest
  rw [kind, Terminator.target, Option.some.injEq] at target
  rw [Stmt.run]
  split at target
  · rename_i holds
    subst target
    rw [if_pos holds]
    exact emitsTrue.run run
  · rename_i fails
    subst target
    rw [if_neg fails]
    exact emitsFalse state outcome run

theorem liftSwitch_emits {entry defaultDest : BlockId} {exit : Option BlockId} {condition : Nat}
    {cases : List (Int × BlockId)} {state after : State} {stmts lifted : List Stmt}
    (loopFree : LoopFree func analyses) (apart : ArmsApart func analyses)
    (correct : Correct func meaning lift) (regular : Regular func entry exit state)
    (distinct : some entry ≠ exit)
    (kind : (func.block entry).terminator = .switch condition cases defaultDest)
    (ran : liftSwitch analyses lift entry condition cases defaultDest exit
      (stmts ++ (func.block entry).insts.map .inst) (state.visit entry) = some (lifted, after)) :
    Emits func meaning entry exit stmts lifted ∧ Grown func exit [entry] state after := by
  have branch := loopFree.branch apart regular distinct (by simp [kind, Terminator.arms])
  simp only [kind, Terminator.arms] at branch
  simp only [liftSwitch, Option.bind_eq_bind, Option.bind_eq_some_iff, Prod.exists] at ran
  obtain ⟨bodies, between, first, body, last, second, rest⟩ := ran
  have among {dest : BlockId} (member : dest ∈ cases.map Prod.snd) :
      dest ∈ cases.map Prod.snd ++ [defaultDest] := List.mem_append_left _ member
  have default : defaultDest ∈ cases.map Prod.snd ++ [defaultDest] :=
    List.mem_append_right _ (List.mem_singleton_self _)
  obtain ⟨apartCases, -, apartDefault⟩ := List.pairwise_append.mp branch.apart
  obtain ⟨means, grown⟩ := liftCases_emits correct
    (fun dest member => branch.regular_arm loopFree (among member)) apartCases first
  have fresh := (branch.regular_arm loopFree default).after grown fun dest member =>
    apartDefault dest member defaultDest (List.mem_singleton_self _)
  obtain ⟨emits, grownDefault⟩ := liftArm_emits correct fresh second
  refine branch.emits loopFree correct default (by simp [kind, Terminator.successors])
    (grown.append grownDefault) (fun state next outcome target run => ?_) rest
  rw [kind, Terminator.target, Option.some.injEq] at target
  rw [Stmt.run]
  obtain ⟨matched, missed⟩ := means (meaning.subject condition state) [(none, body)] state
  cases found : cases.find? (·.1 = meaning.subject condition state) with
  | some case =>
      rw [found] at target
      cases target
      exact matched case found outcome run
  | none =>
      rw [found] at target
      cases target
      rw [missed found, runCases]
      exact emits state outcome run

theorem Grown.visit {entry : BlockId} {exit : Option BlockId} (state : State)
    (distinct : some entry ≠ exit) : Grown func exit [entry] state (state.visit entry) := by
  intro block visited
  obtain old | rfl := (state.visited_visit entry block).mp visited
  · exact .inl old
  · exact .inr ⟨block, List.mem_cons_self, .refl distinct⟩

/-- Behind a block, nothing is visited yet. -/
theorem Regular.step {entry next : BlockId} {exit : Option BlockId} {state : State}
    (loopFree : LoopFree func analyses) (regular : Regular func entry exit state)
    (distinct : some entry ≠ exit) (edge : func.edge entry next) :
    Regular func next exit (state.visit entry) := by
  refine ⟨regular.reachable.step edge, fun met same => ?_, fun block path => ?_⟩
  · exact (regular.bounded met same).step (fun here => distinct (here ▸ same.symm)) edge
  · refine Bool.eq_false_iff.mpr fun visited => ?_
    obtain old | rfl := (state.visited_visit entry block).mp visited
    · cases (regular.fresh block (.head distinct edge path)).symm.trans old
    · obtain ⟨rank, falls⟩ := loopFree.acyclic
      have below := falls block next edge
      have above := PostDominance.rank_le falls path.reaches
      omega

theorem liftBlock_emits {entry : BlockId} {exit : Option BlockId} {state after : State}
    {stmts lifted : List Stmt} (loopFree : LoopFree func analyses)
    (apart : ArmsApart func analyses) (correct : Correct func meaning lift)
    (regular : Regular func entry exit state) (distinct : some entry ≠ exit)
    (ran : liftBlock func analyses lift (compactCompoundAssigns folds) entry exit stmts
      (state.visit entry) = some (lifted, after)) :
    Emits func meaning entry exit stmts lifted ∧ Grown func exit [entry] state after := by
  have goesOn : ∀ id ∈ (func.block entry).insts, func.returns id = false := fun _ =>
    loopFree.goesOn
  -- Where the block neither returns nor goes on, there is no run to follow.
  have stuck {state : S} {outcome : Outcome S} (run : func.Run meaning entry exit state outcome)
      (ends : ∀ id, (func.block entry).terminator ≠ .ret id)
      (none : ∀ state, (func.block entry).terminator.target meaning state = none) : False := by
    cases run with
    | reached here => exact distinct here
    | returned _ last => exact ends _ last
    | goes _ target _ => cases (none _).symm.trans target
  have structured := loopFree.flow.structured entry
  rw [liftBlock] at ran
  cases kind : (func.block entry).terminator with
  | ret id =>
      rw [kind] at ran
      cases ran
      refine ⟨⟨(func.block entry).insts.map .inst ++ [.inst id], fun state => ?_, ?_⟩,
        .visit state distinct⟩
      · rw [runAll_compactCompoundAssigns, List.append_assoc]
      · intro state outcome run
        rw [runAll_insts goesOn, runAll_cons, Stmt.run, runInst,
          if_pos (Function.returns_of_ret kind)]
        cases run with
        | reached here => exact absurd here distinct
        | returned _ ends =>
            cases kind.symm.trans ends
            rfl
        | goes _ target _ =>
            rw [kind] at target
            cases target
  | br target =>
      rw [kind] at ran
      have edge : func.edge entry target := by
        rw [Function.edge, kind]
        exact List.mem_cons_self
      obtain ⟨⟨emitted, same, means⟩, grown⟩ :=
        correct.emits _ _ _ _ _ _ (regular.step loopFree distinct edge) ran
      refine ⟨⟨(func.block entry).insts.map .inst ++ emitted, fun state => ?_, ?_⟩, ?_⟩
      · rw [same, List.append_assoc]
      · intro state outcome run
        rw [runAll_insts goesOn]
        cases run with
        | reached here => exact absurd here distinct
        | returned _ ends => cases kind.symm.trans ends
        | goes _ chosen rest =>
            rw [kind] at chosen
            cases chosen
            exact means _ outcome rest
      · intro block visited
        obtain old | ⟨_, member, path⟩ := grown block visited
        · exact Grown.visit state distinct block old
        · rw [List.mem_singleton.mp member] at path
          exact .inr ⟨entry, List.mem_cons_self, .head distinct edge path⟩
  | condBr condition onTrue onFalse =>
      rw [kind] at ran
      exact liftIf_emits loopFree apart correct regular distinct kind ran
  | switch condition cases defaultDest =>
      rw [kind] at ran
      exact liftSwitch_emits loopFree apart correct regular distinct kind ran
  | resume =>
      rw [kind] at ran
      cases ran
      refine ⟨⟨(func.block entry).insts.map .inst, fun _ => rfl, fun state outcome run => ?_⟩,
        .visit state distinct⟩
      exact (stuck run (by simp [kind]) (by simp [kind, Terminator.target])).elim
  | other id successors =>
      rw [kind] at ran
      cases ran
      refine ⟨⟨(func.block entry).insts.map .inst ++ [.inst id], fun state => ?_,
        fun state outcome run => ?_⟩, .visit state distinct⟩
      · rw [runAll_compactCompoundAssigns, List.append_assoc]
      · exact (stuck run (by simp [kind]) (by simp [kind, Terminator.target])).elim
  | invoke | funclet =>
      rw [kind] at structured
      cases structured

theorem liftBlockRegion_correct (loopFree : LoopFree func analyses)
    (apart : ArmsApart func analyses) (folds : Nat → Nat → Nat → Bool) (fuel : Nat) :
    Correct func meaning (liftBlockRegion func analyses (compactCompoundAssigns folds) fuel) := by
  induction fuel with
  | zero => exact ⟨fun _ _ _ _ _ ran => (by cases ran), fun _ _ _ _ _ _ _ ran => (by cases ran)⟩
  | succ fuel ih =>
      refine ⟨fun exit stmts state lifted after ran => ?_, ?_⟩
      · cases ran
        exact ⟨rfl, rfl⟩
      · intro entry exit stmts state lifted after regular ran
        rw [liftBlockRegion] at ran
        split at ran
        · rename_i ended
          cases ran
          refine ⟨⟨[], fun state => by rw [List.append_nil], fun state outcome run => ?_⟩,
            fun _ => .inl⟩
          have here : some entry = exit := by
            by_contra distinct
            have fresh := regular.fresh entry (.refl distinct)
            simp [distinct, fresh] at ended
          cases run with
          | reached _ => rfl
          | returned distinct _ | goes distinct _ _ => exact absurd here distinct
        · rename_i fresh
          simp only [Bool.or_eq_true, decide_eq_true_eq, not_or, Bool.not_eq_true] at fresh
          have plain : (analyses.getLoopFor entry).filter (·.header = entry) = none :=
            loopFree.plain entry
          rw [tryLiftEHRegion_structured loopFree.flow.structured] at ran
          simp only [Option.bind_eq_bind, Option.bind_some, Bool.false_or, fresh.2,
            Bool.false_eq_true, if_false, plain] at ran
          exact liftBlock_emits loopFree apart ih regular fresh.1 ran

variable (func analyses folds) in
/-- The body of a lifted function. -/
def liftFunctionStructured (fuel : Nat) : Option (List Stmt) :=
  (liftBlockRegion func analyses (compactCompoundAssigns folds) fuel (some 0) none [] unlifted).map
    fun (stmts, _) => compactCompoundAssigns folds stmts

/-- With fuel for all blocks the lifting ends, and where no two arms of a branch share a block before
they meet, every run of the function is the run of the lifted statements. -/
theorem liftFunctionStructured_runs (loopFree : LoopFree func analyses)
    (apart : ArmsApart func analyses) (folds : Nat → Nat → Nat → Bool) {fuel : Nat}
    (enough : func.blocks.length < fuel) :
    ∃ body, liftFunctionStructured func analyses folds fuel = some body ∧
      ∀ (meaning : Meaning S) (state : S) (outcome : Outcome S),
        func.Run meaning 0 none state outcome →
          runAll meaning func.returns body state = some outcome := by
  have few : (func.unvisited unlifted).card < fuel :=
    lt_of_le_of_lt (Finset.card_filter_le _ _) (by simpa using enough)
  obtain ⟨stmts, after, ran⟩ :=
    liftBlockRegion_total (compactCompoundAssigns folds) loopFree.flow.structured
      loopFree.flow.header_lt fuel (some 0) none [] few
  refine ⟨_, by rw [liftFunctionStructured, ran]; rfl, fun meaning state outcome run => ?_⟩
  have regular : Regular func 0 none unlifted :=
    ⟨.refl, fun _ same => (by cases same), fun _ _ => rfl⟩
  have correct : Correct func meaning _ := liftBlockRegion_correct loopFree apart folds fuel
  rw [runAll_compactCompoundAssigns]
  exact (correct.emits _ _ _ _ _ _ regular ran).1.run run

end Structured

/-! ## A choice -/

theorem choice_edge {block next : Nat} :
    choice.edge block next ↔ (block = 0 ∧ (next = 1 ∨ next = 2)) ∨
      ((block = 1 ∨ block = 2) ∧ next = 3) := by
  rw [Function.edge]
  match block with
  | 0 | 1 | 2 | 3 => simp [choice, Function.block, Terminator.successors]
  | more + 4 => simp [choice, Function.block, Terminator.successors]

theorem choice_inside {block last : Nat} (inside : block < 4)
    (path : Relation.ReflTransGen choice.edge block last) : last < 4 := by
  induction path with
  | refl => exact inside
  | tail _ step _ =>
      have := choice_edge.mp step
      omega

theorem choice_final : PostDominance.Final choice.edge 3 := fun next step => by
  have := choice_edge.mp step
  omega

/-- An arm ends where the arms meet. -/
theorem choice_arm {arm last : Nat} (isArm : arm = 1 ∨ arm = 2)
    (path : Avoiding choice.edge (some 3) arm last) : last = arm := by
  cases path with
  | refl _ => rfl
  | @head _ next _ _ step rest =>
      have behind := choice_edge.mp step
      have meets : next = 3 := by omega
      exact absurd (congrArg some meets) rest.left_ne

theorem choice_postDominates {block exit : Nat} (inside : block < 4)
    (post : PostDominates choice.edge exit block) : exit = 3 ∨ exit = block := by
  by_contra apart
  have avoids {other : Nat} (distinct : other ≠ exit) : some other ≠ some exit := fun same =>
    distinct (Option.some.inj same)
  have last : Avoiding choice.edge (some exit) 3 3 := .refl (avoids (by omega))
  have arm {arm : Nat} (isArm : arm = 1 ∨ arm = 2) (distinct : arm ≠ exit) :
      Avoiding choice.edge (some exit) arm 3 :=
    .head (avoids distinct) (choice_edge.mpr (.inr ⟨isArm, rfl⟩)) last
  have path : Avoiding choice.edge (some exit) block 3 := by
    match block with
    | 0 =>
        have first : some 0 ≠ some exit := avoids (by omega)
        by_cases left : exit = 1
        · exact .head first (choice_edge.mpr (.inl ⟨rfl, .inr rfl⟩)) (arm (.inr rfl) (by omega))
        · exact .head first (choice_edge.mpr (.inl ⟨rfl, .inl rfl⟩)) (arm (.inl rfl) (by omega))
    | 1 => exact arm (.inl rfl) (by omega)
    | 2 => exact arm (.inr rfl) (by omega)
    | 3 => exact last
  exact post 3 path choice_final

theorem choice_meets {first second : Nat} (inside : first < 4) (within : second < 4) :
    MeetsAt choice.edge (choiceAnalyses.findNearestCommonDominator first second)
      [first, second] := by
  have join {block : Nat} (inside : block < 4) : PostDominates choice.edge 3 block := by
    intro (last : Nat) path final
    have ends : last ≠ 3 := fun same => path.right_ne (congrArg some same)
    have reached := choice_inside inside path.reaches
    have step : choice.edge last 1 ∨ choice.edge last 3 := by
      rw [choice_edge, choice_edge]
      omega
    exact step.elim (final 1) (final 3)
  have found : choiceAnalyses.findNearestCommonDominator first second =
      some (if first = second then first else 3) := rfl
  rw [found]
  constructor
  · rintro met same node member
    cases same
    split
    · rename_i same
      have here : node = first := by simpa [same] using member
      exact here ▸ .refl
    · obtain rfl | rfl : node = first ∨ node = second := by simpa using member
      · exact join inside
      · exact join within
  · intro (exit : Nat) post
    refine ⟨_, rfl, ?_⟩
    have one := post first List.mem_cons_self
    have two := post second (List.mem_cons_of_mem _ List.mem_cons_self)
    split
    · exact one
    · have left := choice_postDominates inside one
      have right := choice_postDominates within two
      obtain rfl : exit = 3 := by omega
      exact .refl

theorem choice_loopFree : LoopFree choice choiceAnalyses where
  flow := choice_flow
  plain _ := rfl
  acyclic := by
    refine ⟨fun block => 3 - block, fun block next step => ?_⟩
    have := choice_edge.mp step
    simp only
    omega
  meets first second reached reachable :=
    choice_meets (choice_inside (by decide) reached) (choice_inside (by decide) reachable)

theorem choice_armsApart : ArmsApart choice choiceAnalyses := by
  intro block reachable
  have inside := choice_inside (by decide) reachable
  match block with
  | 0 =>
      refine List.pairwise_pair.mpr fun shared path other => ?_
      have here := choice_arm (.inl rfl) path
      have there := choice_arm (.inr rfl) other
      omega
  | 1 | 2 | 3 => exact .nil

/-- Write down the instructions, the last first; conditions hold. -/
def tracing : Meaning (List Nat) where
  effect id trace := id :: trace
  holds _ _ := true
  subject _ _ := 0

/-- The first arm of the choice and what follows it. -/
theorem choice_runs : ∃ body,
    liftFunctionStructured choice choiceAnalyses (fun _ _ _ => false) 5 = some body ∧
      runAll tracing choice.returns body [] = some (.returned [5, 4, 2, 1]) := by
  have enough : choice.blocks.length < 5 := by decide
  obtain ⟨body, lifted, runs⟩ := liftFunctionStructured_runs (S := List Nat) choice_loopFree
    choice_armsApart (fun _ _ _ => false) enough
  refine ⟨body, lifted, runs tracing [] _ ?_⟩
  exact .goes (Option.some_ne_none _) rfl (.goes (Option.some_ne_none _) rfl
    (.returned (Option.some_ne_none _) rfl))

end RegionLifting
end Decompile
end TopoLlvm
