import TopoLlvm.Backend.SymbolMapper
import Mathlib.Order.Basic
import Mathlib.Data.List.Sort

/-!
# The order of staged calls

`Verifier::checkStageOrdering` collects the calls of a host function whose callees have a stage in
the function's logic block, sorts them by their places in the source, and reports each call of a
lower stage than one before it.
-/

namespace TopoLlvm
namespace Backend
namespace BodyVerifier

/-- A call or an invoke in a host function. -/
structure HostCall where
  /-- `getCalledFunction`, which knows direct callees only. -/
  callee : Option FunctionId
  /-- Line and column of the debug location. -/
  debugLoc : Option (Nat × Nat)
  deriving DecidableEq

/-- The fields of a logic block that the checks of a body read. -/
structure FnBlock where
  qualifiedName : Name
  isPipeline : Bool
  calledFunctions : List Name
  stages : List Int

/-- What the checks read of the host module and its mapping. -/
structure HostModule where
  getName : FunctionId → Name
  getName_injective : Function.Injective getName
  /-- The calls of a function, block by block. -/
  calls : FunctionId → List HostCall
  matched : FunctionMap

/-- A map from Topo names to stages. -/
abbrev StageMap := AList fun _ : Name => Int

/-- The Topo names of functions, entered in the order in which the mapping is walked. -/
abbrev TopoNames := AList fun _ : Name => Name

def HostModule.llvmToTopo (host : HostModule) (walked : List (Name × FunctionId)) : TopoNames :=
  walked.foldl (fun names entry => names.insert (host.getName entry.2) entry.1) ∅

namespace FnBlock

variable (block : FnBlock)

/-- The namespace of the block with the `::` behind it. -/
def nsPrefix : Name :=
  match Text.rsplit [':', ':'] block.qualifiedName with
  | none => []
  | some (scope, _) => scope ++ [':', ':']

/-- Pipeline blocks have qualified callees. -/
def qualify (callee : Name) : Name :=
  if block.isPipeline then callee else block.nsPrefix ++ callee

/-- The stage of each callee; a later entry replaces an earlier one. -/
def calleeStage : StageMap :=
  (block.calledFunctions.zip block.stages).foldl
    (fun stages entry => stages.insert (block.qualify entry.1) entry.2) ∅

end FnBlock

/-- A call of a callee with a stage. -/
structure StagedCall where
  line : Nat
  col : Nat
  emitIdx : Nat
  stage : Int
  name : Name
  deriving DecidableEq

/-- The order of `std::stable_sort`. -/
def StagedCall.less (call other : StagedCall) : Bool :=
  if call.line ≠ other.line then call.line < other.line
  else if call.col ≠ other.col then call.col < other.col
  else call.emitIdx < other.emitIdx

/-- A call below the stage of one before it. -/
structure StageViolation where
  name : Name
  stage : Int
  maxStageSeen : Int
  deriving DecidableEq

/-- The text of the error. -/
def StageViolation.message (violation : StageViolation) (blockName : Name) : Name :=
  "fn block '".toList ++ blockName ++ "': IR calls '".toList ++ violation.name ++
    "' (stage ".toList ++ (toString violation.stage).toList ++ ") after a stage ".toList ++
    (toString violation.maxStageSeen).toList ++
    " operation — violates stage ordering".toList

section Staged

variable (host : HostModule) (names : TopoNames) (block : FnBlock)

/-- The Topo name of a call's callee. -/
def HostCall.topoName (call : HostCall) : Option Name :=
  call.callee.bind fun callee => names.lookup (host.getName callee)

/-- The record of a call, but for its number. -/
def HostCall.staged (call : HostCall) : Option StagedCall :=
  (call.topoName host names).bind fun name =>
    (block.calleeStage.lookup name).map fun stage =>
      { line := (call.debugLoc.map Prod.fst).getD 0
        col := (call.debugLoc.map Prod.snd).getD 0
        emitIdx := 0
        stage, name }

/-- The staged calls as they are emitted. -/
def stagedCalls (calls : List HostCall) : List StagedCall :=
  (calls.filterMap (HostCall.staged host names block)).mapIdx fun emitIdx call =>
    { call with emitIdx }

def sortCalls (staged : List StagedCall) : List StagedCall :=
  staged.mergeSort fun call other => !other.less call

/-- The scan with the highest stage seen. -/
def scanStages : Int → List StagedCall → List StageViolation
  | _, [] => []
  | maxStageSeen, call :: calls =>
      (if call.stage < maxStageSeen then
        [{ name := call.name, stage := call.stage, maxStageSeen }]
      else []) ++
        scanStages (if maxStageSeen < call.stage then call.stage else maxStageSeen) calls

/-- What the check finds in a body of the block's function. -/
def stageViolations (calls : List HostCall) : List StageViolation :=
  scanStages (-1) (sortCalls (stagedCalls host names block calls))

end Staged

/-- The errors of the check for one block. -/
def checkBlockStages (host : HostModule) (names : TopoNames) (block : FnBlock) : List Name :=
  if block.stages = [] then []
  else
    match host.matched.lookup block.qualifiedName with
    | none => []
    | some func =>
        (stageViolations host names block (host.calls func)).map
          (·.message block.qualifiedName)

/-- The errors of `Verifier::checkStageOrdering`, each counted as a violation. -/
def checkStageOrdering (host : HostModule) (walked : List (Name × FunctionId))
    (logicBlocks : List FnBlock) : List Name :=
  logicBlocks.flatMap (checkBlockStages host (host.llvmToTopo walked))

/-! ## The scan -/

/-- The scan reports nothing where the stages do not go down. -/
theorem scanStages_eq_nil_iff {maxStageSeen : Int} {calls : List StagedCall} :
    scanStages maxStageSeen calls = [] ↔
      (∀ call ∈ calls, maxStageSeen ≤ call.stage) ∧ (calls.map (·.stage)).Pairwise (· ≤ ·) := by
  induction calls generalizing maxStageSeen with
  | nil => simp [scanStages]
  | cons call calls ih =>
      rw [scanStages, List.append_eq_nil_iff, ih, List.map_cons, List.pairwise_cons,
        List.forall_mem_cons, List.forall_mem_map]
      by_cases below : call.stage < maxStageSeen
      · simp only [below, if_true, List.cons_ne_nil, false_and, false_iff, not_and]
        intro above
        omega
      · have highest : (if maxStageSeen < call.stage then call.stage else maxStageSeen) =
            call.stage := by
          split <;> omega
        rw [if_neg below, highest]
        constructor
        · rintro ⟨-, first, later⟩
          exact ⟨⟨by omega, fun other member => by have := first other member; omega⟩, first, later⟩
        · rintro ⟨-, first, later⟩
          exact ⟨rfl, first, later⟩

/-- The record of a call without its number. -/
def StagedCall.unnumbered (call : StagedCall) : StagedCall := { call with emitIdx := 0 }

/-- The scan does not read the numbers of the calls. -/
theorem scanStages_unnumbered (maxStageSeen : Int) (calls : List StagedCall) :
    scanStages maxStageSeen (calls.map StagedCall.unnumbered) = scanStages maxStageSeen calls := by
  induction calls generalizing maxStageSeen with
  | nil => rfl
  | cons call calls ih => rw [List.map_cons, scanStages, scanStages, ih]; rfl

/-! ## The sort -/

namespace StagedCall

/-- A call comes before another one by its place, and at one place by the order of emission. -/
def Before (call other : StagedCall) : Prop :=
  call.line < other.line ∨ call.line = other.line ∧
    (call.col < other.col ∨ call.col = other.col ∧ call.emitIdx < other.emitIdx)

theorem less_iff (call other : StagedCall) : call.less other = true ↔ call.Before other := by
  unfold less Before
  by_cases sameLine : call.line = other.line
  · by_cases sameCol : call.col = other.col
    · simp [sameLine, sameCol]
    · simp [sameLine, sameCol]
  · simp [sameLine]

instance (call other : StagedCall) : Decidable (call.Before other) :=
  decidable_of_iff _ (call.less_iff other)

theorem Before.asymm {call other : StagedCall} (before : call.Before other) :
    ¬ other.Before call := by
  unfold Before at *
  omega

/-- Two calls that come in no order have one place and one number. -/
theorem eq_of_not_before {call other : StagedCall} (notBefore : ¬ call.Before other)
    (notAfter : ¬ other.Before call) :
    call.line = other.line ∧ call.col = other.col ∧ call.emitIdx = other.emitIdx := by
  unfold Before at *
  omega

end StagedCall

theorem pairwise_sortCalls (staged : List StagedCall) :
    (sortCalls staged).Pairwise fun call other => ¬ other.Before call := by
  have sorted := @List.pairwise_mergeSort StagedCall (fun call other => !other.less call)
    (by
      intro call other third first second
      simp only [Bool.not_eq_true', ← Bool.not_eq_true, StagedCall.less_iff] at *
      unfold StagedCall.Before at *
      omega)
    (by
      intro call other
      simp only [Bool.or_eq_true, Bool.not_eq_true', ← Bool.not_eq_true, StagedCall.less_iff]
      by_cases before : call.Before other
      · exact .inl before.asymm
      · exact .inr before)
    staged
  refine sorted.imp fun {call other} kept => ?_
  simpa only [Bool.not_eq_true', ← Bool.not_eq_true, StagedCall.less_iff] using kept

section Staged

variable {host : HostModule} {names : TopoNames} {block : FnBlock} {calls others : List HostCall}

/-- A staged call is known by its number. -/
theorem eq_of_emitIdx {call other : StagedCall}
    (inCalls : call ∈ stagedCalls host names block calls)
    (otherInCalls : other ∈ stagedCalls host names block calls)
    (same : call.emitIdx = other.emitIdx) : call = other := by
  unfold stagedCalls at inCalls otherInCalls
  rw [List.mem_mapIdx] at inCalls otherInCalls
  obtain ⟨index, bound, rfl⟩ := inCalls
  obtain ⟨otherIndex, otherBound, rfl⟩ := otherInCalls
  obtain rfl : index = otherIndex := same
  rfl

/-- There is one way to sort the staged calls of a body. -/
theorem sortCalls_eq {sorted : List StagedCall}
    (perm : sorted.Perm (stagedCalls host names block calls))
    (inOrder : sorted.Pairwise StagedCall.Before) :
    sortCalls (stagedCalls host names block calls) = sorted := by
  have permSort : (sortCalls (stagedCalls host names block calls)).Perm
      (stagedCalls host names block calls) := List.mergeSort_perm _ _
  refine List.Perm.eq_of_pairwise ?_ (pairwise_sortCalls _)
    (inOrder.imp StagedCall.Before.asymm) (permSort.trans perm.symm)
  intro call other inSort inSorted notAfter notBefore
  exact eq_of_emitIdx (permSort.mem_iff.mp inSort) (perm.mem_iff.mp inSorted)
    (StagedCall.eq_of_not_before notBefore notAfter).2.2

/-- The place of a call in the source, without its number. -/
def StagedCall.location (call : StagedCall) : Nat × Nat := (call.line, call.col)

theorem unnumbered_of_staged {call : HostCall} {staged : StagedCall}
    (kept : call.staged host names block = some staged) : staged.unnumbered = staged := by
  obtain ⟨name, -, kept⟩ := Option.bind_eq_some_iff.mp kept
  obtain ⟨stage, -, rfl⟩ := Option.map_eq_some_iff.mp kept
  rfl

theorem unnumbered_stagedCalls :
    (stagedCalls host names block calls).map StagedCall.unnumbered =
      calls.filterMap (HostCall.staged host names block) := by
  refine List.ext_getElem? fun index => ?_
  rw [stagedCalls, List.getElem?_map, List.getElem?_mapIdx, Option.map_map]
  cases found : (calls.filterMap (HostCall.staged host names block))[index]? with
  | none => rfl
  | some staged =>
      obtain ⟨call, -, kept⟩ := List.mem_filterMap.mp (List.mem_of_getElem? found)
      exact congrArg some (unnumbered_of_staged kept)

/-- Where the places are distinct, the sorted calls of two orders of emission differ in their
numbers only. -/
theorem unnumbered_sortCalls (emitted : others.Perm calls)
    (distinct : ((stagedCalls host names block calls).map StagedCall.location).Nodup) :
    (sortCalls (stagedCalls host names block others)).map StagedCall.unnumbered =
      (sortCalls (stagedCalls host names block calls)).map StagedCall.unnumbered := by
  let upTo (call other : StagedCall) : Prop :=
    call.line < other.line ∨ call.line = other.line ∧ call.col ≤ other.col
  have inOrder (calls : List HostCall) :
      ((sortCalls (stagedCalls host names block calls)).map StagedCall.unnumbered).Pairwise
        upTo := by
    rw [List.pairwise_map]
    refine (pairwise_sortCalls _).imp fun {call other} notAfter => ?_
    simp only [StagedCall.Before, StagedCall.unnumbered, upTo] at notAfter ⊢
    omega
  have unsorted (calls : List HostCall) :
      ((sortCalls (stagedCalls host names block calls)).map StagedCall.unnumbered).Perm
        (calls.filterMap (HostCall.staged host names block)) := by
    rw [← unnumbered_stagedCalls]
    exact (List.mergeSort_perm _ _).map _
  have places : ((calls.filterMap (HostCall.staged host names block)).map
      StagedCall.location).Nodup := by
    rw [← unnumbered_stagedCalls, List.map_map]
    exact distinct
  refine List.Perm.eq_of_pairwise ?_ (inOrder others) (inOrder calls)
    ((unsorted others).trans ((emitted.filterMap _).trans (unsorted calls).symm))
  intro call other inOthers inCalls first second
  refine List.inj_on_of_nodup_map places ?_ ((unsorted calls).mem_iff.mp inCalls) ?_
  · exact ((unsorted others).trans (emitted.filterMap _)).mem_iff.mp inOthers
  · simp only [upTo] at first second
    exact Prod.ext (by simp only [StagedCall.location]; omega)
      (by simp only [StagedCall.location]; omega)

theorem before_sortCalls :
    (sortCalls (stagedCalls host names block calls)).Pairwise StagedCall.Before := by
  have permSort : (sortCalls (stagedCalls host names block calls)).Perm
      (stagedCalls host names block calls) := List.mergeSort_perm _ _
  have numbers : ((stagedCalls host names block calls).map (·.emitIdx)).Nodup := by
    have counts : (stagedCalls host names block calls).map (·.emitIdx) =
        List.range (calls.filterMap (HostCall.staged host names block)).length := by
      refine List.ext_getElem (by simp [stagedCalls]) fun index bound _ => ?_
      simp [stagedCalls]
    rw [counts]
    exact List.nodup_range
  have apart := List.pairwise_map.mp (((permSort.map (·.emitIdx)).nodup_iff).mpr numbers)
  refine ((pairwise_sortCalls _).and apart).imp fun {call other} ordered => ?_
  by_contra notBefore
  exact ordered.2 (StagedCall.eq_of_not_before notBefore ordered.1).2.2

theorem scan_eq_nil_iff (counted : ∀ call ∈ stagedCalls host names block calls, 0 ≤ call.stage) :
    stageViolations host names block calls = [] ↔
      ((sortCalls (stagedCalls host names block calls)).map (·.stage)).Pairwise (· ≤ ·) := by
  rw [stageViolations, scanStages_eq_nil_iff, and_iff_right]
  intro call member
  have stage := counted call ((List.mergeSort_perm _ _).mem_iff.mp member)
  omega

theorem stageViolations_emitted (emitted : others.Perm calls)
    (distinct : ((stagedCalls host names block calls).map StagedCall.location).Nodup) :
    stageViolations host names block others = stageViolations host names block calls := by
  rw [stageViolations, stageViolations, ← scanStages_unnumbered,
    unnumbered_sortCalls emitted distinct, scanStages_unnumbered]

/-- Without stages there are no staged calls. -/
theorem stageViolations_of_no_stages (none : block.stages = []) :
    stageViolations host names block calls = [] := by
  have silent (call : HostCall) : call.staged host names block = Option.none := by
    simp [HostCall.staged, FnBlock.calleeStage, none]
  have empty : stagedCalls host names block calls = [] := by
    simp [stagedCalls, silent]
  rw [stageViolations, empty, sortCalls, List.mergeSort_nil, scanStages]

theorem checkBlockStages_eq {func : FunctionId}
    (mapped : host.matched.lookup block.qualifiedName = some func) :
    checkBlockStages host names block =
      (stageViolations host names block (host.calls func)).map
        (·.message block.qualifiedName) := by
  unfold checkBlockStages
  split
  · rename_i none
    rw [stageViolations_of_no_stages none, List.map_nil]
  · rw [mapped]

end Staged

/-- A host whose function has another body. -/
def HostModule.withCalls (host : HostModule) (func : FunctionId) (calls : List HostCall) :
    HostModule :=
  { host with calls := Function.update host.calls func calls }

/-- The check of a block is silent exactly where the staged calls, sorted by their places, have
rising stages.  Where no two are at one place it reports as much in every order of emission. -/
theorem checkBlockStages_spec (host : HostModule) (names : TopoNames) (block : FnBlock)
    {func : FunctionId} (mapped : host.matched.lookup block.qualifiedName = some func)
    (counted : ∀ call ∈ stagedCalls host names block (host.calls func), 0 ≤ call.stage) :
    let staged := stagedCalls host names block (host.calls func)
    ((sortCalls staged).Perm staged ∧ (sortCalls staged).Pairwise StagedCall.Before ∧
        (checkBlockStages host names block = [] ↔
          ((sortCalls staged).map (·.stage)).Pairwise (· ≤ ·))) ∧
      ((staged.map StagedCall.location).Nodup →
        ∀ emitted : List HostCall, emitted.Perm (host.calls func) →
          (checkBlockStages (host.withCalls func emitted) names block).length =
            (checkBlockStages host names block).length) := by
  intro staged
  refine ⟨⟨List.mergeSort_perm _ _, before_sortCalls, ?_⟩, fun distinct emitted perm => ?_⟩
  · rw [checkBlockStages_eq mapped, List.map_eq_nil_iff]
    exact scan_eq_nil_iff counted
  · have remapped : (host.withCalls func emitted).matched.lookup block.qualifiedName =
        some func := mapped
    have body : (host.withCalls func emitted).calls func = emitted := Function.update_self ..
    have same : stageViolations (host.withCalls func emitted) names block emitted =
        stageViolations host names block emitted := rfl
    rw [checkBlockStages_eq mapped, checkBlockStages_eq remapped, body, same,
      stageViolations_emitted perm distinct]

/-- The block `demo::run` with two stages. -/
def demoRun : FnBlock where
  qualifiedName := "demo::run".toList
  isPipeline := false
  calledFunctions := ["init".toList, "process".toList]
  stages := [1, 2]

theorem replicate_injective : Function.Injective fun func => List.replicate func 'f' :=
  fun func other same => by simpa using congrArg List.length same

/-- The second stage is emitted first; by their places the calls are in order. -/
def demoHost : HostModule where
  getName func := List.replicate func 'f'
  getName_injective := replicate_injective
  calls _ := [⟨some 2, some (20, 5)⟩, ⟨some 1, some (10, 5)⟩]
  matched := ((∅ : FunctionMap).insert "demo::run".toList 0).insert "demo::init".toList 1
    |>.insert "demo::process".toList 2

theorem checkBlockStages_demoRun :
    let names := demoHost.llvmToTopo
      [("demo::process".toList, 2), ("demo::run".toList, 0), ("demo::init".toList, 1)]
    checkBlockStages demoHost names demoRun = [] := by
  intro names
  have sorted : sortCalls (stagedCalls demoHost names demoRun (demoHost.calls 0)) =
      [⟨10, 5, 1, 1, "demo::init".toList⟩, ⟨20, 5, 0, 2, "demo::process".toList⟩] :=
    sortCalls_eq (by decide) (by decide)
  have mapped : demoHost.matched.lookup demoRun.qualifiedName = some 0 := by decide
  refine (checkBlockStages_spec demoHost names demoRun mapped (by decide)).1.2.2.mpr ?_
  rw [sorted]
  decide

end BodyVerifier
end Backend
end TopoLlvm
