import TopoLlvm.Backend.StageOrder
import Mathlib.Data.List.Dedup
import Mathlib.Order.Monotone.Basic

/-!
# Bodies that do what their block declares

A host body conforms to its logic block when its calls of Topo functions can be told apart as
declared callees whose stages rise with their places in the source.  The checks know a call by the
last Topo name of its function and the last stage of that name, and are silent about every
conforming body exactly where these say enough.
-/

namespace TopoLlvm
namespace Backend
namespace BodyVerifier

section Check

variable (host : HostModule) (names : TopoNames) (block : FnBlock)

/-- The Topo functions that a body calls. -/
def irCalledTopo (calls : List HostCall) : List Name :=
  (calls.filterMap (HostCall.topoName host names)).dedup

def FnBlock.declaredCallees : List Name := (block.calledFunctions.map block.qualify).dedup

/-- The text of the error about a declared callee that is not called. -/
def FnBlock.missingMessage (declared : Name) : Name :=
  "fn block '".toList ++ block.qualifiedName ++ "' declares operation '".toList ++ declared ++
    "' but IR does not call it".toList

/-- The text of the error about a called function that is not declared. -/
def FnBlock.undeclaredMessage (called : Name) : Name :=
  "fn block '".toList ++ block.qualifiedName ++ "': IR calls '".toList ++ called ++
    "' but it is not declared in the fn block".toList

/-- The errors of `Verifier::checkLogicBlockConsistency` for one block. -/
def checkBlockCallees : List Name :=
  if block.isPipeline then []
  else
    match host.matched.lookup block.qualifiedName with
    | none => []
    | some func =>
        let called := irCalledTopo host names (host.calls func)
        let declared := block.declaredCallees
        (declared.filter fun name => !called.contains name).map block.missingMessage ++
          (called.filter fun name => !declared.contains name).map block.undeclaredMessage

end Check

/-! ## Conforming bodies -/

/-- A callee that a block declares, with its stage if there is one. -/
structure FnEntry where
  callee : Name
  stage : Option Int
  deriving DecidableEq

namespace FnEntry

/-- A call of the entry may stand before a call of the other one. -/
def MayPrecede (entry other : FnEntry) : Prop :=
  ∀ stage ∈ entry.stage, ∀ later ∈ other.stage, stage ≤ later

end FnEntry

def FnBlock.entries (block : FnBlock) : List FnEntry :=
  block.calledFunctions.mapIdx fun index callee =>
    { callee := block.qualify callee, stage := block.stages[index]? }

section Conforms

variable (host : HostModule) (block : FnBlock)

/-- The call is of a function that some Topo name is mapped to. -/
def HostCall.IsKnown (call : HostCall) : Prop :=
  ∃ func name, call.callee = some func ∧ host.matched.lookup name = some func

/-- Where a call of a body stands in the source; calls at one place are in the order of emission. -/
def HostCall.place (call : HostCall) (index : Nat) : StagedCall where
  line := (call.debugLoc.map Prod.fst).getD 0
  col := (call.debugLoc.map Prod.snd).getD 0
  emitIdx := index
  stage := 0
  name := []

/-- Every call of a Topo function is one of a declared callee, in the order of the stages, and all
declared callees are called. -/
structure Conforms (calls : List HostCall) (realises : Nat → FnEntry) : Prop where
  declared : ∀ index call, calls[index]? = some call → call.IsKnown host →
    realises index ∈ block.entries ∧ call.callee.isSome ∧
      host.matched.lookup (realises index).callee = call.callee
  ordered : ∀ index call later other, calls[index]? = some call → call.IsKnown host →
    calls[later]? = some other → other.IsKnown host →
    (call.place index).Before (other.place later) → (realises index).MayPrecede (realises later)
  covered : ∀ entry ∈ block.entries, ∃ index call, calls[index]? = some call ∧
    call.IsKnown host ∧ (realises index).callee = entry.callee

/-- The order in which the entries of an unordered map may be walked. -/
def HostModule.IsWalk (walked : List (Name × FunctionId)) : Prop :=
  walked.Perm (host.matched.entries.map fun entry => (entry.1, entry.2))

/-- Nothing is reported about a conforming body, in whatever order the mapping is walked. -/
def NoFalsePositives (func : FunctionId) : Prop :=
  ∀ walked, host.IsWalk walked → ∀ calls realises, Conforms host block calls realises →
    checkBlockCallees (host.withCalls func calls) (host.llvmToTopo walked) block = [] ∧
      checkBlockStages (host.withCalls func calls) (host.llvmToTopo walked) block = []

/-- What the checks take the stage of a declared callee for. -/
def TakenStage (entry : FnEntry) (name : Name) (stage : Int) : Prop :=
  host.matched.lookup name = host.matched.lookup entry.callee ∧
    block.calleeStage.lookup name = some stage

/-- The mapping and the last stages of the names tell the declared callees apart. -/
structure TellsApart : Prop where
  /-- No other name is mapped to the function of a declared callee. -/
  names : block.isPipeline = false → ∀ entry ∈ block.entries, ∀ name,
    host.matched.lookup name = host.matched.lookup entry.callee → name = entry.callee
  stages : ∀ entry ∈ block.entries, ∀ other ∈ block.entries, entry.MayPrecede other →
    host.matched.lookup entry.callee ≠ host.matched.lookup other.callee →
    ∀ name stage later last, TakenStage host block entry name stage →
      TakenStage host block other later last → stage ≤ last
  /-- A stage below the scan's first maximum. -/
  bounded : ∀ entry ∈ block.entries, ∀ name stage, TakenStage host block entry name stage →
    -1 ≤ stage

end Conforms

/-! ## The Topo names of functions -/

section Walk

variable {host : HostModule} {walked : List (Name × FunctionId)} {name : Name} {func : FunctionId}

theorem llvmToTopo_append_singleton (entry : Name × FunctionId) :
    host.llvmToTopo (walked ++ [entry]) =
      (host.llvmToTopo walked).insert (host.getName entry.2) entry.1 := by
  rw [HostModule.llvmToTopo, List.foldl_append]
  rfl

/-- A function has a name that was walked, and has one if any was. -/
theorem lookup_llvmToTopo :
    ((host.llvmToTopo walked).lookup (host.getName func) = some name → (name, func) ∈ walked) ∧
      ((name, func) ∈ walked → ((host.llvmToTopo walked).lookup (host.getName func)).isSome) := by
  induction walked using List.reverseRecOn with
  | nil => simp [HostModule.llvmToTopo]
  | append_singleton walked entry ih =>
      obtain ⟨topoName, other⟩ := entry
      rw [llvmToTopo_append_singleton]
      by_cases same : func = other
      · subst same
        rw [AList.lookup_insert]
        refine ⟨fun found => ?_, fun _ => rfl⟩
        obtain rfl := Option.some.inj found
        exact List.mem_append_right _ (List.mem_singleton_self _)
      · have apart : host.getName func ≠ host.getName other :=
          fun equal => same (host.getName_injective equal)
        rw [AList.lookup_insert_ne apart]
        simpa [same] using ih

theorem HostModule.IsWalk.mem_iff (walk : host.IsWalk walked) :
    (name, func) ∈ walked ↔ host.matched.lookup name = some func := by
  rw [List.Perm.mem_iff walk, List.mem_map, ← Option.mem_def, AList.mem_lookup_iff]
  constructor
  · rintro ⟨⟨key, value⟩, member, same⟩
    cases same
    exact member
  · intro member
    exact ⟨⟨name, func⟩, member, rfl⟩

/-- A call of a mapped function has one of the function's names. -/
theorem topoName_of_walk (walk : host.IsWalk walked) {call : HostCall}
    (target : call.callee = some func) (mapped : host.matched.lookup name = some func) :
    ∃ topoName, call.topoName host (host.llvmToTopo walked) = some topoName ∧
      host.matched.lookup topoName = some func := by
  have known : ((host.llvmToTopo walked).lookup (host.getName func)).isSome :=
    lookup_llvmToTopo.2 (walk.mem_iff.mpr mapped)
  obtain ⟨topoName, found⟩ := Option.isSome_iff_exists.mp known
  refine ⟨topoName, ?_, walk.mem_iff.mp (lookup_llvmToTopo.1 found)⟩
  rw [HostCall.topoName, target]
  exact found

theorem known_of_topoName (walk : host.IsWalk walked) {call : HostCall}
    (named : call.topoName host (host.llvmToTopo walked) = some name) :
    ∃ func, call.callee = some func ∧ host.matched.lookup name = some func := by
  obtain ⟨func, target, found⟩ := Option.bind_eq_some_iff.mp named
  exact ⟨func, target, walk.mem_iff.mp (lookup_llvmToTopo.1 found)⟩

end Walk

/-! ## Conforming bodies are clean -/

/-- The values that a list keeps stand in it one after the other. -/
theorem filterMap_positions {α β : Type} (keep : α → Option β) (list : List α) :
    ∃ position : Nat → Nat, StrictMono position ∧
      ∀ index value, (list.filterMap keep)[index]? = some value →
        ∃ element, list[position index]? = some element ∧ keep element = some value := by
  induction list with
  | nil => exact ⟨id, strictMono_id, fun index value found => by simp at found⟩
  | cons head tail ih =>
      obtain ⟨position, mono, found⟩ := ih
      cases kept : keep head with
      | none =>
          refine ⟨fun index => position index + 1, fun _ _ less => by have := mono less; simpa, ?_⟩
          intro index value here
          rw [List.filterMap_cons_none kept] at here
          exact found index value here
      | some first =>
          refine ⟨fun index => index.casesOn 0 fun index => position index + 1, ?_, ?_⟩
          · intro index later less
            cases later with
            | zero => omega
            | succ later =>
                cases index with
                | zero => simp
                | succ index =>
                    have := mono (Nat.lt_of_succ_lt_succ less)
                    simpa
          · intro index value here
            rw [List.filterMap_cons_some kept] at here
            cases index with
            | zero => exact ⟨head, rfl, by simpa [kept] using here⟩
            | succ index => exact found index value here

section Clean

variable {host : HostModule} {block : FnBlock} {walked : List (Name × FunctionId)}
  {calls : List HostCall} {realises : Nat → FnEntry}

theorem mem_declaredCallees {name : Name} :
    name ∈ block.declaredCallees ↔ ∃ entry ∈ block.entries, entry.callee = name := by
  simp only [FnBlock.declaredCallees, FnBlock.entries, List.mem_dedup, List.mem_map,
    List.mem_mapIdx]
  constructor
  · rintro ⟨callee, member, rfl⟩
    obtain ⟨index, bound, rfl⟩ := List.mem_iff_getElem.mp member
    exact ⟨_, ⟨index, bound, rfl⟩, rfl⟩
  · rintro ⟨entry, ⟨index, bound, rfl⟩, rfl⟩
    exact ⟨_, List.getElem_mem bound, rfl⟩

/-- The name that the checks give a call of a conforming body is one of its entry's function. -/
theorem Conforms.taken (conforms : Conforms host block calls realises) (walk : host.IsWalk walked)
    {index : Nat} {call : HostCall} {name : Name} (here : calls[index]? = some call)
    (named : call.topoName host (host.llvmToTopo walked) = some name) :
    call.IsKnown host ∧ realises index ∈ block.entries ∧
      host.matched.lookup name = host.matched.lookup (realises index).callee := by
  obtain ⟨func, target, mapped⟩ := known_of_topoName walk named
  have known : call.IsKnown host := ⟨func, name, target, mapped⟩
  obtain ⟨inBlock, -, realised⟩ := conforms.declared index call here known
  exact ⟨known, inBlock, by rw [mapped, realised, target]⟩

theorem Conforms.covers (conforms : Conforms host block calls realises) (walk : host.IsWalk walked)
    {entry : FnEntry} (inBlock : entry ∈ block.entries) :
    ∃ index call name, calls[index]? = some call ∧
      call.topoName host (host.llvmToTopo walked) = some name ∧
      (realises index).callee = entry.callee := by
  obtain ⟨index, call, here, known, same⟩ := conforms.covered entry inBlock
  obtain ⟨func, name, target, mapped⟩ := known
  obtain ⟨topoName, named, -⟩ := topoName_of_walk walk target mapped
  exact ⟨index, call, topoName, here, named, same⟩

/-- Exactly the declared callees are called. -/
theorem Conforms.checkBlockCallees_eq_nil (conforms : Conforms host block calls realises)
    (walk : host.IsWalk walked) (apart : TellsApart host block) (func : FunctionId)
    (mapped : host.matched.lookup block.qualifiedName = some func) :
    checkBlockCallees (host.withCalls func calls) (host.llvmToTopo walked) block = [] := by
  unfold checkBlockCallees
  split
  · rfl
  · rename_i regular
    have remapped : (host.withCalls func calls).matched.lookup block.qualifiedName = some func :=
      mapped
    have body : (host.withCalls func calls).calls func = calls := Function.update_self ..
    have same (name : Name) :
        name ∈ irCalledTopo host (host.llvmToTopo walked) calls ↔ name ∈ block.declaredCallees := by
      rw [irCalledTopo, List.mem_dedup, List.mem_filterMap, mem_declaredCallees]
      have names := apart.names (Bool.eq_false_of_not_eq_true regular)
      constructor
      · rintro ⟨call, member, named⟩
        obtain ⟨index, here⟩ := List.mem_iff_getElem?.mp member
        obtain ⟨-, inBlock, taken⟩ := conforms.taken walk here named
        exact ⟨_, inBlock, (names _ inBlock _ taken).symm⟩
      · rintro ⟨entry, inBlock, rfl⟩
        obtain ⟨index, call, name, here, named, realised⟩ := conforms.covers walk inBlock
        obtain ⟨-, -, taken⟩ := conforms.taken walk here named
        rw [realised] at taken
        rw [names entry inBlock name taken] at named
        exact ⟨call, List.mem_of_getElem? here, named⟩
    have reading : irCalledTopo (host.withCalls func calls) (host.llvmToTopo walked) calls =
        irCalledTopo host (host.llvmToTopo walked) calls := rfl
    rw [remapped]
    simp [body, reading, same]

/-- Each staged call is a call of the body, in the order of the body. -/
theorem stagedCalls_positions (names : TopoNames) :
    ∃ position : Nat → Nat, StrictMono position ∧
      ∀ staged ∈ stagedCalls host names block calls,
        ∃ call, calls[position staged.emitIdx]? = some call ∧
          call.topoName host names = some staged.name ∧
          block.calleeStage.lookup staged.name = some staged.stage ∧
          (call.place staged.emitIdx).line = staged.line ∧
          (call.place staged.emitIdx).col = staged.col := by
  obtain ⟨position, mono, found⟩ :=
    filterMap_positions (HostCall.staged host names block) calls
  refine ⟨position, mono, fun staged member => ?_⟩
  obtain ⟨index, bound, rfl⟩ := List.mem_mapIdx.mp member
  obtain ⟨call, here, kept⟩ := found index _ (List.getElem?_eq_getElem bound)
  obtain ⟨name, named, kept⟩ := Option.bind_eq_some_iff.mp kept
  obtain ⟨stage, stageOf, kept⟩ := Option.map_eq_some_iff.mp kept
  refine ⟨call, here, ?_⟩
  rw [← kept]
  exact ⟨named, stageOf, rfl, rfl⟩

/-- The stages of a conforming body rise. -/
theorem Conforms.checkBlockStages_eq_nil (conforms : Conforms host block calls realises)
    (walk : host.IsWalk walked) (apart : TellsApart host block) (func : FunctionId)
    (mapped : host.matched.lookup block.qualifiedName = some func) :
    checkBlockStages (host.withCalls func calls) (host.llvmToTopo walked) block = [] := by
  have remapped : (host.withCalls func calls).matched.lookup block.qualifiedName = some func :=
    mapped
  have body : (host.withCalls func calls).calls func = calls := Function.update_self ..
  have reading : stageViolations (host.withCalls func calls) (host.llvmToTopo walked) block calls =
      stageViolations host (host.llvmToTopo walked) block calls := rfl
  rw [checkBlockStages_eq remapped, body, reading, List.map_eq_nil_iff, stageViolations,
    scanStages_eq_nil_iff, List.pairwise_map]
  have sortPerm := List.mergeSort_perm (stagedCalls host (host.llvmToTopo walked) block calls)
    fun call other => !other.less call
  obtain ⟨position, mono, found⟩ :=
    @stagedCalls_positions host block calls (host.llvmToTopo walked)
  refine ⟨fun staged member => ?_, ?_⟩
  · obtain ⟨call, here, named, stage, -, -⟩ := found staged (sortPerm.mem_iff.mp member)
    obtain ⟨-, inBlock, taken⟩ := conforms.taken walk here named
    exact apart.bounded _ inBlock _ _ ⟨taken, stage⟩
  · refine List.Pairwise.imp_of_mem ?_ before_sortCalls
    intro staged later member laterMember before
    obtain ⟨call, here, named, stage, line, col⟩ := found staged (sortPerm.mem_iff.mp member)
    obtain ⟨other, there, otherNamed, last, otherLine, otherCol⟩ :=
      found later (sortPerm.mem_iff.mp laterMember)
    obtain ⟨known, inBlock, taken⟩ := conforms.taken walk here named
    obtain ⟨otherKnown, otherInBlock, otherTaken⟩ := conforms.taken walk there otherNamed
    by_cases same : host.matched.lookup (realises (position staged.emitIdx)).callee =
        host.matched.lookup (realises (position later.emitIdx)).callee
    · -- One function has one name in this walk.
      obtain ⟨target, isTarget, mapped⟩ := known_of_topoName walk named
      obtain ⟨otherTarget, otherIsTarget, otherMapped⟩ := known_of_topoName walk otherNamed
      have one : some target = some otherTarget := by
        rw [← mapped, ← otherMapped, taken, otherTaken, same]
      have sameName : some staged.name = some later.name := by
        rw [← named, ← otherNamed, HostCall.topoName, HostCall.topoName, isTarget, otherIsTarget,
          one]
      have sameStage : some staged.stage = some later.stage := by
        rw [← stage, ← last, Option.some.inj sameName]
      exact (Option.some.inj sameStage).le
    · refine apart.stages _ inBlock _ otherInBlock ?_ same _ _ _ _ ⟨taken, stage⟩
        ⟨otherTaken, last⟩
      refine conforms.ordered _ call _ other here known there otherKnown ?_
      have numbers : staged.emitIdx < later.emitIdx →
          position staged.emitIdx < position later.emitIdx := fun less => mono less
      simp only [StagedCall.Before, HostCall.place] at before line col otherLine otherCol ⊢
      omega

end Clean

/-! ## Bodies that tell -/

/-- The mapping walked so that some entries come last. -/
def HostModule.walkLast (host : HostModule) (last : List (Name × FunctionId)) :
    List (Name × FunctionId) :=
  ((host.matched.entries.map fun entry => (entry.1, entry.2)).filter
    fun entry => !last.contains entry) ++ last

theorem HostModule.isWalk_walkLast {host : HostModule} {last : List (Name × FunctionId)}
    (nodup : last.Nodup)
    (known : ∀ entry ∈ last, host.matched.lookup entry.1 = some entry.2) :
    host.IsWalk (host.walkLast last) := by
  have entriesNodup : (host.matched.entries.map fun entry => (entry.1, entry.2)).Nodup := by
    refine List.Nodup.map ?_ host.matched.nodupKeys.nodup
    rintro ⟨name, func⟩ ⟨other, otherFunc⟩ same
    cases same
    rfl
  refine (List.perm_ext_iff_of_nodup ?_ entriesNodup).mpr fun entry => ?_
  · refine List.nodup_append.mpr ⟨entriesNodup.filter _, nodup, ?_⟩
    rintro entry inFilter _ inLast rfl
    simp [inLast] at inFilter
  · obtain ⟨name, func⟩ := entry
    rw [walkLast, List.mem_append, List.mem_filter, Bool.not_eq_true', List.contains_eq_mem,
      decide_eq_false_iff_not]
    constructor
    · rintro (⟨member, -⟩ | inLast)
      · exact member
      · exact (HostModule.IsWalk.mem_iff (List.Perm.refl _)).mpr (known _ inLast)
    · intro member
      by_cases inLast : (name, func) ∈ last
      · exact .inr inLast
      · exact .inl ⟨member, inLast⟩

namespace FnEntry

/-- Entries without a stage may stand anywhere. -/
def key (entry : FnEntry) : Int := entry.stage.getD 0

theorem MayPrecede.of_key {entry other : FnEntry} (rises : entry.key ≤ other.key) :
    entry.MayPrecede other := by
  intro stage inEntry later inOther
  rw [key, key, Option.mem_def.mp inEntry, Option.mem_def.mp inOther] at rises
  exact rises

theorem MayPrecede.cases {entry other : FnEntry} (before : entry.MayPrecede other) :
    entry.stage = none ∨ other.stage = none ∨ entry.key ≤ other.key := by
  unfold key
  cases first : entry.stage with
  | none => exact .inl rfl
  | some stage =>
      cases second : other.stage with
      | none => exact .inr (.inl rfl)
      | some later => exact .inr (.inr (before stage first later second))

theorem mayPrecede_of_none {entry other : FnEntry} (unstaged : entry.stage = none) :
    entry.MayPrecede other ∧ other.MayPrecede entry := by
  constructor
  · intro stage member
    rw [unstaged] at member
    cases member
  · intro stage member later laterMember
    rw [unstaged] at laterMember
    cases laterMember

/-- The entries by their stages. -/
def rising (entries : List FnEntry) : List FnEntry :=
  entries.mergeSort fun entry other => decide (entry.key ≤ other.key)

theorem mem_rising {entries : List FnEntry} {entry : FnEntry} :
    entry ∈ rising entries ↔ entry ∈ entries := List.mem_mergeSort

theorem pairwise_rising (entries : List FnEntry) :
    (rising entries).Pairwise fun entry other => entry.key ≤ other.key := by
  refine (List.pairwise_mergeSort ?_ ?_ entries).imp of_decide_eq_true
  · intro entry other third first second
    simp only [decide_eq_true_eq] at *
    omega
  · intro entry other
    simp only [Bool.or_eq_true, decide_eq_true_eq]
    omega

/-- An entry between those below it and those above it. -/
theorem pairwise_around {front back : List FnEntry} {entry : FnEntry}
    (frontRises : front.Pairwise fun entry other => entry.key ≤ other.key)
    (backRises : back.Pairwise fun entry other => entry.key ≤ other.key)
    (below : ∀ other ∈ front, other.key ≤ entry.key)
    (above : ∀ other ∈ back, entry.key ≤ other.key) :
    (front ++ entry :: back).Pairwise fun entry other => entry.key ≤ other.key := by
  refine List.pairwise_append.mpr ⟨frontRises, List.pairwise_cons.mpr ⟨above, backRises⟩, ?_⟩
  intro other inFront later inBack
  rcases List.mem_cons.mp inBack with rfl | inBack
  · exact below other inFront
  · exact (below other inFront).trans (above later inBack)

/-- The entries up to a stage, and those above it. -/
def upTo (bound : Int) (entries : List FnEntry) : List FnEntry :=
  entries.filter fun entry => entry.key ≤ bound

def above (bound : Int) (entries : List FnEntry) : List FnEntry :=
  entries.filter fun entry => bound < entry.key

theorem mem_upTo {bound : Int} {entries : List FnEntry} {entry : FnEntry} :
    entry ∈ upTo bound entries ↔ entry ∈ entries ∧ entry.key ≤ bound := by
  simp [upTo]

theorem mem_above {bound : Int} {entries : List FnEntry} {entry : FnEntry} :
    entry ∈ above bound entries ↔ entry ∈ entries ∧ bound < entry.key := by
  simp [above]

/-- The entries in the order of their stages, with one entry before another one. -/
theorem exists_arrangement {entries : List FnEntry} {entry other : FnEntry}
    (before : entry.MayPrecede other) :
    ∃ front middle back : List FnEntry,
      (front ++ entry :: (middle ++ other :: back)).Pairwise MayPrecede ∧
        ∀ third, third ∈ front ++ middle ++ back ↔ third ∈ entries := by
  have sorted := pairwise_rising entries
  have around (middle : FnEntry) : (upTo middle.key (rising entries) ++
      middle :: above middle.key (rising entries)).Pairwise
        fun entry other => entry.key ≤ other.key :=
    pairwise_around (sorted.filter _) (sorted.filter _)
      (fun third member => (mem_upTo.mp member).2)
      (fun third member => (mem_above.mp member).2.le)
  have all (bound : Int) (third : FnEntry) :
      third ∈ upTo bound (rising entries) ++ above bound (rising entries) ↔ third ∈ entries := by
    rw [List.mem_append, mem_upTo, mem_above, ← and_or_left, and_iff_left (le_or_gt _ _),
      mem_rising]
  rcases before.cases with unstaged | unstaged | rises
  · refine ⟨[], upTo other.key (rising entries), above other.key (rising entries), ?_, all _⟩
    exact List.pairwise_cons.mpr ⟨fun third _ => (mayPrecede_of_none unstaged).1,
      (around other).imp MayPrecede.of_key⟩
  · refine ⟨upTo entry.key (rising entries), above entry.key (rising entries), [], ?_,
      fun third => by rw [List.append_nil, all]⟩
    rw [← List.cons_append, ← List.append_assoc]
    refine List.pairwise_append.mpr ⟨(around entry).imp MayPrecede.of_key,
      List.pairwise_singleton _ _, ?_⟩
    intro third _ last isOther
    rw [List.mem_singleton.mp isOther]
    exact (mayPrecede_of_none unstaged).2
  · refine ⟨upTo entry.key (rising entries), upTo other.key (above entry.key (rising entries)),
      above other.key (above entry.key (rising entries)), ?_, fun third => ?_⟩
    · have upper := sorted.filter fun third => decide (entry.key < third.key)
      refine List.Pairwise.imp MayPrecede.of_key (pairwise_around (sorted.filter _)
        (pairwise_around (upper.filter _) (upper.filter _)
          (fun third member => (mem_upTo.mp member).2)
          (fun third member => (mem_above.mp member).2.le))
        (fun third member => (mem_upTo.mp member).2) ?_)
      intro third member
      rcases List.mem_append.mp member with inMiddle | inBack
      · exact (mem_above.mp (mem_upTo.mp inMiddle).1).2.le
      · rcases List.mem_cons.mp inBack with rfl | inBack
        · exact rises
        · exact rises.trans (mem_above.mp inBack).2.le
    · rw [← all entry.key, List.append_assoc, List.mem_append, List.mem_append, List.mem_append,
        @mem_upTo other.key, @mem_above other.key, ← and_or_left,
        and_iff_left (le_or_gt _ _)]

end FnEntry

section Tells

variable {host : HostModule} {block : FnBlock}

/-- A body that calls the functions of some entries, without places. -/
def bodyOf (host : HostModule) (entries : List FnEntry) : List HostCall :=
  entries.map fun entry => { callee := host.matched.lookup entry.callee, debugLoc := none }

/-- The entries that the calls of such a body realise. -/
def realisedBy (entries : List FnEntry) (index : Nat) : FnEntry :=
  entries[index]?.getD { callee := [], stage := none }

theorem getElem?_bodyOf {entries : List FnEntry} {index : Nat} {call : HostCall}
    (here : (bodyOf host entries)[index]? = some call) :
    entries[index]? = some (realisedBy entries index) ∧ call.debugLoc = none ∧
      host.matched.lookup (realisedBy entries index).callee = call.callee := by
  rw [bodyOf, List.getElem?_map] at here
  obtain ⟨entry, found, rfl⟩ := Option.map_eq_some_iff.mp here
  have realised : realisedBy entries index = entry := by
    rw [realisedBy, found]
    rfl
  rw [realised]
  exact ⟨found, rfl, rfl⟩

/-- All entries of a block in an allowed order make a conforming body. -/
theorem conforms_bodyOf
    (mapped : ∀ entry ∈ block.entries, (host.matched.lookup entry.callee).isSome)
    {entries : List FnEntry} (all : ∀ entry, entry ∈ entries ↔ entry ∈ block.entries)
    (rises : entries.Pairwise FnEntry.MayPrecede) :
    Conforms host block (bodyOf host entries) (realisedBy entries) where
  declared index call here known := by
    obtain ⟨found, -, target⟩ := getElem?_bodyOf here
    have inBlock := (all _).mp (List.mem_of_getElem? found)
    exact ⟨inBlock, target ▸ mapped _ inBlock, target⟩
  ordered index call later other here _ there _ before := by
    obtain ⟨found, unplaced, -⟩ := getElem?_bodyOf here
    obtain ⟨otherFound, otherUnplaced, -⟩ := getElem?_bodyOf there
    have less : index < later := by
      simpa [StagedCall.Before, HostCall.place, unplaced, otherUnplaced] using before
    obtain ⟨bound, isEntry⟩ := List.getElem?_eq_some_iff.mp found
    obtain ⟨otherBound, isOther⟩ := List.getElem?_eq_some_iff.mp otherFound
    rw [← isEntry, ← isOther]
    exact List.pairwise_iff_getElem.mp rises index later bound otherBound less
  covered entry inBlock := by
    obtain ⟨index, here⟩ := List.mem_iff_getElem?.mp ((all entry).mpr inBlock)
    obtain ⟨func, target⟩ := Option.isSome_iff_exists.mp (mapped entry inBlock)
    refine ⟨index, { callee := host.matched.lookup entry.callee, debugLoc := none }, ?_,
      ⟨func, entry.callee, target, target⟩, ?_⟩
    · rw [bodyOf, List.getElem?_map, here]
      rfl
    · rw [realisedBy, here]
      rfl

/-- What a silent check of the stages says about two staged calls. -/
theorem stages_of_silent {names : TopoNames} {calls : List HostCall}
    (silent : stageViolations host names block calls = []) :
    (∀ staged ∈ stagedCalls host names block calls, -1 ≤ staged.stage) ∧
      ∀ staged ∈ stagedCalls host names block calls,
        ∀ later ∈ stagedCalls host names block calls, staged.Before later →
          staged.stage ≤ later.stage := by
  rw [stageViolations, scanStages_eq_nil_iff, List.pairwise_map] at silent
  have sortPerm := List.mergeSort_perm (stagedCalls host names block calls)
    fun call other => !other.less call
  refine ⟨fun staged member => silent.1 staged (sortPerm.mem_iff.mpr member), ?_⟩
  intro staged member later laterMember before
  have ordered := @before_sortCalls host names block calls
  obtain ⟨index, bound, rfl⟩ := List.mem_iff_getElem.mp (sortPerm.mem_iff.mpr member)
  obtain ⟨other, otherBound, rfl⟩ := List.mem_iff_getElem.mp (sortPerm.mem_iff.mpr laterMember)
  rcases Nat.lt_trichotomy index other with less | same | greater
  · exact List.pairwise_iff_getElem.mp silent.2 index other bound otherBound less
  · subst same
    exact le_rfl
  · exact absurd before
      (List.pairwise_iff_getElem.mp ordered other index otherBound bound greater).asymm

/-- A staged call has the number of the staged calls before it. -/
theorem mem_stagedCalls {names : TopoNames} {front back : List HostCall} {call : HostCall}
    {staged : StagedCall} (kept : call.staged host names block = some staged) :
    { staged with emitIdx := (front.filterMap (HostCall.staged host names block)).length } ∈
      stagedCalls host names block (front ++ call :: back) := by
  rw [stagedCalls, List.filterMap_append, List.filterMap_cons_some kept, List.mem_mapIdx]
  exact ⟨(front.filterMap (HostCall.staged host names block)).length, by simp, by simp⟩

/-- The record of an unplaced call. -/
theorem staged_bodyOf {names : TopoNames} {entry : FnEntry} {func : FunctionId} {name : Name}
    {stage : Int} (target : host.matched.lookup entry.callee = some func)
    (named : names.lookup (host.getName func) = some name)
    (taken : block.calleeStage.lookup name = some stage) :
    HostCall.staged host names block
        { callee := host.matched.lookup entry.callee, debugLoc := none } =
      some { line := 0, col := 0, emitIdx := 0, stage, name } := by
  have topoName : HostCall.topoName host names
      { callee := host.matched.lookup entry.callee, debugLoc := none } = some name := by
    rw [HostCall.topoName, target]
    exact named
  rw [HostCall.staged, topoName, Option.bind_some, taken]
  rfl

/-- Walked last, names are taken for the names of their functions. -/
theorem lookup_walkLast {name other : Name} {func target : FunctionId} (apart : func ≠ target) :
    (host.llvmToTopo (host.walkLast [(name, func), (other, target)])).lookup (host.getName func) =
        some name ∧
      (host.llvmToTopo (host.walkLast [(name, func), (other, target)])).lookup
        (host.getName target) = some other := by
  have split : host.walkLast [(name, func), (other, target)] =
      (((host.matched.entries.map fun entry => (entry.1, entry.2)).filter
        fun entry => !([(name, func), (other, target)].contains entry)) ++ [(name, func)]) ++
          [(other, target)] := by
    rw [HostModule.walkLast, List.append_assoc]
    rfl
  have names : host.getName func ≠ host.getName target :=
    fun same => apart (host.getName_injective same)
  rw [split, llvmToTopo_append_singleton, llvmToTopo_append_singleton]
  exact ⟨by rw [AList.lookup_insert_ne names, AList.lookup_insert], AList.lookup_insert _⟩

theorem lookup_walkLast_singleton {name : Name} {func : FunctionId} :
    (host.llvmToTopo (host.walkLast [(name, func)])).lookup (host.getName func) = some name := by
  rw [HostModule.walkLast, llvmToTopo_append_singleton, AList.lookup_insert]

variable {func : FunctionId}

/-- What is reported about a body is found in it. -/
theorem NoFalsePositives.silent (clean : NoFalsePositives host block func)
    (located : host.matched.lookup block.qualifiedName = some func)
    {walked : List (Name × FunctionId)} (walk : host.IsWalk walked) {calls : List HostCall}
    {realises : Nat → FnEntry} (conforms : Conforms host block calls realises) :
    (block.isPipeline = false → ∀ declared ∈ block.declaredCallees,
        declared ∈ irCalledTopo host (host.llvmToTopo walked) calls) ∧
      stageViolations host (host.llvmToTopo walked) block calls = [] := by
  obtain ⟨callees, stages⟩ := clean walked walk calls realises conforms
  have relocated : (host.withCalls func calls).matched.lookup block.qualifiedName = some func :=
    located
  have body : (host.withCalls func calls).calls func = calls := Function.update_self ..
  refine ⟨fun regular declared inBlock => ?_, ?_⟩
  · rw [checkBlockCallees, regular, if_neg Bool.false_ne_true, relocated] at callees
    simp only [body] at callees
    have missing := List.map_eq_nil_iff.mp (List.append_eq_nil_iff.mp callees).1
    by_contra absent
    have unseen : declared ∉
        irCalledTopo (host.withCalls func calls) (host.llvmToTopo walked) calls := absent
    have found := List.filter_eq_nil_iff.mp missing declared inBlock
    exact found (by simpa using unseen)
  · rw [checkBlockStages_eq relocated, body, List.map_eq_nil_iff] at stages
    exact stages

/-- A silent check knows the function of a declared callee by this name only. -/
theorem NoFalsePositives.names (clean : NoFalsePositives host block func)
    (located : host.matched.lookup block.qualifiedName = some func)
    (mapped : ∀ entry ∈ block.entries, (host.matched.lookup entry.callee).isSome)
    (regular : block.isPipeline = false) {entry : FnEntry} (inBlock : entry ∈ block.entries)
    {name : Name} (shared : host.matched.lookup name = host.matched.lookup entry.callee) :
    name = entry.callee := by
  obtain ⟨target, isTarget⟩ := Option.isSome_iff_exists.mp (mapped entry inBlock)
  have walk : host.IsWalk (host.walkLast [(name, target)]) := by
    refine HostModule.isWalk_walkLast (List.nodup_singleton _) fun other member => ?_
    rw [List.mem_singleton.mp member]
    exact shared.trans isTarget
  have conforms := conforms_bodyOf mapped (fun _ => FnEntry.mem_rising)
    ((FnEntry.pairwise_rising block.entries).imp FnEntry.MayPrecede.of_key)
  have called := (clean.silent located walk conforms).1 regular entry.callee
    (mem_declaredCallees.mpr ⟨entry, inBlock, rfl⟩)
  rw [irCalledTopo, List.mem_dedup, List.mem_filterMap] at called
  obtain ⟨call, -, named⟩ := called
  -- A call under this name is of its function, which was walked under the other name last.
  obtain ⟨called, isCalled, known⟩ := known_of_topoName walk named
  obtain rfl : called = target := Option.some.inj (known.symm.trans isTarget)
  rw [HostCall.topoName, isCalled, Option.bind_some, lookup_walkLast_singleton] at named
  exact Option.some.inj named

/-- The stages that a silent check takes rise where the declared ones may. -/
theorem NoFalsePositives.stages (clean : NoFalsePositives host block func)
    (located : host.matched.lookup block.qualifiedName = some func)
    (mapped : ∀ entry ∈ block.entries, (host.matched.lookup entry.callee).isSome)
    {entry other : FnEntry} (inBlock : entry ∈ block.entries) (otherInBlock : other ∈ block.entries)
    (before : entry.MayPrecede other)
    (apart : host.matched.lookup entry.callee ≠ host.matched.lookup other.callee)
    {name later : Name} {stage last : Int} (taken : TakenStage host block entry name stage)
    (laterTaken : TakenStage host block other later last) : stage ≤ last := by
  obtain ⟨target, isTarget⟩ := Option.isSome_iff_exists.mp (mapped entry inBlock)
  obtain ⟨otherTarget, isOtherTarget⟩ := Option.isSome_iff_exists.mp (mapped other otherInBlock)
  have distinct : target ≠ otherTarget := by
    rintro rfl
    exact apart (isTarget.trans isOtherTarget.symm)
  have walk : host.IsWalk (host.walkLast [(name, target), (later, otherTarget)]) := by
    refine HostModule.isWalk_walkLast ?_ fun walked member => ?_
    · simp [distinct]
    · rcases List.mem_pair.mp member with rfl | rfl
      · exact taken.1.trans isTarget
      · exact laterTaken.1.trans isOtherTarget
  obtain ⟨names, laterNames⟩ := @lookup_walkLast host name later _ _ distinct
  obtain ⟨front, middle, back, rises, members⟩ :=
    @FnEntry.exists_arrangement block.entries entry other before
  have all : ∀ third, third ∈ front ++ entry :: (middle ++ other :: back) ↔
      third ∈ block.entries := by
    intro third
    rw [← members]
    simp only [List.mem_append, List.mem_cons]
    constructor
    · rintro (inFront | rfl | inMiddle | rfl | inBack)
      · exact .inl (.inl inFront)
      · simpa only [List.mem_append] using (members _).mpr inBlock
      · exact .inl (.inr inMiddle)
      · simpa only [List.mem_append] using (members _).mpr otherInBlock
      · exact .inr inBack
    · rintro ((inFront | inMiddle) | inBack)
      · exact .inl inFront
      · exact .inr (.inr (.inl inMiddle))
      · exact .inr (.inr (.inr (.inr inBack)))
  have silent := (stages_of_silent
    (clean.silent located walk (conforms_bodyOf mapped all rises)).2).2
  have staged := @staged_bodyOf host block _ _ _ _ _ isTarget names taken.2
  have laterStaged := @staged_bodyOf host block _ _ _ _ _ isOtherTarget laterNames laterTaken.2
  have split : bodyOf host (front ++ entry :: (middle ++ other :: back)) =
      (bodyOf host front ++ ⟨host.matched.lookup entry.callee, none⟩ :: bodyOf host middle) ++
        ⟨host.matched.lookup other.callee, none⟩ :: bodyOf host back := by
    simp [bodyOf]
  have splitFirst : bodyOf host (front ++ entry :: (middle ++ other :: back)) =
      bodyOf host front ++ ⟨host.matched.lookup entry.callee, none⟩ ::
        bodyOf host (middle ++ other :: back) := by
    simp [bodyOf]
  refine silent _ (splitFirst ▸ mem_stagedCalls staged) _ (split ▸ mem_stagedCalls laterStaged) ?_
  refine .inr ⟨rfl, .inr ⟨rfl, ?_⟩⟩
  rw [List.filterMap_append, List.filterMap_cons_some staged, List.length_append]
  simp

/-- No stage that a silent check takes is below the scan's first maximum. -/
theorem NoFalsePositives.bounded (clean : NoFalsePositives host block func)
    (located : host.matched.lookup block.qualifiedName = some func)
    (mapped : ∀ entry ∈ block.entries, (host.matched.lookup entry.callee).isSome)
    {entry : FnEntry} (inBlock : entry ∈ block.entries) {name : Name} {stage : Int}
    (taken : TakenStage host block entry name stage) : -1 ≤ stage := by
  obtain ⟨target, isTarget⟩ := Option.isSome_iff_exists.mp (mapped entry inBlock)
  have walk : host.IsWalk (host.walkLast [(name, target)]) := by
    refine HostModule.isWalk_walkLast (List.nodup_singleton _) fun other member => ?_
    rw [List.mem_singleton.mp member]
    exact taken.1.trans isTarget
  have conforms := conforms_bodyOf mapped (fun _ => FnEntry.mem_rising)
    ((FnEntry.pairwise_rising block.entries).imp FnEntry.MayPrecede.of_key)
  have silent := (stages_of_silent (clean.silent located walk conforms).2).1
  obtain ⟨front, back, split⟩ := List.append_of_mem (FnEntry.mem_rising.mpr inBlock)
  have body : bodyOf host (FnEntry.rising block.entries) =
      bodyOf host front ++ ⟨host.matched.lookup entry.callee, none⟩ :: bodyOf host back := by
    rw [split]
    simp [bodyOf]
  have staged := @staged_bodyOf host block _ _ _ _ _ isTarget lookup_walkLast_singleton taken.2
  exact silent _ (body ▸ mem_stagedCalls staged)

/-- The checks are silent about every conforming body, in every order of the mapping, exactly where
the mapping and the last stages tell the declared callees apart; where a callee is mapped to no
function there is no conforming body. -/
theorem noFalsePositives_iff (host : HostModule) (block : FnBlock) (func : FunctionId)
    (located : host.matched.lookup block.qualifiedName = some func) :
    NoFalsePositives host block func ↔
      ((∀ entry ∈ block.entries, (host.matched.lookup entry.callee).isSome) →
        TellsApart host block) := by
  constructor
  · intro clean mapped
    refine ⟨?_, ?_, ?_⟩
    · intro regular entry inBlock name shared
      exact clean.names located mapped regular inBlock shared
    · intro entry inBlock other otherInBlock before apart name stage later last taken laterTaken
      exact clean.stages located mapped inBlock otherInBlock before apart taken laterTaken
    · intro entry inBlock name stage taken
      exact clean.bounded located mapped inBlock taken
  · intro tells walked walk calls realises conforms
    have mapped : ∀ entry ∈ block.entries, (host.matched.lookup entry.callee).isSome := by
      intro entry inBlock
      obtain ⟨index, call, here, known, same⟩ := conforms.covered entry inBlock
      obtain ⟨-, direct, realised⟩ := conforms.declared index call here known
      rw [← same, realised]
      exact direct
    exact ⟨conforms.checkBlockCallees_eq_nil walk (tells mapped) func located,
      conforms.checkBlockStages_eq_nil walk (tells mapped) func located⟩

end Tells

/-- A block that calls `f`, then `g`, then `f` again. -/
def againBlock : FnBlock where
  qualifiedName := "run".toList
  isPipeline := false
  calledFunctions := ["f".toList, "g".toList, "f".toList]
  stages := [1, 2, 3]

/-- A host that calls what the block declares. -/
def againHost : HostModule where
  getName func := List.replicate func 'f'
  getName_injective := replicate_injective
  calls _ := [⟨some 1, none⟩, ⟨some 2, none⟩, ⟨some 1, none⟩]
  matched := ((∅ : FunctionMap).insert "run".toList 0).insert "f".toList 1 |>.insert "g".toList 2

theorem demoRun_tells : TellsApart demoHost demoRun := by
  have entries : demoRun.entries =
      [⟨"demo::init".toList, some 1⟩, ⟨"demo::process".toList, some 2⟩] := by decide
  have mapped : demoHost.matched.entries =
      [⟨"demo::process".toList, 2⟩, ⟨"demo::init".toList, 1⟩, ⟨"demo::run".toList, 0⟩] := by decide
  have own (entry : FnEntry) (inBlock : entry ∈ demoRun.entries) (name : Name)
      (shared : demoHost.matched.lookup name = demoHost.matched.lookup entry.callee) :
      name = entry.callee := by
    rw [entries] at inBlock
    have first : demoHost.matched.lookup "demo::init".toList = some 1 := by decide
    have second : demoHost.matched.lookup "demo::process".toList = some 2 := by decide
    rcases List.mem_pair.mp inBlock with rfl | rfl
    · rw [first, ← Option.mem_def, AList.mem_lookup_iff, mapped] at shared
      simpa using shared
    · rw [second, ← Option.mem_def, AList.mem_lookup_iff, mapped] at shared
      simpa using shared
  have taken (entry : FnEntry) (inBlock : entry ∈ demoRun.entries) (name : Name) (stage : Int)
      (isTaken : TakenStage demoHost demoRun entry name stage) : entry.stage = some stage := by
    rw [← isTaken.2, own entry inBlock name isTaken.1]
    rw [entries] at inBlock
    rcases List.mem_pair.mp inBlock with rfl | rfl <;> decide
  refine ⟨fun _ => own, ?_, ?_⟩
  · intro entry inBlock other otherInBlock before _ name stage later last isTaken laterTaken
    exact before stage (taken entry inBlock name stage isTaken) last
      (taken other otherInBlock later last laterTaken)
  · intro entry inBlock name stage isTaken
    have declared := taken entry inBlock name stage isTaken
    rw [entries] at inBlock
    rcases List.mem_pair.mp inBlock with rfl | rfl <;> simp at declared <;> omega

/-- The callees of `demo::run` are told apart. -/
theorem noFalsePositives_demoRun : NoFalsePositives demoHost demoRun 0 :=
  (noFalsePositives_iff demoHost demoRun 0 (by decide)).mpr fun _ => demoRun_tells

/-- The calls of `f` are taken for stage 3, and `g` is reported after the first of them. -/
theorem againBlock_reported :
    (∃ realises, Conforms againHost againBlock (againHost.calls 0) realises) ∧
      ∃ walked, againHost.IsWalk walked ∧
        checkBlockStages againHost (againHost.llvmToTopo walked) againBlock ≠ [] := by
  refine ⟨⟨realisedBy againBlock.entries, ?_⟩,
    [("g".toList, 2), ("f".toList, 1), ("run".toList, 0)], ?_, ?_⟩
  · have body : againHost.calls 0 = bodyOf againHost againBlock.entries := by decide
    rw [body]
    refine conforms_bodyOf (by decide) (fun _ => Iff.rfl) ?_
    refine List.Pairwise.imp FnEntry.MayPrecede.of_key ?_
    decide
  · unfold HostModule.IsWalk
    decide
  · have sorted : sortCalls (stagedCalls againHost (againHost.llvmToTopo
        [("g".toList, 2), ("f".toList, 1), ("run".toList, 0)]) againBlock (againHost.calls 0)) =
        [⟨0, 0, 0, 3, "f".toList⟩, ⟨0, 0, 1, 2, "g".toList⟩, ⟨0, 0, 2, 3, "f".toList⟩] :=
      sortCalls_eq (by decide) (by decide)
    have located : againHost.matched.lookup againBlock.qualifiedName = some 0 := by decide
    rw [checkBlockStages_eq located, stageViolations, sorted]
    simp [scanStages]

end BodyVerifier
end Backend
end TopoLlvm
