import TopoLlvm.Backend.IREmbed
import TopoLlvm.Library.DepthFirst

/-!
# References of the embedded bodies

An embedded module keeps the bodies that the pipelines reach by direct calls.  Functions that are
not kept are erased and `undef` takes their place, wherever a body that is kept refers to them.
-/

namespace TopoLlvm
namespace Backend

/-- How a body refers to a function. -/
inductive ReferenceKind where
  /-- The callee of a `call` that has the function's type. -/
  | call
  /-- The callee of a `call` of another type. -/
  | mismatchedCall
  | invoke
  | callBr
  /-- Any other operand, or a part of a constant that is one. -/
  | address
  deriving DecidableEq

structure Reference where
  kind : ReferenceKind
  target : FunctionId
  /-- The alias of the function that the body names. -/
  throughAlias : Option Name
  deriving DecidableEq

/-- The function that `getCalledFunction` returns for a `CallInst`. -/
def Reference.calledFunction (ref : Reference) : Option FunctionId :=
  match ref.kind, ref.throughAlias with
  | .call, none => some ref.target
  | _, _ => none

/-- Only direct calls are followed, and never through an alias. -/
theorem Reference.calledFunction_ne_none {ref : Reference} (called : ref.calledFunction ≠ none) :
    ref.throughAlias = none ∧ ref.calledFunction = some ref.target := by
  unfold Reference.calledFunction at called ⊢
  split at called
  · rename_i noAlias
    exact ⟨noAlias, rfl⟩
  · exact (called rfl).elim

/-- A module with what its bodies refer to. -/
structure LinkedModule where
  module : IRModule
  references : FunctionId → List Reference
  calls : ∀ func ∈ module.functions, func.isDeclaration = false →
    func.callees = (references func.id).filterMap Reference.calledFunction
  resolved : ∀ func ∈ module.functions, ∀ ref ∈ references func.id,
    ∃ target ∈ module.functions, target.id = ref.target

/-- A module that is written to bitcode. -/
structure Embedded where
  functions : List IRFunction
  /-- The references of a body, with `none` for `undef`. -/
  references : FunctionId → List (Option Reference)

def Embedded.Has (embedded : Embedded) (id : FunctionId) : Prop :=
  ∃ func ∈ embedded.functions, func.id = id

namespace LinkedModule

variable (linked : LinkedModule) (blocks : List LogicBlock) (mapping : SymbolMapping)

/-- A reference after all functions but the given ones are erased, and all aliases if they are
removed too. -/
def replaceUses (functions : List IRFunction) (removeAliases : Bool) (ref : Reference) :
    Option Reference :=
  match ref.throughAlias with
  | some _ => if removeAliases then none else some ref
  | none => if functions.any (·.id = ref.target) then some ref else none

def prune (functions : List IRFunction) (removeAliases : Bool) : Embedded where
  functions := functions
  references id := (linked.references id).map (replaceUses functions removeAliases)

/-- The pipelines with all that they call; nothing is embedded without a pipeline. -/
def serializePipelineIR : Option Embedded :=
  let funcsToClone := funcsToKeepBody linked.module blocks mapping
  if funcsToClone.isEmpty then none
  else
    let keepNames := namesOf linked.module funcsToClone
    some <| linked.prune (linked.module.functions.filter fun func =>
      func.isDeclaration || keepNames.contains func.name) false

/-- The stubs with all that they call, and declarations of the stages. -/
def serializePreCodegenIR : Option Embedded :=
  if (funcsToKeepBody linked.module blocks mapping).isEmpty &&
      (funcsToKeepDecl blocks mapping).isEmpty then none
  else some <| linked.prune (Backend.serializePreCodegenIR linked.module blocks mapping) true

/-- No body misses a function that it refers to. -/
structure Closed (embedded : Embedded) : Prop where
  present : ∀ func ∈ embedded.functions, func.isDeclaration = false →
    ∀ ref ∈ linked.references func.id, embedded.Has ref.target
  noUndef : ∀ func ∈ embedded.functions, func.isDeclaration = false →
    none ∉ embedded.references func.id
  /-- The functions of the pipelines keep their bodies. -/
  pipelines : ∀ block ∈ blocks, block.isPipeline = true → ∀ func ∈ linked.module.functions,
    func.isDeclaration = false → mapping.matched.lookup block.qualifiedName = some func.id →
      func ∈ embedded.functions

end LinkedModule

/-! ## The call graph -/

namespace IRModule

variable (module : IRModule)

/-- The functions that a defined function calls. -/
def next (id : FunctionId) : Option (List FunctionId) :=
  (module.find? id).bind fun func => if func.isDeclaration then none else some func.callees

def Defined (id : FunctionId) : Prop :=
  ∃ func ∈ module.functions, func.isDeclaration = false ∧ func.id = id

/-- A direct call in a body. -/
def Calls (caller callee : FunctionId) : Prop :=
  ∃ func ∈ module.functions, func.isDeclaration = false ∧ func.id = caller ∧ callee ∈ func.callees

variable (blocks : List LogicBlock) (mapping : SymbolMapping)

/-- A defined function that a pipeline is mapped to, or reaches by direct calls. -/
def Reached (id : FunctionId) : Prop :=
  module.Defined id ∧ ∃ block ∈ blocks, block.isPipeline = true ∧
    ∃ root, mapping.matched.lookup block.qualifiedName = some root ∧
      Relation.ReflTransGen module.Calls root id

/-- Functions are kept by their names. -/
def KeepsBody (func : IRFunction) : Prop :=
  ∃ other ∈ module.functions, module.Reached blocks mapping other.id ∧ other.name = func.name

/-- A stage of a pipeline, by its name. -/
def KeepsDecl (func : IRFunction) : Prop :=
  ∃ other ∈ module.functions, other.name = func.name ∧
    ∃ block ∈ blocks, block.isPipeline = true ∧
      ∃ stage ∈ block.calledFunctions, mapping.matched.lookup stage = some other.id

end IRModule

section Collected

variable {module : IRModule} {blocks : List LogicBlock} {mapping : SymbolMapping}

theorem next_eq_some {id : FunctionId} {callees : List FunctionId} :
    module.next id = some callees ↔
      ∃ func ∈ module.functions, func.isDeclaration = false ∧ func.id = id ∧
        callees = func.callees := by
  simp only [IRModule.next, Option.bind_eq_some_iff, IRModule.find?_eq_some_iff]
  constructor
  · rintro ⟨func, ⟨member, same⟩, kept⟩
    split at kept
    · cases kept
    · rename_i defined
      exact ⟨func, member, by simpa using defined, same, (Option.some.inj kept).symm⟩
  · rintro ⟨func, member, defined, same, rfl⟩
    exact ⟨func, ⟨member, same⟩, by simp [defined]⟩

theorem isSome_next {id : FunctionId} : (module.next id).isSome ↔ module.Defined id := by
  rw [Option.isSome_iff_exists]
  constructor
  · rintro ⟨callees, found⟩
    obtain ⟨func, member, defined, same, -⟩ := next_eq_some.mp found
    exact ⟨func, member, defined, same⟩
  · rintro ⟨func, member, defined, same⟩
    exact ⟨func.callees, next_eq_some.mpr ⟨func, member, defined, same, rfl⟩⟩

theorem leads_iff {caller callee : FunctionId} :
    DepthFirst.Leads module.next caller callee ↔ module.Calls caller callee := by
  constructor
  · rintro ⟨callees, found, inside⟩
    obtain ⟨func, member, defined, same, rfl⟩ := next_eq_some.mp found
    exact ⟨func, member, defined, same, inside⟩
  · rintro ⟨func, member, defined, same, inside⟩
    exact ⟨func.callees, next_eq_some.mpr ⟨func, member, defined, same, rfl⟩, inside⟩

theorem collectCallees_eq (depth : Nat) (id : FunctionId) (collected : List FunctionId) :
    collectCallees module depth id collected =
      DepthFirst.collect module.next depth id collected := by
  induction depth generalizing id collected with
  | zero => rfl
  | succ depth ih =>
      have same : collectCallees module depth = DepthFirst.collect module.next depth :=
        funext fun id => funext fun collected => ih id collected
      rw [collectCallees, DepthFirst.collect, IRModule.next, same]
      cases found : module.find? id with
      | none => rfl
      | some func => cases declared : func.isDeclaration <;> simp [declared]

theorem mem_funcsToKeepBody_iff {id : FunctionId} :
    id ∈ funcsToKeepBody module blocks mapping ↔ module.Reached blocks mapping id := by
  have roots : funcsToKeepBody module blocks mapping =
      DepthFirst.collectAll module.next (module.functions.length + 1)
        ((blocks.filter (·.isPipeline)).filterMap fun block =>
          mapping.matched.lookup block.qualifiedName) := by
    rw [funcsToKeepBody, DepthFirst.collectAll, List.foldl_filterMap]
    refine List.foldl_ext _ _ _ fun collected block _ => ?_
    cases mapping.matched.lookup block.qualifiedName with
    | none => rfl
    | some root => exact collectCallees_eq _ root collected
  have complete : ∀ id, (module.next id).isSome → id ∈ module.functions.map (·.id) := by
    intro id some
    obtain ⟨func, member, -, rfl⟩ := isSome_next.mp some
    exact List.mem_map_of_mem member
  have same : DepthFirst.Leads module.next = module.Calls :=
    funext fun caller => funext fun callee => propext leads_iff
  rw [roots, DepthFirst.mem_collectAll complete (by simp), isSome_next, same, IRModule.Reached]
  refine and_congr_right fun _ => ?_
  constructor
  · rintro ⟨root, isRoot, path⟩
    obtain ⟨block, known, matched⟩ := List.mem_filterMap.mp isRoot
    obtain ⟨known, pipeline⟩ := List.mem_filter.mp known
    exact ⟨block, known, pipeline, root, matched, path⟩
  · rintro ⟨block, known, pipeline, root, matched, path⟩
    exact ⟨root, List.mem_filterMap.mpr
      ⟨block, List.mem_filter.mpr ⟨known, pipeline⟩, matched⟩, path⟩

theorem mem_namesOf_iff {ids : List FunctionId} {name : Name} :
    name ∈ namesOf module ids ↔ ∃ func ∈ module.functions, func.id ∈ ids ∧ func.name = name := by
  simp only [namesOf, List.mem_filterMap, Option.map_eq_some_iff, IRModule.find?_eq_some_iff]
  constructor
  · rintro ⟨id, kept, func, ⟨member, rfl⟩, named⟩
    exact ⟨func, member, kept, named⟩
  · rintro ⟨func, member, kept, named⟩
    exact ⟨func.id, kept, func, ⟨member, rfl⟩, named⟩

theorem mem_bodyNames {func : IRFunction} :
    func.name ∈ namesOf module (funcsToKeepBody module blocks mapping) ↔
      module.KeepsBody blocks mapping func := by
  simp only [mem_namesOf_iff, mem_funcsToKeepBody_iff, IRModule.KeepsBody]

theorem mem_declNames {func : IRFunction} :
    func.name ∈ namesOf module (funcsToKeepDecl blocks mapping) ↔
      module.KeepsDecl blocks mapping func := by
  simp only [mem_namesOf_iff, IRModule.KeepsDecl, funcsToKeepDecl, List.mem_flatMap,
    List.mem_filterMap, List.mem_filter]
  constructor
  · rintro ⟨other, member, ⟨block, ⟨known, pipeline⟩, stage, called, matched⟩, named⟩
    exact ⟨other, member, named, block, known, pipeline, stage, called, matched⟩
  · rintro ⟨other, member, named, block, known, pipeline, stage, called, matched⟩
    exact ⟨other, member, ⟨block, ⟨known, pipeline⟩, stage, called, matched⟩, named⟩

end Collected

/-! ## What is missing -/

namespace LinkedModule

variable (linked : LinkedModule) (blocks : List LogicBlock) (mapping : SymbolMapping)

/-- References that are not direct calls of a reached function lead to functions that are declared,
kept with their bodies, or otherwise there; if aliases are removed, not through one. -/
def KeepsReferences (others : IRFunction → Prop) (removeAliases : Bool) : Prop :=
  ∀ func ∈ linked.module.functions, func.isDeclaration = false →
    linked.module.KeepsBody blocks mapping func → ∀ ref ∈ linked.references func.id,
      (linked.module.Reached blocks mapping func.id → ref.calledFunction = none) →
        (removeAliases = true → ref.throughAlias = none) ∧
          ∀ target ∈ linked.module.functions, target.id = ref.target →
            target.isDeclaration = true ∨ linked.module.KeepsBody blocks mapping target ∨
              others target

variable {linked blocks mapping}

theorem reached_of_call {func target : IRFunction} (member : func ∈ linked.module.functions)
    (defined : func.isDeclaration = false)
    (reached : linked.module.Reached blocks mapping func.id) {ref : Reference}
    (inside : ref ∈ linked.references func.id) (called : ref.calledFunction ≠ none)
    (targetMember : target ∈ linked.module.functions) (same : target.id = ref.target)
    (targetDefined : target.isDeclaration = false) :
    ref.throughAlias = none ∧ linked.module.Reached blocks mapping target.id := by
  obtain ⟨-, block, known, pipeline, root, matched, path⟩ := reached
  have direct := Reference.calledFunction_ne_none called
  refine ⟨direct.1, ⟨target, targetMember, targetDefined, rfl⟩, block, known, pipeline, root,
    matched, path.tail ⟨func, member, defined, rfl, ?_⟩⟩
  rw [linked.calls func member defined, same]
  exact List.mem_filterMap.mpr ⟨ref, inside, direct.2⟩

theorem keepsBody_of_matched {block : LogicBlock} (known : block ∈ blocks)
    (pipeline : block.isPipeline = true) {func : IRFunction}
    (member : func ∈ linked.module.functions) (defined : func.isDeclaration = false)
    (matched : mapping.matched.lookup block.qualifiedName = some func.id) :
    linked.module.KeepsBody blocks mapping func :=
  ⟨func, member, ⟨⟨func, member, defined, rfl⟩, block, known, pipeline, func.id, matched, .refl⟩,
    rfl⟩

/-- A pruned module is closed if what was not followed is kept for another reason. -/
theorem closed_prune_iff {functions : List IRFunction} {removeAliases : Bool}
    {others : IRFunction → Prop}
    (bodies : ∀ func, func ∈ functions ∧ func.isDeclaration = false ↔
      func ∈ linked.module.functions ∧ func.isDeclaration = false ∧
        linked.module.KeepsBody blocks mapping func)
    (has : ∀ target ∈ linked.module.functions, (∃ copy ∈ functions, copy.id = target.id) ↔
      target.isDeclaration = true ∨ linked.module.KeepsBody blocks mapping target ∨
        others target) :
    linked.Closed blocks mapping (linked.prune functions removeAliases) ↔
      linked.KeepsReferences blocks mapping others removeAliases := by
  constructor
  · intro closed func member defined keeps ref inside _
    obtain ⟨copied, -⟩ := (bodies func).mpr ⟨member, defined, keeps⟩
    refine ⟨?_, ?_⟩
    · rintro rfl
      by_contra aliased
      obtain ⟨name, named⟩ := Option.ne_none_iff_exists'.mp aliased
      refine closed.noUndef func copied defined (List.mem_map.mpr ⟨ref, inside, ?_⟩)
      simp [replaceUses, named]
    · intro target targetMember same
      refine (has target targetMember).mp ?_
      rw [same]
      exact closed.present func copied defined ref inside
  · intro kept
    have complete : ∀ func ∈ functions, func.isDeclaration = false →
        ∀ ref ∈ linked.references func.id, (∃ copy ∈ functions, copy.id = ref.target) ∧
          (removeAliases = true → ref.throughAlias = none) := by
      intro func copied defined ref inside
      obtain ⟨member, -, keeps⟩ := (bodies func).mp ⟨copied, defined⟩
      obtain ⟨target, targetMember, same⟩ := linked.resolved func member ref inside
      rw [← same, has target targetMember]
      by_cases followed : linked.module.Reached blocks mapping func.id →
          ref.calledFunction = none
      · obtain ⟨noAlias, there⟩ := kept func member defined keeps ref inside followed
        exact ⟨there target targetMember same, noAlias⟩
      · obtain ⟨reached, called⟩ := Classical.not_imp.mp followed
        cases declared : target.isDeclaration with
        | true =>
            exact ⟨.inl rfl, fun _ => (Reference.calledFunction_ne_none called).1⟩
        | false =>
            obtain ⟨noAlias, reachedTarget⟩ :=
              reached_of_call member defined reached inside called targetMember same declared
            exact ⟨.inr (.inl ⟨target, targetMember, reachedTarget, rfl⟩), fun _ => noAlias⟩
    refine ⟨fun func copied defined ref inside => (complete func copied defined ref inside).1,
      ?_, ?_⟩
    · intro func copied defined undef
      obtain ⟨ref, inside, replaced⟩ := List.mem_map.mp undef
      obtain ⟨⟨copy, there, same⟩, noAlias⟩ := complete func copied defined ref inside
      have found : functions.any (·.id = ref.target) = true :=
        List.any_eq_true.mpr ⟨copy, there, decide_eq_true same⟩
      unfold replaceUses at replaced
      split at replaced
      · rename_i name named
        split at replaced
        · rename_i removed
          cases named.symm.trans (noAlias removed)
        · cases replaced
      · rw [found, if_pos rfl] at replaced
        cases replaced
    · intro block known pipeline func member defined matched
      exact ((bodies func).mpr
        ⟨member, defined, keepsBody_of_matched known pipeline member defined matched⟩).1

/-- The functions of the first module. -/
theorem mem_cloned {func : IRFunction} :
    func ∈ linked.module.functions.filter (fun func => func.isDeclaration ||
        (namesOf linked.module (funcsToKeepBody linked.module blocks mapping)).contains func.name) ↔
      func ∈ linked.module.functions ∧
        (func.isDeclaration = true ∨ linked.module.KeepsBody blocks mapping func) := by
  rw [List.mem_filter, Bool.or_eq_true, List.contains_iff_mem, mem_bodyNames]

/-- The functions of the second module. -/
theorem mem_snapshot {copy : IRFunction}
    (embeds : ¬ ((funcsToKeepBody linked.module blocks mapping).isEmpty &&
      (funcsToKeepDecl blocks mapping).isEmpty) = true) :
    copy ∈ Backend.serializePreCodegenIR linked.module blocks mapping ↔
      ∃ func ∈ linked.module.functions,
        copy = func ∧ (func.isDeclaration = true ∨ linked.module.KeepsBody blocks mapping func) ∨
        copy = { func with isDeclaration := true, linkage := .external } ∧
          func.isDeclaration = false ∧ ¬ linked.module.KeepsBody blocks mapping func ∧
            linked.module.KeepsDecl blocks mapping func := by
  simp only [Backend.serializePreCodegenIR, if_neg embeds, List.mem_filterMap]
  refine exists_congr fun func => and_congr_right fun member => ?_
  have bodies : (namesOf linked.module (funcsToKeepBody linked.module blocks mapping)).contains
      func.name = true ↔ linked.module.KeepsBody blocks mapping func := by
    rw [List.contains_iff_mem, mem_bodyNames]
  have decls : (namesOf linked.module (funcsToKeepDecl blocks mapping)).contains func.name = true ↔
      linked.module.KeepsDecl blocks mapping func := by
    rw [List.contains_iff_mem, mem_declNames]
  unfold pruneFunction
  by_cases declared : func.isDeclaration = true
  · simp [declared, eq_comm]
  have defined : func.isDeclaration = false := by simpa using declared
  rw [if_neg declared]
  by_cases kept : linked.module.KeepsBody blocks mapping func
  · rw [if_pos (bodies.mpr kept)]
    simp [defined, kept, eq_comm]
  rw [if_neg (mt bodies.mp kept)]
  by_cases stage : linked.module.KeepsDecl blocks mapping func
  · rw [if_pos (decls.mpr stage)]
    simp [defined, kept, stage, eq_comm]
  · rw [if_neg (mt decls.mp stage)]
    simp [defined, kept, stage]

theorem keepsReferences_of_isEmpty
    (empty : (funcsToKeepBody linked.module blocks mapping).isEmpty = true)
    (others : IRFunction → Prop) (removeAliases : Bool) :
    linked.KeepsReferences blocks mapping others removeAliases := by
  rintro func - - ⟨other, -, reached, -⟩
  rw [← mem_funcsToKeepBody_iff, List.isEmpty_iff.mp empty] at reached
  cases reached

/-- Both embedded modules are closed exactly where the references that are not followed lead to
functions that are kept anyway. -/
theorem embeddedIR_closed_iff (linked : LinkedModule) (blocks : List LogicBlock)
    (mapping : SymbolMapping) :
    ((∀ embedded, linked.serializePipelineIR blocks mapping = some embedded →
        linked.Closed blocks mapping embedded) ↔
      linked.KeepsReferences blocks mapping (fun _ => False) false) ∧
    ((∀ embedded, linked.serializePreCodegenIR blocks mapping = some embedded →
        linked.Closed blocks mapping embedded) ↔
      linked.KeepsReferences blocks mapping (linked.module.KeepsDecl blocks mapping) true) := by
  constructor
  · unfold serializePipelineIR
    by_cases empty : (funcsToKeepBody linked.module blocks mapping).isEmpty = true
    · simp [empty, keepsReferences_of_isEmpty empty]
    · simp only [empty, if_false, Option.some.injEq, forall_eq', Bool.false_eq_true]
      refine closed_prune_iff (fun func => ?_) fun target member => ?_
      · rw [mem_cloned, and_assoc, and_congr_right_iff]
        intro member
        cases func.isDeclaration <;> simp
      · simp only [mem_cloned, or_false]
        constructor
        · rintro ⟨copy, ⟨copied, kept⟩, same⟩
          rwa [List.inj_on_of_nodup_map linked.module.distinct copied member same] at kept
        · exact fun kept => ⟨target, ⟨member, kept⟩, rfl⟩
  · unfold serializePreCodegenIR
    by_cases empty : ((funcsToKeepBody linked.module blocks mapping).isEmpty &&
        (funcsToKeepDecl blocks mapping).isEmpty) = true
    · simp [empty, keepsReferences_of_isEmpty (Bool.and_eq_true_iff.mp empty).1]
    · simp only [empty, if_false, Option.some.injEq, forall_eq', Bool.false_eq_true]
      refine closed_prune_iff (fun func => ?_) fun target member => ?_
      · rw [mem_snapshot empty]
        constructor
        · rintro ⟨⟨other, member, ⟨rfl, kept⟩ | ⟨rfl, -⟩⟩, defined⟩
          · refine ⟨member, defined, kept.resolve_left ?_⟩
            rw [defined]
            exact Bool.false_ne_true
          · cases defined
        · rintro ⟨member, defined, kept⟩
          exact ⟨⟨func, member, .inl ⟨rfl, .inr kept⟩⟩, defined⟩
      · simp only [mem_snapshot empty]
        constructor
        · rintro ⟨copy, ⟨other, otherMember, ⟨rfl, kept⟩ | ⟨rfl, -, -, stage⟩⟩, same⟩
          · rw [List.inj_on_of_nodup_map linked.module.distinct otherMember member same] at kept
            exact kept.imp_right .inl
          · rw [List.inj_on_of_nodup_map linked.module.distinct otherMember member same] at stage
            exact .inr (.inr stage)
        · intro kept
          by_cases whole : target.isDeclaration = true ∨
              linked.module.KeepsBody blocks mapping target
          · exact ⟨target, ⟨target, member, .inl ⟨rfl, whole⟩⟩, rfl⟩
          · obtain ⟨defined, dropped⟩ := not_or.mp whole
            refine ⟨_, ⟨target, member, .inr ⟨rfl, by simpa using defined, dropped, ?_⟩⟩, rfl⟩
            exact (kept.resolve_left defined).resolve_left dropped

end LinkedModule

/-! ## A callback that is lost -/

/-- A pipeline function that invokes a function. -/
def invoking : LinkedModule where
  module :=
    { functions :=
        [{ id := 0, name := "run".toList, isDeclaration := false, linkage := .external,
           callees := [] },
         { id := 1, name := "helper".toList, isDeclaration := false, linkage := .external,
           callees := [] }]
      distinct := by decide }
  references id := if id = 0 then [{ kind := .invoke, target := 1, throughAlias := none }] else []
  calls := by decide
  resolved := by decide

def runBlocks : List LogicBlock :=
  [{ qualifiedName := "run".toList, isPipeline := true, calledFunctions := [] }]

def runMapping : SymbolMapping where
  matched := (∅ : FunctionMap).insert "run".toList 0
  unmatchedTopo := []
  unmatchedIR := []

/-- Both modules keep the body of the pipeline function with `undef` for what it invokes. -/
theorem embeddedIR_loses_invoked :
    ∃ first second, invoking.serializePipelineIR runBlocks runMapping = some first ∧
      invoking.serializePreCodegenIR runBlocks runMapping = some second ∧
      first.references 0 = [none] ∧ second.references 0 = [none] ∧
      ¬ invoking.Closed runBlocks runMapping first ∧
      ¬ invoking.Closed runBlocks runMapping second := by
  refine ⟨_, _, rfl, rfl, by decide, by decide, ?_, ?_⟩
  · intro closed
    exact closed.noUndef _ List.mem_cons_self rfl (by decide)
  · intro closed
    exact closed.noUndef _ List.mem_cons_self rfl (by decide)

end Backend
end TopoLlvm
