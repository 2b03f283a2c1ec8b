import TopoLlvm.Backend.SymbolMapper

/-!
# The embedded module

Visibility may rename and internalize functions; then the module is copied, with the bodies of the
pipeline stubs and what these call, and with declarations of the stages.
-/

namespace TopoLlvm
namespace Backend

/-- The fields of `analysis::VisibilityAction` that change a name or a linkage. -/
structure VisibilityAction where
  internalLinkage : Bool
  alwaysInline : Bool
  stripDebug : Bool
  deriving DecidableEq

/-- The fields of a logic block that the backend reads. -/
structure LogicBlock where
  qualifiedName : Name
  isPipeline : Bool
  calledFunctions : List Name
  deriving DecidableEq

namespace IRModule

variable (module : IRModule)

/-- Change functions but not their identities. -/
def mapFunctions (change : IRFunction → IRFunction)
    (keeps : ∀ func, (change func).id = func.id) : IRModule where
  functions := module.functions.map change
  distinct := by
    have same : module.functions.map ((·.id) ∘ change) = module.functions.map (·.id) :=
      List.map_congr_left fun func _ => keeps func
    rw [List.map_map, same]
    exact module.distinct

/-- Change one function. -/
def modify (id : FunctionId) (change : IRFunction → IRFunction)
    (keeps : ∀ func, (change func).id = func.id) : IRModule :=
  module.mapFunctions (fun func => if func.id = id then change func else func) fun func => by
    split
    · exact keeps func
    · rfl

def setLinkage (id : FunctionId) (linkage : Linkage) : IRModule :=
  module.modify id (fun func => { func with linkage }) fun _ => rfl

def setName (tools : Toolchain) (id : FunctionId) (name : Name) : IRModule :=
  let taken := (module.functions.filter (·.id ≠ id)).map (·.name)
  module.modify id (fun func => { func with name := tools.uniqueName taken name }) fun _ => rfl

theorem find?_modify (id other : FunctionId) {change : IRFunction → IRFunction}
    (keeps : ∀ func, (change func).id = func.id) :
    (module.modify id change keeps).find? other =
      (module.find? other).map fun func => if func.id = id then change func else func := by
  simp only [find?, modify, mapFunctions, List.find?_map]
  congr 2
  funext func
  simp only [Function.comp_apply]
  split <;> simp [keeps]

end IRModule

/-- The prefix of internal functions in debug builds. -/
def internalPrefix : Name := "__topo_internal_".toList

variable (tools : Toolchain)

def applyAction (module : IRModule) (id : FunctionId) (action : VisibilityAction) : IRModule :=
  let module := if action.internalLinkage then module.setLinkage id .internal else module
  if action.alwaysInline && !action.stripDebug then
    match module.find? id with
    | some func => module.setName tools id (internalPrefix ++ func.name)
    | none => module
  else module

/-- `VisibilityApplier::apply`, with the actions that the policy computes for the entries. -/
def applyVisibility (module : IRModule) (mapping : SymbolMapping)
    (entries : List VisibilityEntry) (actions : List VisibilityAction) : IRModule :=
  (entries.zip actions).foldl (fun module (entry, action) =>
    match mapping.matched.lookup entry.qualifiedName with
    | some id => applyAction tools module id action
    | none => module) module

/-- The function and all that it calls, as far as they are defined; the first argument bounds the
depth of the calls by the number of functions. -/
def collectCallees (module : IRModule) : Nat → FunctionId → List FunctionId → List FunctionId
  | 0, _, collected => collected
  | depth + 1, id, collected =>
      match module.find? id with
      | none => collected
      | some func =>
          if func.isDeclaration || collected.contains id then collected
          else
            func.callees.foldl (fun collected callee =>
              collectCallees module depth callee collected) (id :: collected)

section Snapshot

variable (module : IRModule) (blocks : List LogicBlock) (mapping : SymbolMapping)

/-- Functions embedded with their bodies. -/
def funcsToKeepBody : List FunctionId :=
  (blocks.filter (·.isPipeline)).foldl (fun collected block =>
    match mapping.matched.lookup block.qualifiedName with
    | some stub => collectCallees module (module.functions.length + 1) stub collected
    | none => collected) []

/-- Functions embedded as declarations. -/
def funcsToKeepDecl : List FunctionId :=
  (blocks.filter (·.isPipeline)).flatMap fun block =>
    block.calledFunctions.filterMap mapping.matched.lookup

/-- The names of functions. -/
def namesOf (ids : List FunctionId) : List Name :=
  ids.filterMap fun id => (module.find? id).map (·.name)

/-- What becomes of a function in the copy. -/
def pruneFunction (keepBodyNames keepDeclNames : List Name) (func : IRFunction) :
    Option IRFunction :=
  if func.isDeclaration then some func
  else if keepBodyNames.contains func.name then some func
  else if keepDeclNames.contains func.name then
    some { func with isDeclaration := true, linkage := .external }
  else none

/-- The functions of the embedded module; there is none if nothing is kept. -/
def serializePreCodegenIR : List IRFunction :=
  let bodies := funcsToKeepBody module blocks mapping
  let decls := funcsToKeepDecl blocks mapping
  if bodies.isEmpty && decls.isEmpty then []
  else module.functions.filterMap (pruneFunction (namesOf module bodies) (namesOf module decls))

end Snapshot

/-- The module embedded by a build. -/
def embeddedIR (module : IRModule) (entries : List VisibilityEntry)
    (actions : List VisibilityAction) (blocks : List LogicBlock) : List IRFunction :=
  let mapping := mapSymbols tools module entries
  serializePreCodegenIR (applyVisibility tools module mapping entries actions) blocks mapping

/-! ## What is embedded -/

section

variable {tools} {module : IRModule} {blocks : List LogicBlock} {mapping : SymbolMapping}

/-- The function is still in the module, with a body if it had one. -/
def IRModule.Retains (module : IRModule) (func : IRFunction) : Prop :=
  ∃ after ∈ module.functions, after.id = func.id ∧ after.isDeclaration = func.isDeclaration

theorem IRModule.Retains.setLinkage {func : IRFunction} (kept : module.Retains func)
    (id : FunctionId) (linkage : Linkage) : (module.setLinkage id linkage).Retains func := by
  obtain ⟨now, inside, same, defined⟩ := kept
  refine ⟨_, List.mem_map_of_mem inside, ?_⟩
  split <;> exact ⟨same, defined⟩

theorem IRModule.Retains.setName {func : IRFunction} (kept : module.Retains func)
    (id : FunctionId) (name : Name) : (module.setName tools id name).Retains func := by
  obtain ⟨now, inside, same, defined⟩ := kept
  refine ⟨_, List.mem_map_of_mem inside, ?_⟩
  split <;> exact ⟨same, defined⟩

theorem IRModule.Retains.applyAction {func : IRFunction} (kept : module.Retains func)
    (id : FunctionId) (action : VisibilityAction) :
    (applyAction tools module id action).Retains func := by
  unfold Backend.applyAction
  have linked : (if action.internalLinkage then module.setLinkage id .internal
      else module).Retains func := by
    split
    · exact kept.setLinkage id .internal
    · exact kept
  simp only
  split
  · split
    · exact linked.setName id _
    · exact linked
  · exact linked

/-- Visibility removes no function and no body. -/
theorem retains_applyVisibility (entries : List VisibilityEntry)
    (actions : List VisibilityAction) {func : IRFunction} (member : func ∈ module.functions) :
    (applyVisibility tools module mapping entries actions).Retains func := by
  refine List.foldlRecOn (motive := fun visible : IRModule => visible.Retains func) _ _
    ⟨func, member, rfl, rfl⟩ fun visible kept pair _ => ?_
  obtain ⟨entry, action⟩ := pair
  simp only
  split
  · exact kept.applyAction _ action
  · exact kept

theorem subset_collectCallees (depth : Nat) (id : FunctionId) (collected : List FunctionId) :
    collected ⊆ collectCallees module depth id collected := by
  induction depth generalizing id collected with
  | zero => exact List.Subset.refl _
  | succ depth ih =>
      unfold collectCallees
      split
      · exact List.Subset.refl _
      · split
        · exact List.Subset.refl _
        · refine List.foldlRecOn (motive := fun later => collected ⊆ later) _ _
            (List.subset_cons_self ..) fun later kept callee _ => ?_
          exact List.Subset.trans kept (ih callee later)

theorem mem_collectCallees {depth : Nat} {func : IRFunction} (member : func ∈ module.functions)
    (defined : func.isDeclaration = false) (collected : List FunctionId) :
    func.id ∈ collectCallees module (depth + 1) func.id collected := by
  unfold collectCallees
  rw [IRModule.find?_eq_some_iff.mpr ⟨member, rfl⟩]
  simp only [defined, Bool.false_or]
  split
  · rename_i already
    simpa using already
  · refine List.foldlRecOn (motive := fun later => func.id ∈ later) _ _
      (List.mem_cons_self ..) fun later kept callee _ => ?_
    exact subset_collectCallees depth callee later kept

/-- The stub of every pipeline keeps its body. -/
theorem mem_funcsToKeepBody {block : LogicBlock} (known : block ∈ blocks)
    (pipeline : block.isPipeline = true) {func : IRFunction} (member : func ∈ module.functions)
    (defined : func.isDeclaration = false)
    (matched : mapping.matched.lookup block.qualifiedName = some func.id) :
    func.id ∈ funcsToKeepBody module blocks mapping := by
  obtain ⟨before, after, split⟩ := List.append_of_mem (List.mem_filter.mpr ⟨known, pipeline⟩)
  rw [funcsToKeepBody, split, List.foldl_append, List.foldl_cons]
  refine List.foldlRecOn (motive := fun later => func.id ∈ later) _ _ ?_
    fun later kept other _ => ?_
  · rw [matched]
    exact mem_collectCallees member defined _
  · split
    · exact subset_collectCallees _ _ later kept
    · exact kept

theorem mem_funcsToKeepDecl {block : LogicBlock} (known : block ∈ blocks)
    (pipeline : block.isPipeline = true) {stage : Name} (called : stage ∈ block.calledFunctions)
    {id : FunctionId} (matched : mapping.matched.lookup stage = some id) :
    id ∈ funcsToKeepDecl blocks mapping :=
  List.mem_flatMap.mpr ⟨block, List.mem_filter.mpr ⟨known, pipeline⟩,
    List.mem_filterMap.mpr ⟨stage, called, matched⟩⟩

theorem mem_namesOf {ids : List FunctionId} {func : IRFunction}
    (member : func ∈ module.functions) (kept : func.id ∈ ids) :
    func.name ∈ namesOf module ids := by
  refine List.mem_filterMap.mpr ⟨func.id, kept, ?_⟩
  rw [IRModule.find?_eq_some_iff.mpr ⟨member, rfl⟩]
  rfl

/-- The copy of a function has its identity and its name. -/
theorem pruneFunction_same {bodies decls : List Name} {func copy : IRFunction}
    (copied : pruneFunction bodies decls func = some copy) :
    copy.id = func.id ∧ copy.name = func.name := by
  unfold pruneFunction at copied
  split at copied
  · cases copied
    exact ⟨rfl, rfl⟩
  · split at copied
    · cases copied
      exact ⟨rfl, rfl⟩
    · split at copied <;> cases copied
      exact ⟨rfl, rfl⟩

/-- The functions of the embedded module are still distinct. -/
theorem serializePreCodegenIR_distinct (module : IRModule) (blocks : List LogicBlock)
    (mapping : SymbolMapping) :
    ((serializePreCodegenIR module blocks mapping).map (·.id)).Nodup := by
  unfold serializePreCodegenIR
  simp only
  split
  · exact List.nodup_nil
  · refine List.Nodup.sublist ?_ module.distinct
    generalize module.functions = functions
    induction functions with
    | nil => exact List.Sublist.refl _
    | cons func functions ih =>
        rw [List.filterMap_cons]
        split
        · exact ih.cons _
        · rename_i copy copied
          rw [List.map_cons, List.map_cons, (pruneFunction_same copied).1]
          exact ih.cons_cons _

/-- Stubs are embedded with their bodies. -/
theorem stub_embedded {block : LogicBlock} (known : block ∈ blocks)
    (pipeline : block.isPipeline = true) {func : IRFunction} (member : func ∈ module.functions)
    (defined : func.isDeclaration = false)
    (matched : mapping.matched.lookup block.qualifiedName = some func.id) :
    func ∈ serializePreCodegenIR module blocks mapping := by
  have kept := mem_funcsToKeepBody known pipeline member defined matched
  unfold serializePreCodegenIR
  rw [if_neg (by simp [List.ne_nil_of_mem kept])]
  refine List.mem_filterMap.mpr ⟨func, member, ?_⟩
  have name := mem_namesOf member kept
  simp [pruneFunction, defined, name]

/-- Stages are embedded under their names. -/
theorem stage_embedded {block : LogicBlock} (known : block ∈ blocks)
    (pipeline : block.isPipeline = true) {stage : Name} (called : stage ∈ block.calledFunctions)
    {func : IRFunction} (member : func ∈ module.functions)
    (matched : mapping.matched.lookup stage = some func.id) :
    ∃ copy ∈ serializePreCodegenIR module blocks mapping,
      copy.id = func.id ∧ copy.name = func.name := by
  have kept := mem_funcsToKeepDecl known pipeline called matched
  have name := mem_namesOf member kept
  unfold serializePreCodegenIR
  rw [if_neg (by simp [List.ne_nil_of_mem kept])]
  have copied : ∃ copy, pruneFunction (namesOf module (funcsToKeepBody module blocks mapping))
      (namesOf module (funcsToKeepDecl blocks mapping)) func = some copy := by
    unfold pruneFunction
    split
    · exact ⟨_, rfl⟩
    · split
      · exact ⟨_, rfl⟩
      · exact ⟨_, by rw [if_pos (by simpa using name)]⟩
  obtain ⟨copy, copied⟩ := copied
  exact ⟨copy, List.mem_filterMap.mpr ⟨func, member, copied⟩, pruneFunction_same copied⟩

end

end Backend
end TopoLlvm
