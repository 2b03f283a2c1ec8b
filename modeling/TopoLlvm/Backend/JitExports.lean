import TopoLlvm.Backend.JitLookup

/-!
# Exports for the engine

`optimize` embeds the module before the passes run and collects afterwards, by demangling, the
functions that the engine has to resolve in the host binary; then names may be obfuscated.  What
the passes do to the module is a parameter.
-/

namespace TopoLlvm
namespace Backend

inductive ObfuscationMode where
  | normal
  | salted
  deriving DecidableEq

/-- `JitExportEntry`. -/
structure JitExportEntry where
  originalMangledName : Name
  currentMangledName : Name
  deriving DecidableEq

/-- What `obfuscate` returns, with the module that it has changed. -/
structure ObfuscationResult where
  module : IRModule
  renamedCount : Nat
  protectedMapping : AList fun _ : Name => Name

/-- A build with an embedded module. -/
structure Build where
  module : IRModule
  mapping : SymbolMapping
  entries : List VisibilityEntry
  actions : List VisibilityAction
  blocks : List LogicBlock
  /-- The pass pipeline. -/
  passes : IRModule → IRModule
  obfMode : ObfuscationMode
  obfSalt : Name
  /-- `getSipHash_2_4_128` of a message under a key of 16 characters, as text. -/
  sipHash : Name → Name → Name

/-- The key that a salt stands for: truncated or padded with zeros. -/
def saltKey (salt : Name) : Name :=
  salt.take 16 ++ List.replicate (16 - salt.length) (Char.ofNat 0)

/-- The first characters of an obfuscated name. -/
def obfuscatedPrefix (mode : ObfuscationMode) (salt : Name) : Name :=
  match mode, salt with
  | .salted, letter :: _ => ['_', 'Z', Char.ofNat ('t'.toNat + letter.toNat % 7)]
  | _, _ => ['_', 'Z', 't']

/-- The functions of pipelines that the engine may look for. -/
def jitQualifiedNames (blocks : List LogicBlock) : List Name :=
  (blocks.filter (·.isPipeline)).flatMap fun block =>
    block.calledFunctions ++ [block.qualifiedName]

/-- A result of `optimize`. -/
structure BackendResult where
  embedded : List IRFunction
  optimized : IRModule
  final : IRModule
  jitExports : List JitExportEntry

variable (tools : Toolchain)

namespace Build

variable (build : Build)

def computeHash (qualifiedName : Name) : Name :=
  let effectiveSalt := match build.obfMode with
    | .salted => build.obfSalt
    | .normal => []
  build.sipHash qualifiedName (saltKey effectiveSalt)

/-- Rename the function of one entry that is not public. -/
def obfuscateEntry (valid : List FunctionId) (result : ObfuscationResult)
    (entry : VisibilityEntry) : ObfuscationResult :=
  if entry.visibility = .isPublic then result
  else
    match build.mapping.matched.lookup entry.qualifiedName with
    | none => result
    | some id =>
        match result.module.find? id with
        | none => result
        | some func =>
            if !valid.contains id || func.isDeclaration then result
            else
              let obfuscatedName := obfuscatedPrefix build.obfMode build.obfSalt ++
                build.computeHash entry.qualifiedName
              { module := result.module.setName tools id obfuscatedName
                renamedCount := result.renamedCount + 1
                protectedMapping := if entry.visibility = .isProtected then
                    result.protectedMapping.insert entry.qualifiedName obfuscatedName
                  else result.protectedMapping }

def obfuscate (module : IRModule) : ObfuscationResult :=
  build.entries.foldl (build.obfuscateEntry tools (module.functions.map (·.id)))
    { module, renamedCount := 0, protectedMapping := ∅ }

/-- Stages get external linkage before the passes run. -/
def promoteStages (module : IRModule) : IRModule :=
  (funcsToKeepDecl build.blocks build.mapping).foldl
    (fun module id => module.setLinkage id .external) module

/-- The functions to export, with their names before obfuscation. -/
def jitFuncPtrs (module : IRModule) : List (Name × FunctionId) :=
  module.functions.filterMap fun func =>
    let demangled := tools.demangle func.name
    if func.isDeclaration || demangled = func.name then none
    else if (jitQualifiedNames build.blocks).contains (lastWord (withoutParameters demangled)) then
      some (func.name, func.id)
    else none

/-- Give an exported function external linkage and record its names. -/
def exportFunction (result : IRModule × List JitExportEntry) (ptr : Name × FunctionId) :
    IRModule × List JitExportEntry :=
  match result.1.find? ptr.2 with
  | none => result
  | some func =>
      (if func.isDeclaration then result.1 else result.1.setLinkage ptr.2 .external,
        result.2 ++ [{ originalMangledName := ptr.1, currentMangledName := func.name }])

/-- `LLVMTransformBackend::optimize` with `embedIR`. -/
def optimize : BackendResult :=
  let visible := applyVisibility tools build.module build.mapping build.entries build.actions
  let embedded := serializePreCodegenIR visible build.blocks build.mapping
  let optimized := build.passes (build.promoteStages visible)
  let obfuscated := build.obfuscate tools optimized
  let exported := (build.jitFuncPtrs tools optimized).foldl exportFunction (obfuscated.module, [])
  { embedded, optimized, final := exported.1, jitExports := exported.2 }

end Build

/-- An export entry has the name and leads to the function, which has external linkage. -/
def BackendResult.Exports (result : BackendResult) (name : Name) (id : FunctionId) : Prop :=
  ∃ entry ∈ result.jitExports, entry.originalMangledName = name ∧
    ∃ func ∈ result.final.functions, func.id = id ∧ entry.currentMangledName = func.name ∧
      func.linkage = .external

/-! ## Renaming and exporting keep the functions -/

section

variable {tools} {module : IRModule} {build : Build}

/-- Obfuscation removes no function and no body. -/
theorem retains_obfuscate {func : IRFunction} (member : func ∈ module.functions) :
    (build.obfuscate tools module).module.Retains func := by
  refine List.foldlRecOn (motive := fun result : ObfuscationResult =>
    result.module.Retains func) _ _ ⟨func, member, rfl, rfl⟩ fun result kept entry _ => ?_
  unfold Build.obfuscateEntry
  split
  · exact kept
  · split
    · exact kept
    · split
      · exact kept
      · split
        · exact kept
        · exact kept.setName _ _

/-- The functions to export are those with a body whose symbol reads a name of a pipeline. -/
theorem mem_jitFuncPtrs {name : Name} {id : FunctionId} :
    (name, id) ∈ build.jitFuncPtrs tools module ↔
      (∃ func ∈ module.functions, func.id = id ∧ func.name = name ∧
        func.isDeclaration = false) ∧
      ∃ qualified ∈ jitQualifiedNames build.blocks, Reads tools.toDemangler name qualified := by
  simp only [Build.jitFuncPtrs, List.mem_filterMap, reads_iff]
  constructor
  · rintro ⟨func, member, exported⟩
    split at exported
    · cases exported
    · rename_i mangled
      split at exported
      · rename_i wanted
        simp only [Option.some.injEq, Prod.mk.injEq] at exported
        obtain ⟨rfl, rfl⟩ := exported
        simp only [Bool.or_eq_true, decide_eq_true_eq, not_or, Bool.not_eq_true] at mangled
        exact ⟨⟨func, member, rfl, rfl, mangled.1⟩, _, by simpa using wanted, mangled.2, rfl⟩
      · cases exported
  · rintro ⟨⟨func, member, rfl, rfl, body⟩, qualified, wanted, mangled, rfl⟩
    exact ⟨func, member, by simp [body, mangled, wanted]⟩

/-- A change of one function as a change of what is found. -/
theorem IRModule.find?_setLinkage (module : IRModule) (id other : FunctionId)
    (linkage : Linkage) : (module.setLinkage other linkage).find? id =
      (module.find? id).map fun func => if func.id = other then { func with linkage } else func := by
  simp only [IRModule.find?, setLinkage, modify, mapFunctions, List.find?_map]
  congr 2
  funext func
  simp only [Function.comp_apply]
  split <;> rfl

/-- The function with the linkage of an exported one. -/
def exportedAs (exported : Bool) (func : IRFunction) : IRFunction :=
  if exported && !func.isDeclaration then { func with linkage := .external } else func

theorem exportedAs_exportedAs (before now : Bool) (func : IRFunction) :
    exportedAs now (exportedAs before func) = exportedAs (before || now) func := by
  cases body : func.isDeclaration <;> cases before <;> cases now <;> simp [exportedAs, body]

theorem find?_exportFunction (result : IRModule × List JitExportEntry) (ptr : Name × FunctionId)
    (id : FunctionId) : (Build.exportFunction result ptr).1.find? id =
      (result.1.find? id).map (exportedAs (ptr.2 = id)) := by
  have same {func : IRFunction} (found : result.1.find? id = some func) : func.id = id :=
    (IRModule.find?_eq_some_iff.mp found).2
  unfold Build.exportFunction
  cases there : result.1.find? ptr.2 with
  | none =>
      cases found : result.1.find? id with
      | none => rfl
      | some func =>
          have elsewhere : ptr.2 ≠ id := fun here => by simp [here, found] at there
          simp [exportedAs, elsewhere]
  | some target =>
      simp only
      cases found : result.1.find? id with
      | none =>
          split
          · simp [found]
          · simp [IRModule.find?_setLinkage, found]
      | some func =>
          by_cases here : ptr.2 = id
          · obtain rfl : target = func := by simpa [here, found] using there.symm
            cases body : target.isDeclaration with
            | true => simp [exportedAs, body, found]
            | false =>
                simp [exportedAs, body, IRModule.find?_setLinkage, found, same found, here]
          · have elsewhere : func.id ≠ ptr.2 := fun other => here (other.symm.trans (same found))
            split
            · simp [exportedAs, here, found]
            · simp [exportedAs, here, IRModule.find?_setLinkage, found, elsewhere]

/-- Exporting gives the exported bodies external linkage and changes nothing else. -/
theorem find?_exports (module : IRModule) (ptrs : List (Name × FunctionId)) (id : FunctionId) :
    (ptrs.foldl Build.exportFunction (module, [])).1.find? id =
      (module.find? id).map (exportedAs (ptrs.any (·.2 = id))) := by
  induction ptrs using List.reverseRecOn with
  | nil => cases found : module.find? id <;> simp [exportedAs, found]
  | append_singleton ptrs last ih =>
      rw [List.foldl_append, List.foldl_cons, List.foldl_nil, find?_exportFunction, ih,
        Option.map_map, List.any_append, List.any_cons, List.any_nil, Bool.or_false]
      exact congrArg (Option.map · _) (funext fun func => exportedAs_exportedAs _ _ func)

@[simp] theorem name_exportedAs (exported : Bool) (func : IRFunction) :
    (exportedAs exported func).name = func.name := by
  unfold exportedAs
  split <;> rfl

theorem entries_exportFunction (result : IRModule × List JitExportEntry)
    (ptr : Name × FunctionId) : (Build.exportFunction result ptr).2 =
      result.2 ++ ((result.1.find? ptr.2).map fun func =>
        { originalMangledName := ptr.1, currentMangledName := func.name }).toList := by
  unfold Build.exportFunction
  cases result.1.find? ptr.2 with
  | none => simp
  | some func => rfl

/-- One entry for each exported function that exists, with the name it has now. -/
theorem entries_exports (module : IRModule) (ptrs : List (Name × FunctionId)) :
    (ptrs.foldl Build.exportFunction (module, [])).2 = ptrs.filterMap fun ptr =>
      (module.find? ptr.2).map fun func =>
        { originalMangledName := ptr.1, currentMangledName := func.name } := by
  induction ptrs using List.reverseRecOn with
  | nil => rfl
  | append_singleton ptrs last ih =>
      rw [List.foldl_append, List.foldl_cons, List.foldl_nil, List.filterMap_append, ← ih]
      rw [entries_exportFunction, find?_exports, List.filterMap_cons, List.filterMap_nil]
      cases module.find? last.2 with
      | none => simp
      | some func => simp

end

/-- A function that still has a body after the passes is exported under its embedded name exactly
where that name is mangled and reads the qualified name of a pipeline or of a stage. -/
theorem jit_exports_iff (tools : Toolchain) (build : Build) :
    let result := build.optimize tools
    ∀ stage id, IsStage build.blocks stage → build.mapping.matched.lookup stage = some id →
      ∀ copy ∈ result.embedded, copy.id = id →
        ∀ func ∈ result.optimized.functions, func.name = copy.name →
          func.isDeclaration = false →
            (result.Exports copy.name func.id ↔
              ∃ qualified ∈ jitQualifiedNames build.blocks,
                Reads tools.toDemangler copy.name qualified) := by
  intro result stage id _ _ copy _ _ func member name body
  rw [← name]
  constructor
  · rintro ⟨entry, exported, original, -⟩
    have listed := entries_exports (build.obfuscate tools result.optimized).module
      (build.jitFuncPtrs tools result.optimized)
    rw [show result.jitExports = _ from listed] at exported
    obtain ⟨ptr, inPtrs, found⟩ := List.mem_filterMap.mp exported
    obtain ⟨now, -, entryIs⟩ := Option.map_eq_some_iff.mp found
    rw [← original, ← entryIs]
    exact (mem_jitFuncPtrs.mp inPtrs).2
  · intro reads
    have inPtrs : (func.name, func.id) ∈ build.jitFuncPtrs tools result.optimized :=
      mem_jitFuncPtrs.mpr ⟨⟨func, member, rfl, rfl, body⟩, reads⟩
    obtain ⟨now, inside, same, nowBody⟩ :
        (build.obfuscate tools result.optimized).module.Retains func := retains_obfuscate member
    have found := IRModule.find?_eq_some_iff.mpr ⟨inside, same⟩
    have last : result.final.find? func.id =
        some (exportedAs ((build.jitFuncPtrs tools result.optimized).any (·.2 = func.id)) now) := by
      have kept := find?_exports (build.obfuscate tools result.optimized).module
        (build.jitFuncPtrs tools result.optimized) func.id
      rwa [found, Option.map_some] at kept
    have listed := entries_exports (build.obfuscate tools result.optimized).module
      (build.jitFuncPtrs tools result.optimized)
    have any : (build.jitFuncPtrs tools result.optimized).any (·.2 = func.id) = true :=
      List.any_eq_true.mpr ⟨_, inPtrs, by simp⟩
    have external : exportedAs ((build.jitFuncPtrs tools result.optimized).any
        (·.2 = func.id)) now = { now with linkage := .external } := by
      simp [exportedAs, any, nowBody, body]
    rw [external] at last
    obtain ⟨inFinal, finalId⟩ := IRModule.find?_eq_some_iff.mp last
    refine ⟨{ originalMangledName := func.name, currentMangledName := now.name }, ?_, rfl,
      _, inFinal, finalId, rfl, rfl⟩
    rw [show result.jitExports = _ from listed]
    refine List.mem_filterMap.mpr ⟨_, inPtrs, ?_⟩
    rw [found]
    rfl

/-- The sample module, built without passes. -/
def sampleBuild : Build where
  module := sampleModule
  mapping := mapSymbols sampleTools sampleModule sampleEntries
  entries := sampleEntries
  actions := []
  blocks := sampleBlocks
  passes := id
  obfMode := .normal
  obfSalt := []
  sipHash qualifiedName _ := qualifiedName

theorem jit_exports_iff_load :
    (sampleBuild.optimize sampleTools).Exports "_ZN2ns4loadEi".toList 1 := by
  refine (jit_exports_iff sampleTools sampleBuild "ns::load".toList 1
    ⟨_, List.mem_singleton_self _, rfl, by decide⟩ (by decide)
    ⟨1, "_ZN2ns4loadEi".toList, true, .external, []⟩ (by decide) rfl
    ⟨1, "_ZN2ns4loadEi".toList, false, .external, []⟩ (by decide) rfl rfl).mpr
      ⟨"ns::load".toList, by decide, ?_⟩
  exact (reads_iff _ _).mpr (by decide)

/-- A stage with C linkage is embedded and defined, and no entry exports it. -/
theorem jit_exports_miss_cLinkage :
    ⟨2, "step".toList, true, .external, []⟩ ∈ (sampleBuild.optimize sampleTools).embedded ∧
      ⟨2, "step".toList, false, .external, []⟩ ∈
        (sampleBuild.optimize sampleTools).optimized.functions ∧
      ∀ entry ∈ (sampleBuild.optimize sampleTools).jitExports,
        entry.originalMangledName ≠ "step".toList := by
  refine ⟨by decide, by decide, by decide⟩

end Backend
end TopoLlvm
