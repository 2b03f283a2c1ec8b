import TopoLlvm.Backend.LinkagePolicy

/-!
# The post-transform check

`postTransformVerify` maps the symbols of the transformed module again and compares the linkage of
each mapped function with a table of visibilities.  What it finds depends on which of the writers
of linkages came last.
-/

namespace TopoLlvm
namespace Backend

inductive Severity where
  | error
  | warning
  deriving DecidableEq

structure CheckDiagnostic where
  severity : Severity
  check : Name
  message : Name
  deriving DecidableEq

structure PostTransformResult where
  visibilityVerified : Nat
  visibilityMismatch : Nat
  obfuscationVerified : Nat
  obfuscationMismatch : Nat
  diagnostics : List CheckDiagnostic

/-- The linkages that the check accepts for a visibility. -/
def Visibility.admits : Visibility → Linkage → Bool
  | .isPublic, linkage => linkage = .external
  | .isPrivate, linkage => linkage = .internal || linkage = .isPrivate
  | .isProtected, linkage => linkage = .internal || linkage = .isPrivate
  | .isInternal, linkage => linkage ≠ .external
  | .isIgnore, _ => true

/-- What the check calls a linkage. -/
def Linkage.category : Linkage → Name
  | .external => "public".toList
  | .internal => "private".toList
  | .isPrivate => "private".toList
  | .linkOnce => "internal".toList
  | .other => "internal".toList

/-- The visibility of each name, by its last entry. -/
def expectedVisibility (entries : List VisibilityEntry) : AList fun _ : Name => Visibility :=
  entries.foldl (fun expected entry => expected.insert entry.qualifiedName entry.visibility) ∅

section Verifier

variable (tools : Toolchain) (visibilityName : Visibility → Name)

/-- The report of a wrong linkage. -/
def linkageMismatch (topoName : Name) (expected : Visibility) (linkage : Linkage) :
    CheckDiagnostic where
  severity := .error
  check := "post-transform-visibility".toList
  message := "linkage mismatch for '".toList ++ topoName ++ "': expected ".toList ++
    visibilityName expected ++ " but got ".toList ++ linkage.category

/-- The report of a name that was not obfuscated. -/
def obfuscationMismatch (topoName : Name) (func : IRFunction) : CheckDiagnostic where
  severity := .warning
  check := "post-transform-obfuscation".toList
  message := ['\''] ++ topoName ++
    "' should be obfuscated but retains original name: ".toList ++ func.name

/-- The report of an entry without a function. -/
def missingSymbol (topoName : Name) : CheckDiagnostic where
  severity := .warning
  check := "post-transform-existence".toList
  message := "function '".toList ++ topoName ++
    ("' declared in .topo but not found in transformed IR " ++
      "(may have been inlined or dead-code eliminated)").toList

def checkLinkage (result : PostTransformResult) (topoName : Name) (expected : Visibility)
    (func : IRFunction) : PostTransformResult :=
  if expected.admits func.linkage then
    { result with visibilityVerified := result.visibilityVerified + 1 }
  else
    { result with
      visibilityMismatch := result.visibilityMismatch + 1
      diagnostics := result.diagnostics ++
        [linkageMismatch visibilityName topoName expected func.linkage] }

def checkObfuscation (result : PostTransformResult) (topoName : Name) (expected : Visibility)
    (func : IRFunction) : PostTransformResult :=
  let shouldBeObfuscated := expected = .isPrivate || expected = .isInternal
  let nameIsObfuscated := "_topo_".toList.isPrefixOf func.name || 20 < func.name.length
  if shouldBeObfuscated && !nameIsObfuscated then
    { result with
      obfuscationMismatch := result.obfuscationMismatch + 1
      diagnostics := result.diagnostics ++ [obfuscationMismatch topoName func] }
  else { result with obfuscationVerified := result.obfuscationVerified + 1 }

/-- The checks of one mapped function. -/
def checkFunction (entries : List VisibilityEntry) (obfuscationEnabled : Bool)
    (result : PostTransformResult) (mapped : Name × IRFunction) : PostTransformResult :=
  match (expectedVisibility entries).lookup mapped.1 with
  | none => result
  | some expected =>
      let result := checkLinkage visibilityName result mapped.1 expected mapped.2
      if obfuscationEnabled then checkObfuscation result mapped.1 expected mapped.2 else result

/-- The mapped functions, with their names. -/
def mappedFunctions (module : IRModule) (mapping : SymbolMapping) : List (Name × IRFunction) :=
  (tools.iterate mapping.matched).filterMap fun (topoName, id) =>
    (module.find? id).map fun func => (topoName, func)

/-- `LLVMPostTransformVerifier::verifyModule`. -/
def verifyModule (module : IRModule) (mapping : SymbolMapping) (entries : List VisibilityEntry)
    (obfuscationEnabled : Bool) : PostTransformResult :=
  let result := (mappedFunctions tools module mapping).foldl
    (checkFunction visibilityName entries obfuscationEnabled) ⟨0, 0, 0, 0, []⟩
  { result with
    diagnostics := result.diagnostics ++ mapping.unmatchedTopo.map missingSymbol }

/-- `LLVMTransformBackend::postTransformVerify`. -/
def postTransformVerify (module : IRModule) (entries : List VisibilityEntry)
    (obfuscationEnabled : Bool) : PostTransformResult :=
  verifyModule tools visibilityName module (mapSymbols tools module entries) entries
    obfuscationEnabled

/-- What the check reports of the linkage of a mapped function. -/
def linkageReport (entries : List VisibilityEntry) (mapped : Name × IRFunction) :
    Option CheckDiagnostic :=
  (((expectedVisibility entries).lookup mapped.1).filter fun expected =>
    !expected.admits mapped.2.linkage).map fun expected =>
      linkageMismatch visibilityName mapped.1 expected mapped.2.linkage

/-! ## What is reported -/

section

variable {tools}

/-- The errors among the diagnostics, in their order. -/
def PostTransformResult.errors (result : PostTransformResult) : List CheckDiagnostic :=
  result.diagnostics.filter (·.severity = .error)

@[simp] theorem severity_linkageMismatch (topoName : Name) (expected : Visibility)
    (linkage : Linkage) :
    (linkageMismatch visibilityName topoName expected linkage).severity = .error := rfl

@[simp] theorem severity_obfuscationMismatch (topoName : Name) (func : IRFunction) :
    (obfuscationMismatch topoName func).severity = .warning := rfl

@[simp] theorem severity_missingSymbol (topoName : Name) :
    (missingSymbol topoName).severity = .warning := rfl

theorem checkObfuscation_keeps (result : PostTransformResult) (topoName : Name)
    (expected : Visibility) (func : IRFunction) :
    (checkObfuscation result topoName expected func).visibilityMismatch =
        result.visibilityMismatch ∧
      (checkObfuscation result topoName expected func).errors = result.errors := by
  unfold checkObfuscation
  simp only
  split
  · simp [PostTransformResult.errors]
  · exact ⟨rfl, rfl⟩

theorem checkLinkage_errors {entries : List VisibilityEntry} {expected : Visibility}
    {mapped : Name × IRFunction}
    (listed : (expectedVisibility entries).lookup mapped.1 = some expected)
    (result : PostTransformResult) :
    (checkLinkage visibilityName result mapped.1 expected mapped.2).visibilityMismatch =
        result.visibilityMismatch + (linkageReport visibilityName entries mapped).toList.length ∧
      (checkLinkage visibilityName result mapped.1 expected mapped.2).errors =
        result.errors ++ (linkageReport visibilityName entries mapped).toList := by
  unfold checkLinkage linkageReport
  split
  · rename_i admitted
    simp [listed, admitted, Option.filter, PostTransformResult.errors]
  · rename_i wrong
    simp [listed, wrong, Option.filter, PostTransformResult.errors]

/-- One function adds its report to the errors. -/
theorem checkFunction_errors (entries : List VisibilityEntry) (obfuscationEnabled : Bool)
    (result : PostTransformResult) (mapped : Name × IRFunction) :
    (checkFunction visibilityName entries obfuscationEnabled result mapped).visibilityMismatch =
        result.visibilityMismatch + (linkageReport visibilityName entries mapped).toList.length ∧
      (checkFunction visibilityName entries obfuscationEnabled result mapped).errors =
        result.errors ++ (linkageReport visibilityName entries mapped).toList := by
  unfold checkFunction
  cases listed : (expectedVisibility entries).lookup mapped.1 with
  | none => simp [linkageReport, listed]
  | some expected =>
      have linkage := checkLinkage_errors visibilityName listed result
      simp only
      split
      · obtain ⟨count, errors⟩ := checkObfuscation_keeps
          (checkLinkage visibilityName result mapped.1 expected mapped.2) mapped.1 expected mapped.2
        exact ⟨count.trans linkage.1, errors.trans linkage.2⟩
      · exact linkage

theorem foldl_errors (entries : List VisibilityEntry) (obfuscationEnabled : Bool)
    (functions : List (Name × IRFunction)) :
    let result := functions.foldl (checkFunction visibilityName entries obfuscationEnabled)
      ⟨0, 0, 0, 0, []⟩
    result.visibilityMismatch = result.errors.length ∧
      result.errors = functions.filterMap (linkageReport visibilityName entries) := by
  induction functions using List.reverseRecOn with
  | nil => exact ⟨rfl, rfl⟩
  | append_singleton functions mapped ih =>
      simp only [List.foldl_append, List.foldl_cons, List.foldl_nil]
      obtain ⟨count, errors⟩ := checkFunction_errors visibilityName entries
        obfuscationEnabled (functions.foldl (checkFunction visibilityName entries
          obfuscationEnabled) ⟨0, 0, 0, 0, []⟩) mapped
      refine ⟨?_, ?_⟩
      · rw [count, errors, ih.1, List.length_append]
      · rw [errors, ih.2, List.filterMap_append]
        cases report : linkageReport visibilityName entries mapped <;> simp [report]

/-- The errors of a check are the reports of wrong linkages. -/
theorem verifyModule_errors (module : IRModule) (mapping : SymbolMapping)
    (entries : List VisibilityEntry) (obfuscationEnabled : Bool) :
    let result := verifyModule tools visibilityName module mapping entries obfuscationEnabled
    result.visibilityMismatch = result.errors.length ∧
      result.errors = (mappedFunctions tools module mapping).filterMap
        (linkageReport visibilityName entries) := by
  obtain ⟨count, errors⟩ := foldl_errors visibilityName entries
    obfuscationEnabled (mappedFunctions tools module mapping)
  have warnings : (mapping.unmatchedTopo.map missingSymbol).filter
      (·.severity = .error) = [] := by
    rw [List.filter_eq_nil_iff]
    intro diag member
    obtain ⟨topoName, -, rfl⟩ := List.mem_map.mp member
    simp
  simp only [PostTransformResult.errors, verifyModule, List.filter_append, warnings,
    List.append_nil] at count errors ⊢
  exact ⟨count, errors⟩

end

end Verifier

/-! ## Which functions pass -/

variable (tools : Toolchain)

/-- The build leaves a function of its module the linkage that the table wants. -/
def LinkageBuild.Meets (build : LinkageBuild) (host : IRFunction) : Visibility → Prop
  | .isPublic => build.EndsExternal tools host
  | .isPrivate => build.EndsLocal tools host
  | .isProtected => build.EndsLocal tools host
  | .isInternal => ¬ build.EndsExternal tools host
  | .isIgnore => True

variable {tools}

theorem admits_iff {build : LinkageBuild} {host func : IRFunction} {expected : Visibility}
    (external : func.linkage = .external ↔ build.EndsExternal tools host)
    (isLocal : func.linkage = .internal ∨ func.linkage = .isPrivate ↔
      build.EndsLocal tools host) :
    expected.admits func.linkage = true ↔ build.Meets tools host expected := by
  cases expected with
  | isPublic => simpa [Visibility.admits, LinkageBuild.Meets] using external
  | isPrivate => simpa [Visibility.admits, LinkageBuild.Meets] using isLocal
  | isProtected => simpa [Visibility.admits, LinkageBuild.Meets] using isLocal
  | isInternal => simpa [Visibility.admits, LinkageBuild.Meets] using not_congr external
  | isIgnore => simp [Visibility.admits, LinkageBuild.Meets]

/-- The check after a build reports the linkage of a mapped function exactly where the last writer
of that linkage is not the one that the table expects. -/
theorem linkage_report_iff (tools : Toolchain) (visibilityName : Visibility → Name)
    (build : LinkageBuild) :
    let module := build.optimize tools
    let mapping := mapSymbols tools module build.entries
    let result := postTransformVerify tools visibilityName module build.entries false
    (result.visibilityMismatch = result.errors.length ∧
      result.errors = (mappedFunctions tools module mapping).filterMap
        (linkageReport visibilityName build.entries)) ∧
    ∀ mapped ∈ mappedFunctions tools module mapping, ∀ host ∈ build.module.functions,
      host.id = mapped.2.id →
        (linkageReport visibilityName build.entries mapped = none ↔
          ∀ expected, (expectedVisibility build.entries).lookup mapped.1 = some expected →
            build.Meets tools host expected) := by
  intro module mapping result
  refine ⟨verifyModule_errors visibilityName module mapping build.entries false, ?_⟩
  intro mapped member host inside same
  obtain ⟨⟨topoName, id⟩, listed, found⟩ := List.mem_filterMap.mp member
  obtain ⟨func, there, rfl⟩ := Option.map_eq_some_iff.mp found
  simp only at same there ⊢
  have lookup := (tools.mem_iterate mapping.matched (topoName, id)).mp listed
  obtain ⟨now, present, here, defined⟩ :=
    allDefined_mapSymbols tools module build.entries topoName id lookup
  have nowFound : module.find? id = some now := IRModule.find?_eq_some_iff.mpr ⟨present, here⟩
  obtain rfl : func = now := Option.some.inj (there.symm.trans nowFound)
  have hostFound : (build.optimize tools).find? host.id = some func := by
    rw [same, here]
    exact there
  obtain ⟨external, isLocal⟩ := LinkageBuild.linkage_optimize inside hostFound defined
  have meets (expected : Visibility) :
      expected.admits func.linkage = true ↔ build.Meets tools host expected :=
    admits_iff external isLocal
  unfold linkageReport
  cases visibility : (expectedVisibility build.entries).lookup topoName with
  | none => simp
  | some expected =>
      simp [← meets expected]

/-- A pass that changes nothing. -/
def HostPass.idle (hosts : List FunctionId) : HostPass hosts where
  run module := module
  keeps _ _ _ func found := ⟨func, found, rfl, rfl, fun declared => declared⟩

/-- What the sample builds call a visibility. -/
def sampleVisibilityName : Visibility → Name
  | .isPublic => "public".toList
  | .isProtected => "protected".toList
  | .isPrivate => "private".toList
  | .isInternal => "internal".toList
  | .isIgnore => "ignore".toList

/-- A public pipeline and a stage; private and internal entries get internal linkage. -/
def sampleLinkageBuild (embedIR : Bool) (linkage : Linkage) (visibility : Visibility) :
    LinkageBuild where
  module :=
    { functions := [⟨0, "_ZN2ns3runEv".toList, false, .external, []⟩,
        ⟨1, "_ZN2ns4loadEi".toList, false, linkage, []⟩]
      distinct := by simp }
  mapping :=
    { matched := (AList.insert "ns::run".toList 0 ∅ : FunctionMap).insert "ns::load".toList 1
      unmatchedTopo := []
      unmatchedIR := [] }
  entries := [⟨"ns::run".toList, .isPublic, none⟩, ⟨"ns::load".toList, visibility, none⟩]
  actions := [⟨false, false, false⟩,
    ⟨visibility = .isPrivate || visibility = .isInternal, false, false⟩]
  blocks := [⟨"ns::run".toList, true, ["ns::load".toList]⟩]
  embedIR
  optimizes := true
  mode := .dev
  pipelineCodeGen := true
  analysed _ := true
  pipelineBody _ := ([1], true)
  soaWins _ := false
  interception := HostPass.idle _
  inlining := HostPass.idle _
  instrumentation := HostPass.idle _
  standard := HostPass.idle _

/-- A private stage passes in a build without an embedded module. -/
theorem linkage_report_iff_private :
    ∀ expected, (expectedVisibility
        (sampleLinkageBuild false .external .isPrivate).entries).lookup "ns::load".toList =
          some expected →
      (sampleLinkageBuild false .external .isPrivate).Meets sampleTools
        ⟨1, "_ZN2ns4loadEi".toList, false, .external, []⟩ expected := by
  refine ((linkage_report_iff sampleTools sampleVisibilityName
    (sampleLinkageBuild false .external .isPrivate)).2
      ("ns::load".toList, ⟨1, "_ZN2ns4loadEi".toList, false, .internal, []⟩) ?_
      ⟨1, "_ZN2ns4loadEi".toList, false, .external, []⟩ ?_ rfl).mp ?_
  all_goals decide

/-- A public function that is inline in the host, and a private stage that is embedded for the
engine, fail the check of their own build. -/
theorem linkage_reported_inline :
    (postTransformVerify sampleTools sampleVisibilityName
      ((sampleLinkageBuild false .linkOnce .isPublic).optimize sampleTools)
      (sampleLinkageBuild false .linkOnce .isPublic).entries false).errors =
        [linkageMismatch sampleVisibilityName "ns::load".toList .isPublic .linkOnce] ∧
    (postTransformVerify sampleTools sampleVisibilityName
      ((sampleLinkageBuild true .external .isPrivate).optimize sampleTools)
      (sampleLinkageBuild true .external .isPrivate).entries false).errors =
        [linkageMismatch sampleVisibilityName "ns::load".toList .isPrivate .external] := by
  decide

end Backend
end TopoLlvm
