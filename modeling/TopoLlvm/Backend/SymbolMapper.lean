import TopoLlvm.Backend.Names
import Mathlib.Data.List.AList

/-!
# The symbol mapper

`SymbolMapper::mapSymbols` finds a function of the linked module for each declared entry: by a
binding target, by its demangled name, by a suffix of one, or by its simple name.  Functions are
identified by the object that stands for them, as names change later.
-/

namespace TopoLlvm
namespace Backend

/-- A `Function*`. -/
abbrev FunctionId := Nat

/-- `GlobalValue::LinkageTypes`, as far as the backend tells them apart. -/
inductive Linkage where
  | external
  | linkOnce
  | internal
  | isPrivate
  | other
  deriving DecidableEq

/-- An LLVM function, with the functions that it calls directly. -/
structure IRFunction where
  id : FunctionId
  name : Name
  isDeclaration : Bool
  linkage : Linkage
  callees : List FunctionId
  deriving DecidableEq

/-- An LLVM module: its functions in order. -/
structure IRModule where
  functions : List IRFunction
  distinct : (functions.map (·.id)).Nodup

def IRModule.find? (module : IRModule) (id : FunctionId) : Option IRFunction :=
  module.functions.find? (·.id = id)

/-- A function object of the module is found by its identity. -/
theorem IRModule.find?_eq_some_iff {module : IRModule} {id : FunctionId} {func : IRFunction} :
    module.find? id = some func ↔ func ∈ module.functions ∧ func.id = id := by
  constructor
  · intro found
    exact ⟨List.mem_of_find?_eq_some found, by simpa using List.find?_some found⟩
  · rintro ⟨member, rfl⟩
    cases found : module.find? func.id with
    | none =>
        have other := List.find?_eq_none.mp found func member
        simp at other
    | some first =>
        have inside := List.mem_of_find?_eq_some found
        have same : first.id = func.id := by simpa using List.find?_some found
        rw [List.inj_on_of_nodup_map module.distinct inside member same]

inductive Visibility where
  | isPublic
  | isProtected
  | isPrivate
  | isInternal
  | isIgnore
  deriving DecidableEq

/-- The fields of a declared entry that the backend reads. -/
structure VisibilityEntry where
  qualifiedName : Name
  visibility : Visibility
  bindingTarget : Option Name
  deriving DecidableEq

/-- An `unordered_map` from names to functions. -/
abbrev FunctionMap := AList fun _ : Name => FunctionId

/-- The external parts of the backend: the demanglers, the order in which an `unordered_map` is
walked, and what `setName` makes of a name while others are taken. -/
structure Toolchain extends Demangler where
  iterate : FunctionMap → List (Name × FunctionId)
  mem_iterate : ∀ map entry, entry ∈ iterate map ↔ map.lookup entry.1 = some entry.2
  uniqueName : List Name → Name → Name
  uniqueName_free : ∀ taken name, name ∉ taken → uniqueName taken name = name

structure SymbolMapping where
  matched : FunctionMap
  unmatchedTopo : List Name
  unmatchedIR : List Name

/-- `emplace`, which keeps an entry that is there already. -/
def FunctionMap.emplace (map : FunctionMap) (key : Name) (func : FunctionId) : FunctionMap :=
  if key ∈ map then map else map.insert key func

/-- The names with which functions of runtimes and libraries begin. -/
def skippedPrefixes : List Name :=
  ["llvm.", "__cxa_", "__gxx_", "_Unwind_", "__local_stdio", "_vfprintf", "__acrt_", "__std_",
    "_RN4core", "_RN3std", "_RN5alloc", "_RNvNtN4core", "_RNvNtN3std",
    "_RNvNtN5alloc"].map String.toList

/-- The names of functions of runtimes and libraries. -/
def skippedNames : List Name :=
  ["rust_begin_unwind", "rust_panic", "__rust_alloc", "__rust_dealloc", "__rust_realloc",
    "__rust_alloc_zeroed", "printf", "_printf", "puts", "main", "_main",
    "mainCRTStartup"].map String.toList

def shouldSkip (func : IRFunction) : Bool :=
  skippedPrefixes.any (·.isPrefixOf func.name) || skippedNames.contains func.name ||
    func.isDeclaration

variable (tools : Toolchain) (module : IRModule)

/-- The name under which the mapper knows a function. -/
def qualifiedKey (func : IRFunction) : Name :=
  let qualified := demangleToQualified tools.toDemangler func.name
  if qualified = [] then func.name else qualified

/-- Enter a function under its name and the candidate keys of a Rust method. -/
def addDemangled (map : FunctionMap) (func : IRFunction) : FunctionMap :=
  if shouldSkip func then map
  else
    let qualified := qualifiedKey tools func
    (rustImplCandidates qualified).foldl (fun map candidate => map.emplace candidate func.id)
      (map.insert qualified func.id)

def buildDemangledMap : FunctionMap := module.functions.foldl (addDemangled tools) ∅

/-- The part of a qualified name after its last `::`. -/
def simpleName (qualified : Name) : Option Name :=
  (Text.rsplit [':', ':'] qualified).map Prod.snd

/-- The function with the shortest name that ends with `::` and the qualified name. -/
def bestSuffixMatch (demangled : FunctionMap) (qualified : Name) : Option (Name × FunctionId) :=
  let suffix := [':', ':'] ++ qualified
  (tools.iterate demangled).foldl (fun best entry =>
    if suffix.length < entry.1.length ∧ suffix.isSuffixOf entry.1 then
      match best with
      | none => some entry
      | some found => if entry.1.length < found.1.length then some entry else best
    else best) none

/-- The function that an entry without a binding is matched to. -/
def matchEntry (demangled : FunctionMap) (qualified : Name) : Option FunctionId :=
  match demangled.lookup qualified with
  | some func => some func
  | none =>
      match bestSuffixMatch tools demangled qualified with
      | some (_, func) => some func
      | none => (simpleName qualified).bind demangled.lookup

/-- What the passes over the entries have found.  A function that an entry was matched to stays in
`matchedFuncs`. -/
structure Matching where
  matched : FunctionMap
  matchedFuncs : List FunctionId
  unmatchedTopo : List Name

/-- Match a name to a function. -/
def Matching.assign (matching : Matching) (qualified : Name) (func : FunctionId) : Matching :=
  { matching with
    matched := matching.matched.insert qualified func
    matchedFuncs := func :: matching.matchedFuncs }

/-- The function that the binding target of an entry names, if it is defined here. -/
def resolveBinding (demangled : FunctionMap) (entry : VisibilityEntry) : Option FunctionId :=
  entry.bindingTarget.bind demangled.lookup

/-- The first pass: entries with a binding target. -/
def matchBindings (demangled : FunctionMap) (entries : List VisibilityEntry) : Matching :=
  entries.foldl (fun matching entry =>
    match resolveBinding demangled entry with
    | some func => matching.assign entry.qualifiedName func
    | none => matching) { matched := ∅, matchedFuncs := [], unmatchedTopo := [] }

/-- The second pass over one entry. -/
def matchDeclared (demangled : FunctionMap) (matching : Matching) (entry : VisibilityEntry) :
    Matching :=
  if entry.qualifiedName ∈ matching.matched then matching
  else
    match matchEntry tools demangled entry.qualifiedName with
    | some func => matching.assign entry.qualifiedName func
    | none => { matching with unmatchedTopo := matching.unmatchedTopo ++ [entry.qualifiedName] }

/-- The functions that no entry was matched to, under the names that stand for them. -/
def unmatchedFunctions (demangled : FunctionMap) (matchedFuncs : List FunctionId) : List Name :=
  module.functions.filterMap fun func =>
    if shouldSkip func then none
    else if func.id ∈ matchedFuncs then none
    else if demangled.lookup (qualifiedKey tools func) = some func.id then
      some (qualifiedKey tools func)
    else none

/-- Both passes over the entries. -/
def matchEntries (demangled : FunctionMap) (entries : List VisibilityEntry) : Matching :=
  entries.foldl (matchDeclared tools demangled) (matchBindings demangled entries)

def mapSymbols (entries : List VisibilityEntry) : SymbolMapping :=
  let demangled := buildDemangledMap tools module
  let matching := matchEntries tools demangled entries
  { matched := matching.matched
    unmatchedTopo := matching.unmatchedTopo
    unmatchedIR := unmatchedFunctions tools module demangled matching.matchedFuncs }

/-! ## Matched functions are defined in the module -/

/-- Every function of the map is defined in the module. -/
def AllDefined (map : FunctionMap) : Prop :=
  ∀ key func, map.lookup key = some func →
    ∃ defined ∈ module.functions, defined.id = func ∧ defined.isDeclaration = false

section

variable {tools module} {map : FunctionMap}

theorem allDefined_empty : AllDefined module ∅ := fun _ _ found => by simp at found

theorem AllDefined.insert (all : AllDefined module map) (key : Name) {func : IRFunction}
    (member : func ∈ module.functions) (defined : func.isDeclaration = false) :
    AllDefined module (map.insert key func.id) := by
  intro other found lookup
  by_cases same : other = key
  · subst same
    rw [AList.lookup_insert] at lookup
    exact ⟨func, member, Option.some.inj lookup, defined⟩
  · rw [AList.lookup_insert_ne same] at lookup
    exact all other found lookup

theorem AllDefined.emplace (all : AllDefined module map) (key : Name) {func : IRFunction}
    (member : func ∈ module.functions) (defined : func.isDeclaration = false) :
    AllDefined module (map.emplace key func.id) := by
  unfold FunctionMap.emplace
  split
  · exact all
  · exact all.insert key member defined

theorem AllDefined.addDemangled (all : AllDefined module map) {func : IRFunction}
    (member : func ∈ module.functions) : AllDefined module (addDemangled tools map func) := by
  unfold Backend.addDemangled
  split
  · exact all
  · rename_i kept
    have defined : func.isDeclaration = false := by
      simp only [shouldSkip, Bool.or_eq_true, not_or] at kept
      exact Bool.eq_false_iff.mpr kept.2
    refine List.foldlRecOn _ _ (all.insert _ member defined) fun map all candidate _ => ?_
    exact all.emplace candidate member defined

theorem allDefined_buildDemangledMap : AllDefined module (buildDemangledMap tools module) :=
  List.foldlRecOn _ _ allDefined_empty fun _ all _ member => all.addDemangled member

/-- What is copied from a map of defined functions is defined. -/
theorem AllDefined.copy {source : FunctionMap} (all : AllDefined module map)
    (origin : AllDefined module source) (key : Name) {other : Name} {func : FunctionId}
    (lookup : source.lookup other = some func) : AllDefined module (map.insert key func) := by
  obtain ⟨defined, member, rfl, body⟩ := origin other func lookup
  exact all.insert key member body

theorem allDefined_matchBindings {demangled : FunctionMap} (all : AllDefined module demangled)
    (entries : List VisibilityEntry) :
    AllDefined module (matchBindings demangled entries).matched := by
  refine List.foldlRecOn _ _ (motive := fun matching : Matching =>
    AllDefined module matching.matched) allDefined_empty fun matching kept entry _ => ?_
  split
  · rename_i func found
    obtain ⟨target, -, lookup⟩ := Option.bind_eq_some_iff.mp found
    exact kept.copy all _ lookup
  · exact kept

/-- The best suffix match is an entry of the map. -/
theorem lookup_of_bestSuffixMatch {demangled : FunctionMap} {qualified key : Name}
    {func : FunctionId} (best : bestSuffixMatch tools demangled qualified = some (key, func)) :
    demangled.lookup key = some func := by
  suffices found : ∀ entry ∈ bestSuffixMatch tools demangled qualified,
      entry ∈ tools.iterate demangled from
    (tools.mem_iterate demangled (key, func)).mp (found _ best)
  refine List.foldlRecOn _ _ (motive := fun best => ∀ entry ∈ best,
    entry ∈ tools.iterate demangled) nofun fun best inside entry member => ?_
  split
  · split
    · rintro _ ⟨⟩
      exact member
    · split
      · rintro _ ⟨⟩
        exact member
      · exact inside
  · exact inside

/-- Whatever an entry is matched to is in the map of demangled names. -/
theorem lookup_of_matchEntry {demangled : FunctionMap} {qualified : Name} {func : FunctionId}
    (assigned : matchEntry tools demangled qualified = some func) :
    ∃ key, demangled.lookup key = some func := by
  unfold matchEntry at assigned
  split at assigned
  · rename_i found lookup
    exact ⟨qualified, lookup.trans assigned⟩
  · split at assigned
    · rename_i key found best
      cases assigned
      exact ⟨key, lookup_of_bestSuffixMatch best⟩
    · obtain ⟨simple, -, lookup⟩ := Option.bind_eq_some_iff.mp assigned
      exact ⟨simple, lookup⟩

/-- Every matched function is defined in the module. -/
theorem allDefined_mapSymbols (tools : Toolchain) (module : IRModule)
    (entries : List VisibilityEntry) :
    AllDefined module (mapSymbols tools module entries).matched := by
  have all : AllDefined module (buildDemangledMap tools module) := allDefined_buildDemangledMap
  refine List.foldlRecOn (motive := fun matching : Matching =>
    AllDefined module matching.matched) _ _ (allDefined_matchBindings all entries)
    fun matching kept entry _ => ?_
  unfold matchDeclared
  split
  · exact kept
  · split
    · rename_i func found
      obtain ⟨key, lookup⟩ := lookup_of_matchEntry found
      exact kept.copy all _ lookup
    · exact kept

end

end Backend
end TopoLlvm
