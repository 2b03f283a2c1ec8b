import TopoLlvm.Backend.SymbolMapper

/-!
# Demangled keys

`mapSymbols` and `buildDemangledMap` enter the functions of a module under their demangled names and
the candidate keys of Rust methods, each in a loop of its own.  A name overwrites and a candidate
does not, so the last function of a name stands for it, and the first that offers a candidate for
one that is no name.
-/

namespace TopoLlvm
namespace Backend

/-! ## The loop in `mapSymbols` -/

/-- The maps that the loop fills. -/
structure DemangledKeys where
  demangledMap : FunctionMap
  primaryKey : AList fun _ : FunctionId => Name

variable (tools : Toolchain)

/-- The body of the loop. -/
def addFunction (keys : DemangledKeys) (func : IRFunction) : DemangledKeys :=
  if shouldSkip func then keys
  else
    let qualified := qualifiedKey tools func
    let keys := { demangledMap := keys.demangledMap.insert qualified func.id
                  primaryKey := keys.primaryKey.insert func.id qualified }
    (rustImplCandidates qualified).foldl (fun keys candidate =>
      { keys with demangledMap := keys.demangledMap.emplace candidate func.id }) keys

def collectKeys (functions : List IRFunction) : DemangledKeys :=
  functions.foldl (addFunction tools) { demangledMap := ∅, primaryKey := ∅ }

/-- The report of the functions that no entry was matched to. -/
def reportUnmatched (functions : List IRFunction) (keys : DemangledKeys)
    (matchedFuncs : List FunctionId) : List Name :=
  functions.filterMap fun func =>
    if shouldSkip func then none
    else if func.id ∈ matchedFuncs then none
    else
      (keys.primaryKey.lookup func.id).filter fun pk => keys.demangledMap.lookup pk = some func.id

theorem addFunction_demangledMap (keys : DemangledKeys) (func : IRFunction) :
    (addFunction tools keys func).demangledMap = addDemangled tools keys.demangledMap func := by
  have loop (candidates : List Name) (keys : DemangledKeys) :
      (candidates.foldl (fun keys candidate =>
        { keys with demangledMap := keys.demangledMap.emplace candidate func.id }) keys).demangledMap =
        candidates.foldl (fun map candidate => map.emplace candidate func.id) keys.demangledMap := by
    induction candidates generalizing keys with
    | nil => rfl
    | cons candidate candidates ih => exact ih _
  rw [addFunction, addDemangled]
  split
  · rfl
  · exact loop ..

theorem addFunction_primaryKey (keys : DemangledKeys) (func : IRFunction) :
    (addFunction tools keys func).primaryKey =
      if shouldSkip func then keys.primaryKey
      else keys.primaryKey.insert func.id (qualifiedKey tools func) := by
  have loop (candidates : List Name) (keys : DemangledKeys) :
      (candidates.foldl (fun keys candidate =>
        { keys with demangledMap := keys.demangledMap.emplace candidate func.id }) keys).primaryKey =
        keys.primaryKey := by
    induction candidates generalizing keys with
    | nil => rfl
    | cons candidate candidates ih => exact ih _
  rw [addFunction]
  split
  · rfl
  · exact loop ..

/-- Both loops fill the same map. -/
theorem collectKeys_demangledMap (module : IRModule) :
    (collectKeys tools module.functions).demangledMap = buildDemangledMap tools module := by
  have loop (functions : List IRFunction) (keys : DemangledKeys) :
      (functions.foldl (addFunction tools) keys).demangledMap =
        functions.foldl (addDemangled tools) keys.demangledMap := by
    induction functions generalizing keys with
    | nil => rfl
    | cons func functions ih =>
        rw [List.foldl_cons, ih, addFunction_demangledMap]
        rfl
  exact loop ..

/-! ## Representatives -/

/-- The function is known under the key. -/
def hasName (key : Name) (func : IRFunction) : Bool :=
  !shouldSkip func && qualifiedKey tools func = key

/-- The function offers the key as a candidate. -/
def offers (key : Name) (func : IRFunction) : Bool :=
  !shouldSkip func && (rustImplCandidates (qualifiedKey tools func)).contains key

/-- The last function of the name, else the first that offers it. -/
def representative (functions : List IRFunction) (key : Name) : Option FunctionId :=
  ((functions.reverse.find? (hasName tools key)).or (functions.find? (offers tools key))).map (·.id)

theorem lookup_emplace (map : FunctionMap) (key candidate : Name) (func : FunctionId) :
    (map.emplace candidate func).lookup key =
      (map.lookup key).or (if key = candidate then some func else none) := by
  unfold FunctionMap.emplace
  by_cases same : key = candidate
  · subst same
    rw [if_pos rfl]
    split
    · rename_i member
      obtain ⟨found, here⟩ := Option.isSome_iff_exists.mp (AList.lookup_isSome.mpr member)
      rw [here]
      rfl
    · rename_i absent
      rw [AList.lookup_insert, AList.lookup_eq_none.mpr absent]
      rfl
  · rw [if_neg same, Option.or_none]
    split
    · rfl
    · exact AList.lookup_insert_ne same

theorem lookup_foldl_emplace (candidates : List Name) (map : FunctionMap) (key : Name)
    (func : FunctionId) :
    (candidates.foldl (fun map candidate => map.emplace candidate func) map).lookup key =
      (map.lookup key).or (if candidates.contains key then some func else none) := by
  induction candidates generalizing map with
  | nil => exact (Option.or_none ..).symm
  | cons candidate candidates ih =>
      rw [List.foldl_cons, ih, lookup_emplace, Option.or_assoc, List.contains_cons]
      congr 1
      by_cases same : key = candidate
      · simp [same]
      · simp [same]

/-- What a function does to the map. -/
theorem lookup_addDemangled (map : FunctionMap) (func : IRFunction) (key : Name) :
    (addDemangled tools map func).lookup key =
      if hasName tools key func then some func.id
      else (map.lookup key).or (if offers tools key func then some func.id else none) := by
  rw [addDemangled]
  by_cases skip : shouldSkip func = true
  · simp [skip, hasName, offers]
  · rw [if_neg skip]
    dsimp only
    rw [lookup_foldl_emplace]
    by_cases same : key = qualifiedKey tools func
    · subst same
      simp [AList.lookup_insert, hasName, skip]
    · rw [AList.lookup_insert_ne same]
      simp [hasName, offers, skip, Ne.symm same]

/-- The map after any of the functions. -/
theorem lookup_foldl_addDemangled (functions : List IRFunction) (key : Name) :
    (functions.foldl (addDemangled tools) ∅).lookup key = representative tools functions key := by
  induction functions using List.reverseRecOn with
  | nil => rfl
  | append_singleton functions func ih =>
      rw [List.foldl_append, List.foldl_cons, List.foldl_nil, lookup_addDemangled, ih,
        representative, representative, List.reverse_append, List.find?_append, List.find?_append,
        List.reverse_singleton, List.find?_singleton, List.find?_singleton]
      cases hasName tools key func with
      | true => rfl
      | false =>
          cases functions.reverse.find? (hasName tools key) with
          | some first => rfl
          | none =>
              cases functions.find? (offers tools key) with
              | some first => rfl
              | none => cases offers tools key func <;> rfl

/-- A name stands for the last function that is known under it. -/
theorem representative_of_hasName {before after : List IRFunction} {func : IRFunction} {key : Name}
    (named : hasName tools key func = true)
    (last : ∀ other ∈ after, hasName tools key other = false) :
    representative tools (before ++ func :: after) key = some func.id := by
  have found : (before ++ func :: after).reverse.find? (hasName tools key) = some func := by
    refine List.find?_eq_some_iff_append.mpr ⟨named, after.reverse, before.reverse, by simp, ?_⟩
    exact fun other member => by simp [last other (List.mem_reverse.mp member)]
  rw [representative, found]
  rfl

/-- A candidate that is no name stands for the first function that offers it. -/
theorem representative_of_offers {before after : List IRFunction} {func : IRFunction} {key : Name}
    (offered : offers tools key func = true)
    (first : ∀ other ∈ before, offers tools key other = false)
    (unnamed : ∀ other ∈ before ++ func :: after, hasName tools key other = false) :
    representative tools (before ++ func :: after) key = some func.id := by
  have none : (before ++ func :: after).reverse.find? (hasName tools key) = none :=
    List.find?_eq_none.mpr fun other member =>
      Bool.eq_false_iff.mp (unnamed other (List.mem_reverse.mp member))
  have found : (before ++ func :: after).find? (offers tools key) = some func :=
    List.find?_eq_some_iff_append.mpr ⟨offered, before, after, rfl,
      fun other member => by simp [first other member]⟩
  rw [representative, none, found]
  rfl

/-- The name of a function is remembered until the module is reported. -/
theorem lookup_primaryKey {module : IRModule} {func : IRFunction} (member : func ∈ module.functions)
    (kept : shouldSkip func = false) :
    (collectKeys tools module.functions).primaryKey.lookup func.id =
      some (qualifiedKey tools func) := by
  have loop (functions : List IRFunction) (distinct : (functions.map (·.id)).Nodup)
      (member : func ∈ functions) :
      (collectKeys tools functions).primaryKey.lookup func.id = some (qualifiedKey tools func) := by
    induction functions using List.reverseRecOn with
    | nil => cases member
    | append_singleton functions last ih =>
        rw [collectKeys, List.foldl_append, List.foldl_cons, List.foldl_nil,
          addFunction_primaryKey]
        by_cases same : func = last
        · subst same
          rw [if_neg (Bool.eq_false_iff.mp kept), AList.lookup_insert]
        · have earlier : func ∈ functions := (List.mem_append.mp member).resolve_right fun here =>
            same (List.mem_singleton.mp here)
          have apart : func.id ≠ last.id := fun equal => same
            (List.inj_on_of_nodup_map distinct member
              (List.mem_append_right _ (List.mem_singleton.mpr rfl)) equal)
          rw [List.map_append] at distinct
          have before := ih distinct.of_append_left earlier
          split
          · exact before
          · rw [AList.lookup_insert_ne apart]
            exact before
  exact loop module.functions module.distinct member

/-- The report is that of `mapSymbols`. -/
theorem reportUnmatched_eq (module : IRModule) (matchedFuncs : List FunctionId) :
    reportUnmatched module.functions (collectKeys tools module.functions) matchedFuncs =
      unmatchedFunctions tools module (buildDemangledMap tools module) matchedFuncs := by
  refine List.filterMap_congr fun func member => ?_
  rw [collectKeys_demangledMap]
  by_cases skip : shouldSkip func = true
  · rw [if_pos skip, if_pos skip]
  · rw [if_neg skip, if_neg skip, lookup_primaryKey tools member (Bool.eq_false_iff.mpr skip),
      Option.filter_some]
    simp only [decide_eq_true_eq]

/-- In every order of the functions, the map has for each key its representative, and both loops
fill the same map. -/
theorem demangledMap_representative (module : IRModule) :
    (∀ before func after key, module.functions = before ++ func :: after →
      hasName tools key func = true → (∀ other ∈ after, hasName tools key other = false) →
        (buildDemangledMap tools module).lookup key = some func.id) ∧
      (∀ before func after key, module.functions = before ++ func :: after →
        offers tools key func = true → (∀ other ∈ before, offers tools key other = false) →
          (∀ other ∈ module.functions, hasName tools key other = false) →
            (buildDemangledMap tools module).lookup key = some func.id) ∧
      (∀ key, (buildDemangledMap tools module).lookup key = none ↔
        ∀ func ∈ module.functions, hasName tools key func = false ∧
          offers tools key func = false) ∧
      (collectKeys tools module.functions).demangledMap = buildDemangledMap tools module ∧
      ∀ matchedFuncs, reportUnmatched module.functions (collectKeys tools module.functions)
          matchedFuncs =
        unmatchedFunctions tools module (buildDemangledMap tools module) matchedFuncs := by
  have lookup (key : Name) : (buildDemangledMap tools module).lookup key =
      representative tools module.functions key := lookup_foldl_addDemangled tools _ key
  refine ⟨fun before func after key shape named last => ?_,
    fun before func after key shape offered first unnamed => ?_, fun key => ?_,
    collectKeys_demangledMap tools module, reportUnmatched_eq tools module⟩
  · rw [lookup, shape]
    exact representative_of_hasName tools named last
  · rw [lookup, shape]
    exact representative_of_offers tools offered first (shape ▸ unnamed)
  · rw [lookup, representative, Option.map_eq_none_iff, Option.or_eq_none_iff, List.find?_eq_none,
      List.find?_eq_none]
    simp only [List.mem_reverse, Bool.not_eq_true]
    exact ⟨fun none func member => ⟨none.1 func member, none.2 func member⟩,
      fun none => ⟨fun func member => (none func member).1, fun func member => (none func member).2⟩⟩

end Backend
end TopoLlvm
