import TopoLlvm.Backend.JitExports
import Mathlib.Data.List.Perm.Subperm

/-!
# What obfuscation reports

`SymbolObfuscator::obfuscate` renames the function of each entry that is not public and records the
names of protected ones.  Entries may be mapped to one function, and a name may be taken already;
the record is right exactly where no function is renamed twice or behind the back of a public entry,
and every renaming gives the function the name that is recorded.
-/

namespace TopoLlvm
namespace Backend

namespace IRModule

/-- The name of a function object. -/
def nameOf (module : IRModule) (id : FunctionId) : Option Name := (module.find? id).map (·.name)

/-- The names of all functions but one. -/
def otherNames (module : IRModule) (id : FunctionId) : List Name :=
  (module.functions.filter (·.id ≠ id)).map (·.name)

variable {tools : Toolchain} {module : IRModule} {id other : FunctionId} {name : Name}

theorem nameOf_setName_of_ne (apart : other ≠ id) :
    (module.setName tools id name).nameOf other = module.nameOf other := by
  rw [nameOf, setName, find?_modify, Option.map_map, nameOf]
  cases found : module.find? other with
  | none => rfl
  | some func =>
      have same : func.id ≠ id := by rwa [(find?_eq_some_iff.mp found).2]
      simp [same]

theorem nameOf_setName (known : (module.nameOf id).isSome) :
    (module.setName tools id name).nameOf id =
      some (tools.uniqueName (module.otherNames id) name) := by
  rw [nameOf, setName, find?_modify, Option.map_map]
  cases found : module.find? id with
  | none => simp [nameOf, found] at known
  | some func => simp [(find?_eq_some_iff.mp found).2, otherNames]

/-- Whether a function object has a body is not changed by its name. -/
theorem isDeclaration_setName :
    ((module.setName tools id name).find? other).map (·.isDeclaration) =
      (module.find? other).map (·.isDeclaration) := by
  rw [setName, find?_modify, Option.map_map]
  cases module.find? other with
  | none => rfl
  | some func =>
      simp only [Option.map_some, Function.comp_apply]
      split <;> rfl

end IRModule

namespace Build

section Renaming

variable (tools : Toolchain) (build : Build) (module : IRModule)

/-- The function that an entry renames. -/
def renames (entry : VisibilityEntry) : Option FunctionId :=
  if entry.visibility = .isPublic then none
  else
    (build.mapping.matched.lookup entry.qualifiedName).filter fun id =>
      ((module.find? id).map (·.isDeclaration)) = some false

/-- The name that is recorded for an entry. -/
def obfuscatedName (qualifiedName : Name) : Name :=
  obfuscatedPrefix build.obfMode build.obfSalt ++ build.computeHash qualifiedName

/-- The state after some entries. -/
def obfuscateEntries (entries : List VisibilityEntry) : ObfuscationResult :=
  entries.foldl (build.obfuscateEntry tools (module.functions.map (·.id)))
    { module, renamedCount := 0, protectedMapping := ∅ }

end Renaming

section Steps

variable {tools : Toolchain} {build : Build} {module : IRModule} {entry : VisibilityEntry}
  {entries : List VisibilityEntry} {id : FunctionId} {result : ObfuscationResult}

/-- Functions have bodies after some renamings where they have had them before. -/
def SameBodies (module other : IRModule) : Prop :=
  ∀ id, (module.find? id).map (·.isDeclaration) = (other.find? id).map (·.isDeclaration)

theorem obfuscateEntry_of_none (bodies : SameBodies result.module module)
    (none : build.renames module entry = none) :
    build.obfuscateEntry tools (module.functions.map (·.id)) result entry = result := by
  unfold obfuscateEntry
  unfold renames at none
  split
  · rfl
  · rename_i hidden
    rw [if_neg hidden, Option.filter_eq_none_iff] at none
    split
    · rfl
    · rename_i id mapped
      split
      · rfl
      · rename_i func found
        split
        · rfl
        · rename_i kept
          have body := none id mapped
          rw [← bodies id, found] at body
          simp_all

theorem obfuscateEntry_of_some (bodies : SameBodies result.module module)
    (renamed : build.renames module entry = some id) :
    build.obfuscateEntry tools (module.functions.map (·.id)) result entry =
      { module := result.module.setName tools id (build.obfuscatedName entry.qualifiedName)
        renamedCount := result.renamedCount + 1
        protectedMapping := if entry.visibility = .isProtected then
            result.protectedMapping.insert entry.qualifiedName
              (build.obfuscatedName entry.qualifiedName)
          else result.protectedMapping } := by
  unfold renames at renamed
  split at renamed
  · cases renamed
  · rename_i hidden
    obtain ⟨mapped, body⟩ := Option.filter_eq_some_iff.mp renamed
    rw [decide_eq_true_eq] at body
    have now := (bodies id).trans body
    obtain ⟨func, found, defined⟩ := Option.map_eq_some_iff.mp now
    obtain ⟨original, there, -⟩ := Option.map_eq_some_iff.mp body
    obtain ⟨member, same⟩ := IRModule.find?_eq_some_iff.mp there
    have valid : (module.functions.map (·.id)).contains id = true := by
      rw [List.contains_iff_mem, List.mem_map]
      exact ⟨original, member, same⟩
    unfold obfuscateEntry
    rw [if_neg hidden, mapped]
    simp only [found, valid, defined]
    rfl

theorem obfuscateEntries_append_singleton :
    build.obfuscateEntries tools module (entries ++ [entry]) =
      build.obfuscateEntry tools (module.functions.map (·.id))
        (build.obfuscateEntries tools module entries) entry := by
  rw [obfuscateEntries, List.foldl_append]
  rfl

theorem sameBodies_obfuscateEntries (entries : List VisibilityEntry) :
    SameBodies (build.obfuscateEntries tools module entries).module module := by
  induction entries using List.reverseRecOn with
  | nil => exact fun _ => rfl
  | append_singleton entries entry ih =>
      rw [obfuscateEntries_append_singleton]
      cases renamed : build.renames module entry with
      | none => rwa [obfuscateEntry_of_none ih renamed]
      | some id =>
          rw [obfuscateEntry_of_some ih renamed]
          exact fun other => IRModule.isDeclaration_setName.trans (ih other)

/-- What one more entry does to the state. -/
theorem obfuscateEntries_snoc_none (none : build.renames module entry = none) :
    build.obfuscateEntries tools module (entries ++ [entry]) =
      build.obfuscateEntries tools module entries := by
  rw [obfuscateEntries_append_singleton,
    obfuscateEntry_of_none (sameBodies_obfuscateEntries entries) none]

theorem obfuscateEntries_snoc_some (renamed : build.renames module entry = some id) :
    build.obfuscateEntries tools module (entries ++ [entry]) =
      { module := (build.obfuscateEntries tools module entries).module.setName tools id
          (build.obfuscatedName entry.qualifiedName)
        renamedCount := (build.obfuscateEntries tools module entries).renamedCount + 1
        protectedMapping := if entry.visibility = .isProtected then
            (build.obfuscateEntries tools module entries).protectedMapping.insert
              entry.qualifiedName (build.obfuscatedName entry.qualifiedName)
          else (build.obfuscateEntries tools module entries).protectedMapping } := by
  rw [obfuscateEntries_append_singleton,
    obfuscateEntry_of_some (sameBodies_obfuscateEntries entries) renamed]

/-- Every renaming is counted. -/
theorem renamedCount_obfuscateEntries (entries : List VisibilityEntry) :
    (build.obfuscateEntries tools module entries).renamedCount =
      (entries.filterMap (build.renames module)).length := by
  induction entries using List.reverseRecOn with
  | nil => rfl
  | append_singleton entries entry ih =>
      rw [List.filterMap_append, List.length_append, ← ih]
      cases renamed : build.renames module entry with
      | none => rw [obfuscateEntries_snoc_none renamed, List.filterMap_cons_none renamed]; rfl
      | some id => rw [obfuscateEntries_snoc_some renamed, List.filterMap_cons_some renamed]; rfl

/-- A function that no entry renames keeps its name. -/
theorem nameOf_obfuscateEntries_of_not_mem
    (untouched : id ∉ entries.filterMap (build.renames module)) :
    (build.obfuscateEntries tools module entries).module.nameOf id = module.nameOf id := by
  induction entries using List.reverseRecOn with
  | nil => rfl
  | append_singleton entries entry ih =>
      rw [List.filterMap_append, List.mem_append, not_or] at untouched
      cases renamed : build.renames module entry with
      | none => rw [obfuscateEntries_snoc_none renamed, ih untouched.1]
      | some other =>
          have apart : id ≠ other := by
            rintro rfl
            exact untouched.2 (by simp [renamed])
          rw [obfuscateEntries_snoc_some renamed, IRModule.nameOf_setName_of_ne apart,
            ih untouched.1]

theorem isSome_nameOf (entries : List VisibilityEntry)
    (renamed : build.renames module entry = some id) :
    ((build.obfuscateEntries tools module entries).module.nameOf id).isSome := by
  unfold renames at renamed
  split at renamed
  · cases renamed
  · obtain ⟨-, body⟩ := Option.filter_eq_some_iff.mp renamed
    rw [decide_eq_true_eq, ← @sameBodies_obfuscateEntries tools build module entries id] at body
    obtain ⟨func, found, -⟩ := Option.map_eq_some_iff.mp body
    simp [IRModule.nameOf, found]

/-- A function that one entry renames gets its name there. -/
theorem nameOf_obfuscateEntries {before after : List VisibilityEntry}
    (renamed : build.renames module entry = some id)
    (later : id ∉ after.filterMap (build.renames module)) :
    (build.obfuscateEntries tools module (before ++ entry :: after)).module.nameOf id =
      some (tools.uniqueName
        ((build.obfuscateEntries tools module before).module.otherNames id)
        (build.obfuscatedName entry.qualifiedName)) := by
  induction after using List.reverseRecOn with
  | nil =>
      rw [obfuscateEntries_snoc_some renamed,
        IRModule.nameOf_setName (isSome_nameOf before renamed)]
  | append_singleton after last ih =>
      rw [List.filterMap_append, List.mem_append, not_or] at later
      rw [← List.cons_append, ← List.append_assoc]
      cases lastRenamed : build.renames module last with
      | none => rw [obfuscateEntries_snoc_none lastRenamed, ih later.1]
      | some other =>
          have apart : id ≠ other := by
            rintro rfl
            exact later.2 (by simp [lastRenamed])
          rw [obfuscateEntries_snoc_some lastRenamed, IRModule.nameOf_setName_of_ne apart,
            ih later.1]

/-- The recorded names are those of the protected entries that rename a function. -/
theorem lookup_protectedMapping (entries : List VisibilityEntry) (qualifiedName name : Name) :
    (build.obfuscateEntries tools module entries).protectedMapping.lookup qualifiedName =
        some name ↔
      name = build.obfuscatedName qualifiedName ∧ ∃ entry ∈ entries,
        entry.qualifiedName = qualifiedName ∧ entry.visibility = .isProtected ∧
          (build.renames module entry).isSome := by
  induction entries using List.reverseRecOn with
  | nil => simp [obfuscateEntries]
  | append_singleton entries entry ih =>
      cases renamed : build.renames module entry with
      | none =>
          rw [obfuscateEntries_snoc_none renamed, ih]
          simp [or_and_right, exists_or, renamed]
      | some id =>
          rw [obfuscateEntries_snoc_some renamed]
          by_cases visible : entry.visibility = .isProtected
          · by_cases same : qualifiedName = entry.qualifiedName
            · subst same
              simp only [visible, if_true, AList.lookup_insert, Option.some.injEq]
              constructor
              · rintro rfl
                exact ⟨rfl, entry, by simp, rfl, visible, by simp [renamed]⟩
              · rintro ⟨rfl, -⟩
                rfl
            · simp only [visible, if_true, AList.lookup_insert_ne same, ih]
              simp [or_and_right, exists_or, Ne.symm same]
          · simp only [visible, if_false, ih]
            simp [or_and_right, exists_or, visible]

theorem renames_eq_some_iff :
    build.renames module entry = some id ↔ entry.visibility ≠ .isPublic ∧
      build.mapping.matched.lookup entry.qualifiedName = some id ∧
      (module.find? id).map (·.isDeclaration) = some false := by
  unfold renames
  by_cases visible : entry.visibility = .isPublic
  · simp [visible]
  · simp [visible, Option.filter_eq_some_iff]

end Steps

/-! ## Accuracy -/

section Accuracy

variable (tools : Toolchain) (build : Build) (module : IRModule)

/-- What the record of obfuscation says of the module that it leaves. -/
structure Accurate (result : ObfuscationResult) : Prop where
  /-- A recorded name is that of the function that the entry is mapped to. -/
  recorded : ∀ qualifiedName name, result.protectedMapping.lookup qualifiedName = some name →
    ∃ id, build.mapping.matched.lookup qualifiedName = some id ∧
      result.module.nameOf id = some name
  /-- No function of a public entry has another name. -/
  untouched : ∀ entry ∈ build.entries, entry.visibility = .isPublic → ∀ id,
    build.mapping.matched.lookup entry.qualifiedName = some id →
    result.module.nameOf id = module.nameOf id
  counted : result.renamedCount =
    (module.functions.filter fun func => result.module.nameOf func.id ≠ some func.name).length

/-- No function is renamed by two entries or is one of a public entry, and each renaming gives its
function another name, which no other function bears when it is recorded. -/
structure RenamesApart : Prop where
  once : (build.entries.filterMap (build.renames module)).Nodup
  hidden : ∀ entry ∈ build.entries, entry.visibility = .isPublic → ∀ id,
    build.mapping.matched.lookup entry.qualifiedName = some id →
    id ∉ build.entries.filterMap (build.renames module)
  another : ∀ before entry after id, build.entries = before ++ entry :: after →
    build.renames module entry = some id →
    module.nameOf id ≠ some (tools.uniqueName
      ((build.obfuscateEntries tools module before).module.otherNames id)
      (build.obfuscatedName entry.qualifiedName))
  free : ∀ before entry after id, build.entries = before ++ entry :: after →
    build.renames module entry = some id → entry.visibility = .isProtected →
    build.obfuscatedName entry.qualifiedName ∉
      (build.obfuscateEntries tools module before).module.otherNames id

end Accuracy

section Accuracy

variable {tools : Toolchain} {build : Build} {module : IRModule}

/-- Where an entry renames a function that no other one renames, the others are elsewhere. -/
theorem not_mem_of_nodup {before after : List VisibilityEntry} {entry : VisibilityEntry}
    {id : FunctionId}
    (once : ((before ++ entry :: after).filterMap (build.renames module)).Nodup)
    (renamed : build.renames module entry = some id) :
    id ∉ after.filterMap (build.renames module) := by
  rw [List.filterMap_append, List.filterMap_cons_some renamed] at once
  exact (List.nodup_cons.mp (List.nodup_append.mp once).2.1).1

/-- The functions with another name are among those that are renamed. -/
theorem mem_of_changed {func : IRFunction} (member : func ∈ module.functions)
    (changed : (build.obfuscateEntries tools module build.entries).module.nameOf func.id ≠
      some func.name) :
    func.id ∈ build.entries.filterMap (build.renames module) := by
  by_contra untouched
  rw [nameOf_obfuscateEntries_of_not_mem untouched, IRModule.nameOf,
    IRModule.find?_eq_some_iff.mpr ⟨member, rfl⟩] at changed
  exact changed rfl

/-- The count is right exactly where each renaming changes the name of a function of its own. -/
theorem counted_iff :
    (build.entries.filterMap (build.renames module)).length =
        (module.functions.filter fun func =>
          (build.obfuscateEntries tools module build.entries).module.nameOf func.id ≠
            some func.name).length ↔
      (build.entries.filterMap (build.renames module)).Nodup ∧
        ∀ id ∈ build.entries.filterMap (build.renames module),
          (build.obfuscateEntries tools module build.entries).module.nameOf id ≠
            module.nameOf id := by
  let changed := module.functions.filter fun func =>
    (build.obfuscateEntries tools module build.entries).module.nameOf func.id ≠ some func.name
  have nodup : (changed.map (·.id)).Nodup :=
    module.distinct.sublist (List.filter_sublist.map _)
  have subset : changed.map (·.id) ⊆ build.entries.filterMap (build.renames module) := by
    intro id member
    obtain ⟨func, inChanged, rfl⟩ := List.mem_map.mp member
    obtain ⟨inModule, differs⟩ := List.mem_filter.mp inChanged
    exact mem_of_changed inModule (of_decide_eq_true differs)
  have changes (id : FunctionId) (member : id ∈ build.entries.filterMap (build.renames module)) :
      id ∈ changed.map (·.id) ↔
        (build.obfuscateEntries tools module build.entries).module.nameOf id ≠
          module.nameOf id := by
    obtain ⟨entry, -, renamed⟩ := List.mem_filterMap.mp member
    obtain ⟨func, found, -⟩ :=
      Option.map_eq_some_iff.mp (renames_eq_some_iff.mp renamed).2.2
    obtain ⟨inModule, rfl⟩ := IRModule.find?_eq_some_iff.mp found
    have original : module.nameOf func.id = some func.name := by
      rw [IRModule.nameOf, found, Option.map_some]
    rw [original, List.mem_map]
    constructor
    · rintro ⟨other, inChanged, same⟩
      obtain ⟨otherInModule, differs⟩ := List.mem_filter.mp inChanged
      obtain rfl := List.inj_on_of_nodup_map module.distinct otherInModule inModule same
      exact of_decide_eq_true differs
    · intro differs
      exact ⟨func, List.mem_filter.mpr ⟨inModule, decide_eq_true differs⟩, rfl⟩
  have lengths : (changed.map (·.id)).length = changed.length := List.length_map _
  rw [← lengths]
  constructor
  · intro same
    have perm : (changed.map (·.id)).Perm (build.entries.filterMap (build.renames module)) :=
      (List.subperm_of_subset nodup subset).perm_of_length_le same.le
    exact ⟨perm.nodup_iff.mp nodup, fun id member =>
      (changes id member).mp (perm.mem_iff.mpr member)⟩
  · rintro ⟨once, all⟩
    refine ((List.perm_ext_iff_of_nodup once nodup).mpr fun id => ?_).length_eq
    exact ⟨fun member => (changes id member).mpr (all id member), fun member => subset member⟩

/-- Obfuscation records what it does exactly where the renamings are apart.  The toolchain never
gives a function a name that another one bears. -/
theorem obfuscate_accurate_iff (tools : Toolchain) (build : Build) (module : IRModule)
    (unique : ∀ taken name, tools.uniqueName taken name ∉ taken) :
    Accurate build module (build.obfuscate tools module) ↔ RenamesApart tools build module := by
  have final : build.obfuscate tools module = build.obfuscateEntries tools module build.entries :=
    rfl
  rw [final]
  constructor
  · rintro ⟨recorded, untouched, counted⟩
    rw [renamedCount_obfuscateEntries] at counted
    obtain ⟨once, changes⟩ := counted_iff.mp counted
    have renamedHere {before after : List VisibilityEntry} {entry : VisibilityEntry}
        {id : FunctionId} (split : build.entries = before ++ entry :: after)
        (renamed : build.renames module entry = some id) :
        (build.obfuscateEntries tools module build.entries).module.nameOf id =
          some (tools.uniqueName
            ((build.obfuscateEntries tools module before).module.otherNames id)
            (build.obfuscatedName entry.qualifiedName)) := by
      rw [split] at once ⊢
      exact nameOf_obfuscateEntries renamed (not_mem_of_nodup once renamed)
    have isRenamed {before after : List VisibilityEntry} {entry : VisibilityEntry}
        (split : build.entries = before ++ entry :: after) : entry ∈ build.entries :=
      split ▸ List.mem_append_right _ (List.mem_cons_self ..)
    refine ⟨once, ?_, ?_, ?_⟩
    · intro entry member visible id mapped touched
      exact changes id touched (untouched entry member visible id mapped)
    · intro before entry after id split renamed
      rw [← renamedHere split renamed]
      exact (changes id (List.mem_filterMap.mpr ⟨entry, isRenamed split, renamed⟩)).symm
    · intro before entry after id split renamed isProtected taken
      have known := (@lookup_protectedMapping tools build module build.entries
        entry.qualifiedName (build.obfuscatedName entry.qualifiedName)).mpr
          ⟨rfl, entry, isRenamed split, rfl, isProtected, by rw [renamed]; rfl⟩
      obtain ⟨target, mapped, named⟩ := recorded _ _ known
      obtain rfl : id = target :=
        Option.some.inj ((renames_eq_some_iff.mp renamed).2.1.symm.trans mapped)
      have same := Option.some.inj ((renamedHere split renamed).symm.trans named)
      exact unique _ _ (same.symm ▸ taken)
  · rintro ⟨once, hidden, another, free⟩
    have split {entry : VisibilityEntry} (member : entry ∈ build.entries) {id : FunctionId}
        (renamed : build.renames module entry = some id) :
        ∃ before after, build.entries = before ++ entry :: after ∧
          (build.obfuscateEntries tools module build.entries).module.nameOf id =
            some (tools.uniqueName
              ((build.obfuscateEntries tools module before).module.otherNames id)
              (build.obfuscatedName entry.qualifiedName)) := by
      obtain ⟨before, after, whole⟩ := List.append_of_mem member
      refine ⟨before, after, whole, ?_⟩
      rw [whole] at once ⊢
      exact nameOf_obfuscateEntries renamed (not_mem_of_nodup once renamed)
    refine ⟨?_, ?_, ?_⟩
    · intro qualifiedName name known
      obtain ⟨rfl, entry, member, rfl, isProtected, renames⟩ :=
        (lookup_protectedMapping build.entries _ _).mp known
      obtain ⟨id, renamed⟩ := Option.isSome_iff_exists.mp renames
      obtain ⟨before, after, whole, named⟩ := split member renamed
      refine ⟨id, (renames_eq_some_iff.mp renamed).2.1, named.trans (congrArg some ?_)⟩
      exact tools.uniqueName_free _ _ (free before entry after id whole renamed isProtected)
    · intro entry member visible id mapped
      exact nameOf_obfuscateEntries_of_not_mem (hidden entry member visible id mapped)
    · rw [renamedCount_obfuscateEntries, counted_iff]
      refine ⟨once, fun id member => ?_⟩
      obtain ⟨entry, inEntries, renamed⟩ := List.mem_filterMap.mp member
      obtain ⟨before, after, whole, named⟩ := split inEntries renamed
      rw [named]
      exact (another before entry after id whole renamed).symm

end Accuracy

/-- A toolchain that tells names apart by dots. -/
def dottedTools : Toolchain where
  toDemangler := sampleTools.toDemangler
  iterate := sampleTools.iterate
  mem_iterate := sampleTools.mem_iterate
  uniqueName taken name :=
    if name ∈ taken then name ++ List.replicate (taken.flatten.length + 1) '.' else name
  uniqueName_free _ _ free := if_neg free

theorem dottedTools_unique (taken : List Name) (name : Name) :
    dottedTools.uniqueName taken name ∉ taken := by
  unfold dottedTools
  by_cases inTaken : name ∈ taken
  · simp only [inTaken, if_true]
    intro member
    have longest := (List.sublist_flatten_of_mem member).length_le
    simp only [List.length_append, List.length_replicate] at longest
    omega
  · simpa only [inTaken, if_false] using inTaken

def publicEntry : VisibilityEntry := ⟨"lib::api".toList, .isPublic, none⟩

def protectedEntry : VisibilityEntry := ⟨"lib::impl".toList, .isProtected, none⟩

theorem nodup_zero_one : [0, 1].Nodup := by decide

/-- A public and a protected entry, with the hash of the second. -/
def libraryBuild (mapping : List (Name × FunctionId)) : Build where
  module := ⟨[⟨0, ['a'], false, .external, []⟩, ⟨1, ['b'], false, .external, []⟩], nodup_zero_one⟩
  mapping :=
    { matched := mapping.foldl (fun map entry => map.insert entry.1 entry.2) ∅
      unmatchedTopo := []
      unmatchedIR := [] }
  entries := [publicEntry, protectedEntry]
  actions := []
  blocks := []
  passes := id
  obfMode := .normal
  obfSalt := []
  sipHash message key :=
    if message = "lib::impl".toList ∧ key = saltKey [] then
      "207383385277ee455fb325832b50a23f".toList
    else message

/-- A pair split at an element other than the first. -/
theorem split_pair {α : Type} {first second element : α} {before after : List α}
    (split : [first, second] = before ++ element :: after) (other : element ≠ first) :
    before = [first] ∧ element = second := by
  cases before with
  | nil => exact absurd (List.cons.inj split).1.symm other
  | cons head before =>
      obtain ⟨rfl, rest⟩ := List.cons.inj split
      cases before with
      | nil => exact ⟨rfl, (List.cons.inj rest).1.symm⟩
      | cons next before =>
          have none := (List.cons.inj rest).2
          simp at none

/-- Mapped to functions of their own, the entries are renamed apart. -/
theorem libraryBuild_accurate :
    let build := libraryBuild [("lib::api".toList, 0), ("lib::impl".toList, 1)]
    Accurate build build.module (build.obfuscate dottedTools build.module) := by
  intro build
  refine (obfuscate_accurate_iff dottedTools build build.module dottedTools_unique).mpr ?_
  have second (before : List VisibilityEntry) (entry : VisibilityEntry)
      (after : List VisibilityEntry) (id : FunctionId)
      (split : build.entries = before ++ entry :: after)
      (renamed : build.renames build.module entry = some id) :
      before = [publicEntry] ∧ entry = protectedEntry ∧ id = 1 := by
    obtain ⟨rfl, rfl⟩ := split_pair split (by
      rintro rfl
      exact (renames_eq_some_iff.mp renamed).1 rfl)
    have target : build.renames build.module protectedEntry = some 1 := by decide
    exact ⟨rfl, rfl, Option.some.inj (renamed.symm.trans target)⟩
  refine ⟨by decide, by decide, ?_, ?_⟩
  · intro before entry after id split renamed
    obtain ⟨rfl, rfl, rfl⟩ := second before entry after id split renamed
    decide
  · intro before entry after id split renamed _
    obtain ⟨rfl, rfl, rfl⟩ := second before entry after id split renamed
    decide

/-- Mapped to one function, the protected entry renames the function of the public one. -/
theorem libraryBuild_renames_public :
    let build := libraryBuild [("lib::api".toList, 0), ("lib::impl".toList, 0)]
    ¬Accurate build build.module (build.obfuscate dottedTools build.module) := by
  intro build accurate
  have kept := accurate.untouched publicEntry (by decide) rfl 0 (by decide)
  exact absurd kept (by decide)

end Build
end Backend
end TopoLlvm
