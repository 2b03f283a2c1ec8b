import TopoLlvm.Backend.SymbolMapper
import Mathlib.Logic.Basic

/-!
# Accounting of the symbol mapper

What the two passes over the entries leave, name by name: the last binding that is resolved, or what
the name matches.  A function that a binding named and a later one displaced is in neither list.
-/

namespace TopoLlvm
namespace Backend

section Passes

variable (tools : Toolchain) (demangled : FunctionMap) (entries : List VisibilityEntry)

/-- The last resolved binding of a name. -/
def lastBinding (qualified : Name) : Option FunctionId :=
  ((entries.filter (·.qualifiedName = qualified)).filterMap (resolveBinding demangled)).getLast?

/-- The function that a name of the entries is assigned to. -/
def assigned (qualified : Name) : Option FunctionId :=
  (lastBinding demangled entries qualified).or (matchEntry tools demangled qualified)

theorem Matching.lookup_assign (matching : Matching) (qualified name : Name) (func : FunctionId) :
    (matching.assign qualified func).matched.lookup name =
      if name = qualified then some func else matching.matched.lookup name := by
  unfold assign
  by_cases same : name = qualified
  · subst same
    simp
  · simp [same]

/-- The first pass keeps the last binding of each name and collects all of them. -/
theorem matchBindings_spec :
    (∀ name, (matchBindings demangled entries).matched.lookup name =
        lastBinding demangled entries name) ∧
      (∀ func, func ∈ (matchBindings demangled entries).matchedFuncs ↔
        ∃ entry ∈ entries, resolveBinding demangled entry = some func) ∧
      (matchBindings demangled entries).unmatchedTopo = [] := by
  induction entries using List.reverseRecOn with
  | nil => simp [matchBindings, lastBinding]
  | append_singleton entries entry ih =>
      obtain ⟨lookups, funcs, none⟩ := ih
      rw [matchBindings, List.foldl_append, List.foldl_cons, List.foldl_nil, ← matchBindings]
      have last (name : Name) : lastBinding demangled (entries ++ [entry]) name =
          if entry.qualifiedName = name then
            (resolveBinding demangled entry).or (lastBinding demangled entries name)
          else lastBinding demangled entries name := by
        simp only [lastBinding, List.filter_append, List.filterMap_append, List.getLast?_append]
        by_cases same : entry.qualifiedName = name
        · cases resolved : resolveBinding demangled entry <;> simp [same, resolved]
        · simp [same]
      cases resolved : resolveBinding demangled entry with
      | none =>
          refine ⟨fun name => ?_, fun func => ?_, none⟩
          · rw [last, resolved, Option.none_or, ite_self]
            exact lookups name
          · simp [funcs, resolved]
      | some target =>
          refine ⟨fun name => ?_, fun func => ?_, none⟩
          · rw [last, resolved, Matching.lookup_assign, lookups]
            simp [eq_comm]
          · simp [Matching.assign, funcs, resolved, eq_comm, or_comm]

/-- Where a name is declared by the entries that were seen. -/
def Declared (seen : List VisibilityEntry) (name : Name) : Prop :=
  ∃ entry ∈ seen, entry.qualifiedName = name

/-- What holds of the passes after the second one has seen some entries. -/
structure Matching.Accounts (matching : Matching) (seen : List VisibilityEntry) : Prop where
  bound : ∀ name func, lastBinding demangled entries name = some func →
    matching.matched.lookup name = some func
  declared : ∀ name, lastBinding demangled entries name = none → Declared seen name →
    matching.matched.lookup name = matchEntry tools demangled name
  undeclared : ∀ name, lastBinding demangled entries name = none → ¬Declared seen name →
    matching.matched.lookup name = none
  funcs : ∀ func, func ∈ matching.matchedFuncs ↔
    (∃ entry ∈ entries, resolveBinding demangled entry = some func) ∨
      ∃ name, Declared seen name ∧ lastBinding demangled entries name = none ∧
        matchEntry tools demangled name = some func
  unmatched : ∀ name, name ∈ matching.unmatchedTopo ↔
    Declared seen name ∧ assigned tools demangled entries name = none

variable {tools demangled entries} {matching : Matching} {seen : List VisibilityEntry}
  {entry : VisibilityEntry} {name : Name}

theorem declared_append_singleton :
    Declared (seen ++ [entry]) name ↔ Declared seen name ∨ entry.qualifiedName = name := by
  simp [Declared, or_and_right, exists_or]

/-- An entry whose name is matched changes nothing. -/
theorem Matching.Accounts.skip (accounts : matching.Accounts tools demangled entries seen)
    (matched : (matching.matched.lookup entry.qualifiedName).isSome) :
    matching.Accounts tools demangled entries (seen ++ [entry]) := by
  -- The name has a binding, or it was declared before and matches something.
  have known : (lastBinding demangled entries entry.qualifiedName).isSome ∨
      lastBinding demangled entries entry.qualifiedName = none ∧
        Declared seen entry.qualifiedName := by
    cases last : lastBinding demangled entries entry.qualifiedName with
    | some func => exact .inl rfl
    | none =>
        refine .inr ⟨rfl, ?_⟩
        by_contra fresh
        rw [accounts.undeclared _ last fresh] at matched
        cases matched
  have before {name : Name} (last : lastBinding demangled entries name = none)
      (declared : Declared (seen ++ [entry]) name) : Declared seen name := by
    rcases declared_append_singleton.mp declared with before | rfl
    · exact before
    · rcases known with bound | ⟨-, earlier⟩
      · simp [last] at bound
      · exact earlier
  have mono {name : Name} (declared : Declared seen name) : Declared (seen ++ [entry]) name :=
    declared_append_singleton.mpr (.inl declared)
  refine ⟨accounts.bound,
    fun name last declared => accounts.declared name last (before last declared),
    fun name last fresh => accounts.undeclared name last (fresh ∘ mono), fun func => ?_,
    fun name => ?_⟩
  · rw [accounts.funcs]
    refine or_congr_right (exists_congr fun name => ⟨?_, ?_⟩)
    · exact fun ⟨declared, rest⟩ => ⟨mono declared, rest⟩
    · exact fun ⟨declared, last, rest⟩ => ⟨before last declared, last, rest⟩
  · rw [accounts.unmatched]
    refine ⟨fun ⟨declared, absent⟩ => ⟨mono declared, absent⟩,
      fun ⟨declared, absent⟩ => ⟨?_, absent⟩⟩
    exact before (Option.or_eq_none_iff.mp absent).1 declared

/-- An entry whose name is not matched is matched, or listed. -/
theorem Matching.Accounts.declare (accounts : matching.Accounts tools demangled entries seen)
    (fresh : matching.matched.lookup entry.qualifiedName = none) :
    (match matchEntry tools demangled entry.qualifiedName with
      | some func => matching.assign entry.qualifiedName func
      | none =>
          { matching with unmatchedTopo := matching.unmatchedTopo ++ [entry.qualifiedName] }
      ).Accounts tools demangled entries (seen ++ [entry]) := by
  have last : lastBinding demangled entries entry.qualifiedName = none := by
    cases bound : lastBinding demangled entries entry.qualifiedName with
    | none => rfl
    | some func =>
        rw [accounts.bound _ func bound] at fresh
        cases fresh
  cases found : matchEntry tools demangled entry.qualifiedName with
  | none =>
      refine ⟨accounts.bound, fun name none declared => ?_, fun name none fresh => ?_,
        fun func => ?_, fun name => ?_⟩
      · rcases declared_append_singleton.mp declared with before | rfl
        · exact accounts.declared name none before
        · exact fresh.trans found.symm
      · exact accounts.undeclared name none fun before =>
          fresh (declared_append_singleton.mpr (.inl before))
      · rw [accounts.funcs]
        refine or_congr_right (exists_congr fun name => ?_)
        rw [declared_append_singleton, or_and_right]
        refine (or_iff_left ?_).symm
        rintro ⟨rfl, -, contra⟩
        rw [found] at contra
        cases contra
      · rw [declared_append_singleton, List.mem_append, List.mem_singleton, accounts.unmatched,
          or_and_right]
        refine or_congr_right ⟨?_, fun same => same.1.symm⟩
        rintro rfl
        exact ⟨rfl, by rw [assigned, last, found]; rfl⟩
  | some func =>
      have before (declared : Declared seen entry.qualifiedName) : False := by
        rw [accounts.declared _ last declared, found] at fresh
        cases fresh
      refine ⟨fun name bound lookup => ?_, fun name none declared => ?_, fun name none fresh => ?_,
        fun other => ?_, fun name => ?_⟩
      · rw [Matching.lookup_assign, if_neg, accounts.bound name bound lookup]
        rintro rfl
        rw [last] at lookup
        cases lookup
      · rw [Matching.lookup_assign]
        by_cases same : name = entry.qualifiedName
        · rw [if_pos same, same, found]
        · rw [if_neg same]
          exact accounts.declared name none
            ((declared_append_singleton.mp declared).resolve_right (Ne.symm same))
      · have apart : name ≠ entry.qualifiedName := fun same =>
          fresh (declared_append_singleton.mpr (.inr same.symm))
        rw [Matching.lookup_assign, if_neg apart]
        exact accounts.undeclared name none fun before =>
          fresh (declared_append_singleton.mpr (.inl before))
      · have here : other ∈ (matching.assign entry.qualifiedName func).matchedFuncs ↔
            other = func ∨ other ∈ matching.matchedFuncs := List.mem_cons
        rw [here, accounts.funcs, or_left_comm]
        refine or_congr_right ⟨?_, ?_⟩
        · rintro (rfl | ⟨name, declared, rest⟩)
          · exact ⟨_, declared_append_singleton.mpr (.inr rfl), last, found⟩
          · exact ⟨name, declared_append_singleton.mpr (.inl declared), rest⟩
        · rintro ⟨name, declared, none, assigned⟩
          rcases declared_append_singleton.mp declared with declared | rfl
          · exact .inr ⟨name, declared, none, assigned⟩
          · exact .inl (Option.some.inj (assigned.symm.trans found))
      · have here : (matching.assign entry.qualifiedName func).unmatchedTopo =
            matching.unmatchedTopo := rfl
        rw [here, accounts.unmatched, declared_append_singleton, or_and_right]
        refine (or_iff_left ?_).symm
        rintro ⟨rfl, none⟩
        rw [assigned, last, found] at none
        cases none

/-- The passes over the entries leave each name with what it is assigned to. -/
theorem matchEntries_accounts (tools : Toolchain) (demangled : FunctionMap)
    (entries : List VisibilityEntry) :
    (matchEntries tools demangled entries).Accounts tools demangled entries entries := by
  suffices run : ∀ seen : List VisibilityEntry,
      (seen.foldl (matchDeclared tools demangled) (matchBindings demangled entries)).Accounts tools
        demangled entries seen from run entries
  intro seen
  induction seen using List.reverseRecOn with
  | nil =>
      obtain ⟨lookups, funcs, none⟩ := matchBindings_spec demangled entries
      refine ⟨fun name func last => (lookups name).trans last,
        fun name _ ⟨_, member, _⟩ => absurd member List.not_mem_nil,
        fun name last _ => (lookups name).trans last, fun func => ?_, fun name => ?_⟩
      · simp [funcs, Declared]
      · simp [none, Declared]
  | append_singleton seen entry ih =>
      rw [List.foldl_append, List.foldl_cons, List.foldl_nil, matchDeclared]
      split
      · rename_i matched
        exact ih.skip (AList.lookup_isSome.mpr matched)
      · rename_i fresh
        exact ih.declare (AList.lookup_eq_none.mpr fresh)

/-- A name is assigned to the function. -/
def IsAssigned (tools : Toolchain) (demangled : FunctionMap) (entries : List VisibilityEntry)
    (func : FunctionId) : Prop :=
  ∃ name, Declared entries name ∧ assigned tools demangled entries name = some func

theorem declared_of_lastBinding {func : FunctionId}
    (bound : lastBinding demangled entries name = some func) : Declared entries name := by
  obtain ⟨entry, member, -⟩ := List.mem_filterMap.mp (List.mem_of_getLast? bound)
  obtain ⟨inside, named⟩ := List.mem_filter.mp member
  exact ⟨entry, inside, by simpa using named⟩

/-- The names of the entries are matched to what they are assigned to. -/
theorem lookup_matchEntries {func : FunctionId} :
    (matchEntries tools demangled entries).matched.lookup name = some func ↔
      Declared entries name ∧ assigned tools demangled entries name = some func := by
  have accounts := matchEntries_accounts tools demangled entries
  cases last : lastBinding demangled entries name with
  | some bound =>
      rw [accounts.bound name bound last, assigned, last]
      exact (and_iff_right (declared_of_lastBinding last)).symm
  | none =>
      rw [assigned, last, Option.none_or]
      by_cases declared : Declared entries name
      · rw [accounts.declared name last declared]
        exact (and_iff_right declared).symm
      · rw [accounts.undeclared name last declared]
        simp [declared]

theorem isAssigned_iff {func : FunctionId} :
    IsAssigned tools demangled entries func ↔
      ∃ name, (matchEntries tools demangled entries).matched.lookup name = some func :=
  exists_congr fun _ => lookup_matchEntries.symm

theorem isAssigned_of_matchEntry {func : FunctionId}
    (found : ∃ name, Declared entries name ∧ lastBinding demangled entries name = none ∧
      matchEntry tools demangled name = some func) : IsAssigned tools demangled entries func := by
  obtain ⟨name, declared, last, found⟩ := found
  exact ⟨name, declared, by rw [assigned, last, found]; rfl⟩

/-- What is assigned was claimed by one of the passes. -/
theorem mem_matchedFuncs_of_isAssigned {func : FunctionId}
    (here : IsAssigned tools demangled entries func) :
    func ∈ (matchEntries tools demangled entries).matchedFuncs := by
  rw [(matchEntries_accounts tools demangled entries).funcs]
  obtain ⟨name, declared, here⟩ := here
  cases last : lastBinding demangled entries name with
  | some bound =>
      rw [assigned, last, Option.some_or, Option.some.injEq] at here
      subst here
      obtain ⟨entry, inside, resolved⟩ := List.mem_filterMap.mp (List.mem_of_getLast? last)
      exact .inl ⟨entry, (List.mem_filter.mp inside).1, resolved⟩
  | none =>
      rw [assigned, last, Option.none_or] at here
      exact .inr ⟨name, declared, last, here⟩

/-- A function is assigned to a name or was claimed by no pass, unless a binding of it was
displaced. -/
theorem isAssigned_xor_iff {func : FunctionId} :
    Xor (IsAssigned tools demangled entries func)
        (func ∉ (matchEntries tools demangled entries).matchedFuncs) ↔
      ((∃ entry ∈ entries, resolveBinding demangled entry = some func) →
        IsAssigned tools demangled entries func) := by
  have funcs := (matchEntries_accounts tools demangled entries).funcs func
  by_cases here : IsAssigned tools demangled entries func
  · simp [here, mem_matchedFuncs_of_isAssigned here]
  · have unmatched := mt isAssigned_of_matchEntry here
    rw [funcs, or_iff_left unmatched]
    simp [here]

end Passes

/-! ## Both sides of the mapping -/

section Accounts

variable (tools : Toolchain) (module : IRModule) (entries : List VisibilityEntry)

/-- A function that is not skipped and stands for its name in the map. -/
def Represents (func : IRFunction) : Prop :=
  shouldSkip func = false ∧
    (buildDemangledMap tools module).lookup (qualifiedKey tools func) = some func.id

/-- Each name and each function that stands for its name is in one of its two lists. -/
structure Accounted (mapping : SymbolMapping) : Prop where
  names : ∀ name, Declared entries name →
    Xor (name ∈ mapping.matched) (name ∈ mapping.unmatchedTopo)
  funcs : ∀ func ∈ module.functions, Represents tools module func →
    Xor (∃ name, mapping.matched.lookup name = some func.id)
      (qualifiedKey tools func ∈ mapping.unmatchedIR)

/-- A function that a binding names is the last that is bound to some name, or what a name without
a binding matches. -/
def BindingsKept : Prop :=
  ∀ entry ∈ entries, ∀ func ∈ module.functions, Represents tools module func →
    resolveBinding (buildDemangledMap tools module) entry = some func.id →
      IsAssigned tools (buildDemangledMap tools module) entries func.id

variable {tools module entries}

/-- A function that stands for its name is reported where nothing was matched to it. -/
theorem mem_unmatchedFunctions {matchedFuncs : List FunctionId} {func : IRFunction}
    (member : func ∈ module.functions) (represents : Represents tools module func) :
    qualifiedKey tools func ∈
        unmatchedFunctions tools module (buildDemangledMap tools module) matchedFuncs ↔
      func.id ∉ matchedFuncs := by
  obtain ⟨kept, stands⟩ := represents
  rw [unmatchedFunctions, List.mem_filterMap]
  constructor
  · rintro ⟨other, -, reported⟩
    split_ifs at reported with skipped matched here
    -- The function that is reported stands for the same name.
    have same := Option.some.inj reported
    rw [same, stands] at here
    rwa [Option.some.inj here]
  · exact fun fresh => ⟨func, member, by simp [kept, fresh, stands]⟩

/-- The mapping accounts for all names and functions exactly where no binding of a function is
displaced for good. -/
theorem mapSymbols_accounted_iff (tools : Toolchain) (module : IRModule)
    (entries : List VisibilityEntry) :
    Accounted tools module entries (mapSymbols tools module entries) ↔
      BindingsKept tools module entries := by
  have accounts := matchEntries_accounts tools (buildDemangledMap tools module) entries
  have names (name : Name) (declared : Declared entries name) :
      Xor (name ∈ (mapSymbols tools module entries).matched)
        (name ∈ (mapSymbols tools module entries).unmatchedTopo) := by
    have matched : name ∈ (mapSymbols tools module entries).matched ↔
        (assigned tools (buildDemangledMap tools module) entries name).isSome := by
      rw [← AList.lookup_isSome, Option.isSome_iff_exists, Option.isSome_iff_exists]
      exact exists_congr fun func => lookup_matchEntries.trans (and_iff_right declared)
    have unmatched : name ∈ (mapSymbols tools module entries).unmatchedTopo ↔
        assigned tools (buildDemangledMap tools module) entries name = none :=
      (accounts.unmatched name).trans (and_iff_right declared)
    rw [matched, unmatched, xor_iff_not_iff]
    cases assigned tools (buildDemangledMap tools module) entries name <;> simp
  have funcs (func : IRFunction) (member : func ∈ module.functions)
      (represents : Represents tools module func) :
      Xor (∃ name, (mapSymbols tools module entries).matched.lookup name = some func.id)
          (qualifiedKey tools func ∈ (mapSymbols tools module entries).unmatchedIR) ↔
        ((∃ entry ∈ entries,
            resolveBinding (buildDemangledMap tools module) entry = some func.id) →
          IsAssigned tools (buildDemangledMap tools module) entries func.id) := by
    rw [← isAssigned_xor_iff, isAssigned_iff]
    exact Eq.to_iff (congrArg _ (propext (mem_unmatchedFunctions member represents)))
  constructor
  · intro accounted entry member func inside represents resolved
    exact (funcs func inside represents).mp (accounted.funcs func inside represents)
      ⟨entry, member, resolved⟩
  · intro kept
    refine ⟨names, fun func inside represents => (funcs func inside represents).mpr ?_⟩
    rintro ⟨entry, member, resolved⟩
    exact kept entry member func inside represents resolved

end Accounts

/-! ## A displaced binding -/

/-- What an `unordered_map` holds. -/
def FunctionMap.pairs (map : FunctionMap) : List (Name × FunctionId) :=
  map.entries.map fun entry => (entry.1, entry.2)

theorem FunctionMap.mem_pairs (map : FunctionMap) (entry : Name × FunctionId) :
    entry ∈ map.pairs ↔ map.lookup entry.1 = some entry.2 := by
  obtain ⟨key, func⟩ := entry
  rw [← Option.mem_def, AList.mem_lookup_iff, pairs, List.mem_map]
  constructor
  · rintro ⟨⟨_, _⟩, inside, same⟩
    cases same
    exact inside
  · exact fun inside => ⟨⟨key, func⟩, inside, rfl⟩

/-- A toolchain with a demangler of its own. -/
def Toolchain.demangling (demangle : Name → Name) : Toolchain where
  demangle
  microsoftDemangle _ := none
  iterate := FunctionMap.pairs
  mem_iterate := FunctionMap.mem_pairs
  uniqueName _ name := name
  uniqueName_free _ _ _ := rfl

/-- Two functions with C linkage. -/
def twoFunctions : IRModule where
  functions := [⟨0, ['a'], false, .external, []⟩, ⟨1, ['b'], false, .external, []⟩]
  distinct := by decide

/-- Two entries of one name, bound to one of them each. -/
def boundTwice : List VisibilityEntry :=
  [⟨['f'], .isPublic, some ['a']⟩, ⟨['f'], .isPublic, some ['b']⟩]

/-- The first of the two functions is neither matched nor reported. -/
theorem mapSymbols_drops_function :
    ¬Accounted (.demangling id) twoFunctions boundTwice
      (mapSymbols (.demangling id) twoFunctions boundTwice) := by
  intro accounted
  have first := accounted.funcs ⟨0, ['a'], false, .external, []⟩ (by decide) ⟨by decide, by decide⟩
  rcases first with ⟨⟨name, found⟩, -⟩ | ⟨reported, -⟩
  · have only : (mapSymbols (.demangling id) twoFunctions boundTwice).matched.pairs =
        [(['f'], 1)] := by decide
    have member := (FunctionMap.mem_pairs _ (name, 0)).mpr found
    rw [only] at member
    cases List.mem_singleton.mp member
  · exact absurd reported (by decide)

end Backend
end TopoLlvm
