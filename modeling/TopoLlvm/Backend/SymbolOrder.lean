import TopoLlvm.Backend.SymbolAccounting
import Mathlib.Data.List.MinMax

/-!
# The symbol mapper and the order of its map

The search for a suffix walks an `unordered_map` and keeps the first of the shortest names, so what
is matched depends on the order of the walk exactly where two functions tie.
-/

namespace TopoLlvm
namespace Backend

/-! ## Orders -/

/-- An order in which each `unordered_map` is walked. -/
structure IterationOrder where
  iterate : FunctionMap → List (Name × FunctionId)
  perm : ∀ map, (iterate map).Perm map.pairs

theorem IterationOrder.mem_iterate (order : IterationOrder) (map : FunctionMap)
    (entry : Name × FunctionId) :
    entry ∈ order.iterate map ↔ map.lookup entry.1 = some entry.2 :=
  (order.perm map).mem_iff.trans (map.mem_pairs entry)

/-- The order that begins with an entry. -/
def IterationOrder.startingWith (first : Name × FunctionId) : IterationOrder where
  iterate map := if first ∈ map.pairs then first :: map.pairs.erase first else map.pairs
  perm map := by
    split
    · rename_i member
      exact (List.perm_cons_erase member).symm
    · exact .refl _

/-- The toolchain with another order. -/
def Toolchain.inOrder (tools : Toolchain) (order : IterationOrder) : Toolchain :=
  { tools with iterate := order.iterate, mem_iterate := order.mem_iterate }

/-- An entry of the map whose name ends with `::` and the qualified name. -/
def EndsWith (demangled : FunctionMap) (qualified : Name) (entry : Name × FunctionId) : Prop :=
  demangled.lookup entry.1 = some entry.2 ∧ qualified.length + 2 < entry.1.length ∧
    ':' :: ':' :: qualified <:+ entry.1

/-- None of the names that end so is shorter. -/
def IsShortest (demangled : FunctionMap) (qualified : Name) (entry : Name × FunctionId) : Prop :=
  EndsWith demangled qualified entry ∧
    ∀ other, EndsWith demangled qualified other → entry.1.length ≤ other.1.length

section Order

variable {tools : Toolchain} {demangled : FunctionMap} {qualified : Name}

/-- The search keeps the first of the shortest names. -/
theorem bestSuffixMatch_eq_argmin :
    bestSuffixMatch tools demangled qualified =
      ((tools.iterate demangled).filter fun entry =>
        decide (qualified.length + 2 < entry.1.length ∧
          ':' :: ':' :: qualified <:+ entry.1)).argmin (·.1.length) := by
  have same (name : Name) : ([':', ':'] ++ qualified).length < name.length ∧
      ([':', ':'] ++ qualified).isSuffixOf name = true ↔
        qualified.length + 2 < name.length ∧ ':' :: ':' :: qualified <:+ name := by
    rw [List.length_append, Nat.add_comm, List.isSuffixOf_iff_suffix]
    rfl
  rw [bestSuffixMatch]
  generalize tools.iterate demangled = entries
  induction entries using List.reverseRecOn with
  | nil => rfl
  | append_singleton entries entry ih =>
      rw [List.foldl_append, List.foldl_cons, List.foldl_nil, ih, List.filter_append]
      by_cases fits : qualified.length + 2 < entry.1.length ∧ ':' :: ':' :: qualified <:+ entry.1
      · rw [if_pos ((same entry.1).mpr fits), List.filter_cons, if_pos (by simpa using fits),
          List.filter_nil, List.argmin_concat]
        cases (entries.filter _).argmin (·.1.length) with
        | none => rfl
        | some found => rfl
      · rw [if_neg (mt (same entry.1).mp fits), List.filter_cons, if_neg (by simpa using fits),
          List.filter_nil, List.append_nil]

theorem mem_filter_iterate {entry : Name × FunctionId} :
    entry ∈ (tools.iterate demangled).filter (fun entry =>
        decide (qualified.length + 2 < entry.1.length ∧ ':' :: ':' :: qualified <:+ entry.1)) ↔
      EndsWith demangled qualified entry := by
  rw [List.mem_filter, tools.mem_iterate, decide_eq_true_eq, EndsWith]

theorem isShortest_of_bestSuffixMatch {entry : Name × FunctionId}
    (best : bestSuffixMatch tools demangled qualified = some entry) :
    IsShortest demangled qualified entry := by
  rw [bestSuffixMatch_eq_argmin] at best
  refine ⟨mem_filter_iterate.mp (List.argmin_mem best), fun other ends => ?_⟩
  exact List.le_of_mem_argmin (f := fun entry : Name × FunctionId => entry.1.length)
    (mem_filter_iterate.mpr ends) best

theorem bestSuffixMatch_eq_none :
    bestSuffixMatch tools demangled qualified = none ↔
      ∀ entry, ¬EndsWith demangled qualified entry := by
  rw [bestSuffixMatch_eq_argmin, List.argmin_eq_none, List.eq_nil_iff_forall_not_mem]
  exact forall_congr' fun entry => not_congr mem_filter_iterate

/-- A shortest name is found where the walk begins with it. -/
theorem bestSuffixMatch_startingWith {entry : Name × FunctionId}
    (shortest : IsShortest demangled qualified entry) :
    bestSuffixMatch (tools.inOrder (.startingWith entry)) demangled qualified = some entry := by
  have member : entry ∈ demangled.pairs := (demangled.mem_pairs entry).mpr shortest.1.1
  have walk : (tools.inOrder (.startingWith entry)).iterate demangled =
      entry :: demangled.pairs.erase entry := if_pos member
  rw [bestSuffixMatch_eq_argmin, walk, List.filter_cons, if_pos (by simpa using shortest.1.2),
    List.argmin_cons]
  cases rest : ((demangled.pairs.erase entry).filter _).argmin (·.1.length) with
  | none => rfl
  | some other =>
      obtain ⟨later, fits⟩ := List.mem_filter.mp (List.argmin_mem rest)
      have ends : EndsWith demangled qualified other :=
        ⟨(demangled.mem_pairs other).mp (List.mem_of_mem_erase later), by simpa using fits⟩
      exact if_neg (Nat.not_lt.mpr (shortest.2 other ends))

variable (tools : Toolchain) (module : IRModule) (entries : List VisibilityEntry)

/-- No name that is searched for ends two shortest names of different functions. -/
def Unambiguous : Prop :=
  ∀ name, Declared entries name →
    lastBinding (buildDemangledMap tools module) entries name = none →
    (buildDemangledMap tools module).lookup name = none →
    ∀ first second, IsShortest (buildDemangledMap tools module) name first →
      IsShortest (buildDemangledMap tools module) name second → first.2 = second.2

variable {tools module entries}

theorem lookup_mapSymbols_inOrder (order : IterationOrder) {name : Name} {func : FunctionId} :
    (mapSymbols (tools.inOrder order) module entries).matched.lookup name = some func ↔
      Declared entries name ∧ assigned (tools.inOrder order) (buildDemangledMap tools module)
        entries name = some func := lookup_matchEntries

/-- Without ties the search does not depend on the order. -/
theorem assigned_inOrder_eq (unambiguous : Unambiguous tools module entries)
    (order order' : IterationOrder) {name : Name} (declared : Declared entries name) :
    assigned (tools.inOrder order) (buildDemangledMap tools module) entries name =
      assigned (tools.inOrder order') (buildDemangledMap tools module) entries name := by
  have ties := unambiguous name declared
  generalize buildDemangledMap tools module = demangled at ties ⊢
  unfold assigned
  cases last : lastBinding demangled entries name with
  | some func => rfl
  | none =>
      rw [Option.none_or, Option.none_or, matchEntry, matchEntry]
      cases exact : demangled.lookup name with
      | some func => rfl
      | none =>
          dsimp only
          cases best : bestSuffixMatch (tools.inOrder order) demangled name with
          | none =>
              rw [bestSuffixMatch_eq_none.mpr (bestSuffixMatch_eq_none.mp best)]
          | some first =>
              have shortest := isShortest_of_bestSuffixMatch best
              cases best' : bestSuffixMatch (tools.inOrder order') demangled name with
              | none => exact absurd shortest.1 (bestSuffixMatch_eq_none.mp best' first)
              | some second =>
                  exact congrArg some
                    (ties last exact first second shortest (isShortest_of_bestSuffixMatch best'))

/-- The order of the map does not matter exactly where the suffix search meets no ties. -/
theorem mapSymbols_order_iff (tools : Toolchain) (module : IRModule)
    (entries : List VisibilityEntry) :
    (∀ order order' : IterationOrder, ∀ name,
        (mapSymbols (tools.inOrder order) module entries).matched.lookup name =
          (mapSymbols (tools.inOrder order') module entries).matched.lookup name) ↔
      Unambiguous tools module entries := by
  constructor
  · intro same name declared last exact first second shortest shortest'
    have found (entry : Name × FunctionId)
        (shortest : IsShortest (buildDemangledMap tools module) name entry) :
        (mapSymbols (tools.inOrder (.startingWith entry)) module entries).matched.lookup name =
          some entry.2 := by
      rw [lookup_mapSymbols_inOrder, assigned, last, Option.none_or, matchEntry, exact,
        bestSuffixMatch_startingWith shortest]
      exact ⟨declared, rfl⟩
    have both := same (.startingWith first) (.startingWith second) name
    rw [found first shortest, found second shortest'] at both
    exact Option.some.inj both
  · intro unambiguous order order' name
    refine Option.ext fun func => ?_
    rw [lookup_mapSymbols_inOrder, lookup_mapSymbols_inOrder]
    refine and_congr_right fun declared => ?_
    rw [assigned_inOrder_eq unambiguous order order' declared]

end Order

/-! ## A tie -/

/-- Functions of two crates with one name. -/
def twoCrates : IRModule where
  functions :=
    [⟨0, "_RNvNtCs1_1a2ns1f".toList, false, .external, []⟩,
      ⟨1, "_RNvNtCs1_1b2ns1f".toList, false, .external, []⟩]
  distinct := by decide

def cratesTools : Toolchain :=
  .demangling fun name =>
    if name = "_RNvNtCs1_1a2ns1f".toList then "a::ns::f".toList
    else if name = "_RNvNtCs1_1b2ns1f".toList then "b::ns::f".toList
    else name

/-- The entry is matched to the function that the walk meets first. -/
theorem mapSymbols_depends_on_order :
    (mapSymbols (cratesTools.inOrder (.startingWith ("a::ns::f".toList, 0))) twoCrates
        [⟨"ns::f".toList, .isPublic, none⟩]).matched.lookup "ns::f".toList = some 0 ∧
      (mapSymbols (cratesTools.inOrder (.startingWith ("b::ns::f".toList, 1))) twoCrates
        [⟨"ns::f".toList, .isPublic, none⟩]).matched.lookup "ns::f".toList = some 1 := by
  constructor
  · decide
  · decide

end Backend
end TopoLlvm
