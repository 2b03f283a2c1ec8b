import TopoLlvm.Backend.SymbolAccounting

/-!
# Cutting the parameter list

The mapper cuts a demangled name at its first parenthesis and then takes a word off its front where
that looks like a return type.  For a name that is written `q(…)` what is left is `q` exactly where
`q` has no parenthesis and does not end as a name behind a return type would.
-/

namespace TopoLlvm
namespace Backend

variable (tools : Demangler) (name : Name)

/-- The name is Microsoft's, and its own demangler reads it. -/
def ReadByMicrosoft : Prop :=
  ['?'].isPrefixOf name = true ∧ (tools.microsoftDemangle name).isSome = true

instance : Decidable (ReadByMicrosoft tools name) := inferInstanceAs (Decidable (_ ∧ _))

/-- The demangled text that is cut. -/
def demangledText : Name :=
  if ReadByMicrosoft tools name then (tools.microsoftDemangle name).getD [] else tools.demangle name

/-- A mangled name, not one of Rust, whose demangled text is a qualified name, a parameter list and
what follows. -/
structure Declares (qualified : Name) : Prop where
  mangled : tools.demangle name ≠ name
  notRust : ['_', 'R'].isPrefixOf name = false
  text : ∃ rest, demangledText tools name = qualified ++ '(' :: rest

/-- No word behind a blank is an identifier, unless the name is qualified or a template before. -/
def KeepsLastWord (qualified : Name) : Prop :=
  ∀ front word, qualified = front ++ ' ' :: word → ' ' ∉ word → startsIdentifier word = true →
    (Text.split [':', ':'] front).isSome = true ∨ '<' ∈ front

/-- The name does not end with ` const`, as an operator that converts may. -/
def KeepsConst (qualified : Name) : Prop :=
  ¬(" const".toList.length < qualified.length ∧ " const".toList <:+ qualified)

/-- Nothing is cut from the qualified name. -/
structure Uncut (qualified : Name) : Prop where
  noParenthesis : '(' ∉ qualified
  noBlank : qualified.getLast? ≠ some ' '
  const : ReadByMicrosoft tools name → KeepsConst qualified
  lastWord : ¬ReadByMicrosoft tools name → KeepsLastWord qualified

section Cut

variable {tools name} {qualified rest : Name}

/-- The word behind the last blank is cut off unless the name keeps it. -/
theorem stripReturnType_eq_self_iff :
    stripReturnType qualified = qualified ↔ KeepsLastWord qualified := by
  unfold stripReturnType KeepsLastWord
  cases found : Text.rsplit [' '] qualified with
  | none =>
      have single := Text.rsplit_singleton_eq_none.mp found
      refine iff_of_true rfl fun front word split => ?_
      exact absurd (by simp [split]) single
  | some parts =>
      obtain ⟨before, candidate⟩ := parts
      obtain ⟨split, last⟩ := Text.rsplit_singleton_eq_some.mp found
      have shorter : candidate ≠ qualified := by
        intro same
        have := congrArg List.length (split.symm.trans same.symm)
        simp only [List.length_append, List.length_cons] at this
        omega
      have unique {front word : Name} (also : qualified = front ++ ' ' :: word)
          (alone : ' ' ∉ word) : front = before ∧ word = candidate := by
        have again := Text.rsplit_singleton_eq_some.mpr ⟨also, alone⟩
        cases found.symm.trans again
        exact ⟨rfl, rfl⟩
      dsimp only
      split
      · rename_i plain
        simp only [Bool.and_eq_true, Option.isNone_iff_eq_none, Bool.not_eq_true'] at plain
        have template : '<' ∉ before := by simpa using plain.2
        split
        · rename_i identifier
          refine iff_of_false shorter fun keeps => ?_
          rcases keeps before candidate split last identifier with colons | inside
          · simp [plain.1] at colons
          · exact template inside
        · rename_i other
          refine iff_of_true rfl fun front word also alone identifier => ?_
          obtain ⟨-, rfl⟩ := unique also alone
          exact absurd identifier other
      · rename_i colons
        refine iff_of_true rfl fun front word also alone _ => ?_
        obtain ⟨rfl, -⟩ := unique also alone
        simp only [Bool.and_eq_true, Option.isNone_iff_eq_none, Bool.not_eq_true'] at colons
        rcases not_and_or.mp colons with colons | template
        · exact .inl (Option.isSome_iff_ne_none.mpr colons)
        · exact .inr (by simpa using template)

theorem length_stripReturnType_le (text : Name) : (stripReturnType text).length ≤ text.length := by
  unfold stripReturnType
  cases found : Text.rsplit [' '] text with
  | none => exact le_rfl
  | some parts =>
      obtain ⟨before, candidate⟩ := parts
      obtain ⟨split, -⟩ := Text.rsplit_singleton_eq_some.mp found
      have shorter : candidate.length ≤ text.length := by
        rw [split, List.length_append, List.length_cons]
        omega
      dsimp only
      split_ifs
      · exact shorter
      · exact le_rfl
      · exact le_rfl

/-- What the cut of Microsoft's names leaves of the text before the parameter list. -/
def stripConst (result : Name) : Name :=
  Text.trimEnd ' '
    (if " const".toList.length < result.length ∧ " const".toList.isSuffixOf result then
      result.take (result.length - " const".toList.length)
    else result)

theorem stripQualifiers_eq (text : Name) :
    stripQualifiers text = stripConst (Text.upTo '(' text) := rfl

theorem length_stripConst_le (text : Name) : (stripConst text).length ≤ text.length := by
  refine (Text.length_trimEnd_le _ _).trans ?_
  split_ifs
  · exact List.length_take_le _ _ |>.trans (Nat.sub_le _ _)
  · exact le_rfl

theorem stripConst_eq_self_iff :
    stripConst qualified = qualified ↔ qualified.getLast? ≠ some ' ' ∧ KeepsConst qualified := by
  unfold stripConst KeepsConst
  by_cases const : " const".toList.length < qualified.length ∧ " const".toList <:+ qualified
  · rw [if_pos ⟨const.1, List.isSuffixOf_iff_suffix.mpr const.2⟩]
    refine iff_of_false (fun same => ?_) fun keeps => keeps.2 const
    have shorter := (congrArg List.length same).symm.le.trans (Text.length_trimEnd_le _ _)
    rw [List.length_take] at shorter
    have six : " const".toList.length = 6 := rfl
    have long := const.1
    omega
  · rw [if_neg (mt (And.imp_right List.isSuffixOf_iff_suffix.mp) const),
      Text.trimEnd_eq_self_iff]
    exact (and_iff_left const).symm

theorem demangleToQualified_of_declares (declares : Declares tools name qualified) :
    demangleToQualified tools name =
      if ReadByMicrosoft tools name then stripQualifiers (demangledText tools name)
      else stripReturnType (withoutParameters (demangledText tools name)) := by
  unfold demangleToQualified demangledText ReadByMicrosoft
  rw [if_neg declares.mangled, if_neg (by simp [declares.notRust])]
  by_cases microsoft : ['?'].isPrefixOf name = true
  · by_cases read : (tools.microsoftDemangle name).isSome = true
    · obtain ⟨result, found⟩ := Option.isSome_iff_exists.mp read
      simp [microsoft, found]
    · simp [Option.not_isSome_iff_eq_none.mp read]
  · simp [microsoft]

/-- The mapper reads the qualified name off exactly where nothing is cut from it. -/
theorem demangleToQualified_eq_self_iff (declares : Declares tools name qualified) :
    demangleToQualified tools name = qualified ↔ Uncut tools name qualified := by
  obtain ⟨rest, text⟩ := declares.text
  rw [demangleToQualified_of_declares declares, text, stripQualifiers_eq, withoutParameters]
  by_cases inside : '(' ∈ qualified
  · -- What is left is a part of the name before its own parenthesis.
    refine iff_of_false (fun same => ?_) fun uncut => uncut.noParenthesis inside
    have shorter := Text.length_upTo_append_lt inside ('(' :: rest)
    have same := congrArg List.length same
    have trimmed := Text.length_trimEnd_le ' ' (Text.upTo '(' (qualified ++ '(' :: rest))
    split_ifs at same
    · have left := length_stripConst_le (Text.upTo '(' (qualified ++ '(' :: rest))
      omega
    · have left := length_stripReturnType_le
        (Text.trimEnd ' ' (Text.upTo '(' (qualified ++ '(' :: rest)))
      omega
  · rw [Text.upTo_append_cons inside]
    by_cases microsoft : ReadByMicrosoft tools name
    · rw [if_pos microsoft, stripConst_eq_self_iff]
      exact ⟨fun ⟨blank, keeps⟩ => ⟨inside, blank, fun _ => keeps, (absurd microsoft ·)⟩,
        fun uncut => ⟨uncut.noBlank, uncut.const microsoft⟩⟩
    · rw [if_neg microsoft]
      by_cases blank : qualified.getLast? = some ' '
      · refine iff_of_false (fun same => ?_) fun uncut => uncut.noBlank blank
        have shorter := Text.length_trimEnd_lt blank
        have left := length_stripReturnType_le (Text.trimEnd ' ' qualified)
        rw [same] at left
        omega
      · rw [Text.trimEnd_eq_self_iff.mpr blank, stripReturnType_eq_self_iff]
        exact ⟨fun keeps => ⟨inside, blank, (absurd · microsoft), fun _ => keeps⟩,
          fun uncut => uncut.lastWord microsoft⟩

end Cut

variable {tools name}

/-- A function is known by its qualified name. -/
theorem qualifiedKey_of_uncut (tools : Toolchain) {func : IRFunction} {qualified : Name}
    (declares : Declares tools.toDemangler func.name qualified)
    (uncut : Uncut tools.toDemangler func.name qualified) (nonempty : qualified ≠ []) :
    qualifiedKey tools func = qualified := by
  rw [qualifiedKey, (demangleToQualified_eq_self_iff declares).mpr uncut]
  exact if_neg nonempty

/-- The parameter list alone is cut off exactly from the names that are not cut themselves, and
functions with such names are told apart by their keys. -/
theorem parameterList_stripped_iff (tools : Toolchain) :
    (∀ name qualified, Declares tools.toDemangler name qualified →
        (demangleToQualified tools.toDemangler name = qualified ↔
          Uncut tools.toDemangler name qualified)) ∧
      ∀ first second : IRFunction, ∀ qualified other,
        Declares tools.toDemangler first.name qualified →
        Declares tools.toDemangler second.name other →
        Uncut tools.toDemangler first.name qualified →
        Uncut tools.toDemangler second.name other → qualified ≠ [] → other ≠ [] →
        qualified ≠ other → qualifiedKey tools first ≠ qualifiedKey tools second := by
  refine ⟨fun name qualified declares => demangleToQualified_eq_self_iff declares, ?_⟩
  intro first second qualified other declares declares' uncut uncut' nonempty nonempty' apart
  rwa [qualifiedKey_of_uncut tools declares uncut nonempty,
    qualifiedKey_of_uncut tools declares' uncut' nonempty']

/-! ## Parentheses within names -/

def pointerNames : Name → Name := fun name =>
  if name = "_ZN3FooIPFiiEE3barEv".toList then "Foo<int (*)(int)>::bar()".toList
  else if name = "_ZN3FooIPFicEE3barEv".toList then "Foo<int (*)(char)>::bar()".toList
  else if name = "_ZN12_GLOBAL__N_11fEv".toList then "(anonymous namespace)::f()".toList
  else if name = "_ZN1AclEi".toList then "A::operator()(int)".toList
  else if name = "_ZN2ns4loadEi".toList then "ns::load(int)".toList
  else name

/-- Two methods of different classes share a key that is the name of neither, and nothing is left
of a name in an anonymous namespace. -/
theorem parameterList_merges :
    Declares (Toolchain.demangling pointerNames).toDemangler "_ZN3FooIPFiiEE3barEv".toList
        "Foo<int (*)(int)>::bar".toList ∧
      Declares (Toolchain.demangling pointerNames).toDemangler "_ZN3FooIPFicEE3barEv".toList
        "Foo<int (*)(char)>::bar".toList ∧
      demangleToQualified (Toolchain.demangling pointerNames).toDemangler
        "_ZN3FooIPFiiEE3barEv".toList = "Foo<int".toList ∧
      demangleToQualified (Toolchain.demangling pointerNames).toDemangler
        "_ZN3FooIPFicEE3barEv".toList = "Foo<int".toList ∧
      demangleToQualified (Toolchain.demangling pointerNames).toDemangler
        "_ZN12_GLOBAL__N_11fEv".toList = [] ∧
      demangleToQualified (Toolchain.demangling pointerNames).toDemangler
        "_ZN1AclEi".toList = "A::operator".toList := by
  refine ⟨⟨by decide, by decide, [')'], by decide⟩, ⟨by decide, by decide, [')'], by decide⟩,
    by decide, by decide, by decide, by decide⟩

theorem parameterList_stripped_load :
    demangleToQualified (Toolchain.demangling pointerNames).toDemangler "_ZN2ns4loadEi".toList =
      "ns::load".toList := by
  have plain : ' ' ∉ "ns::load".toList := by decide
  have stripped := (parameterList_stripped_iff (.demangling pointerNames)).1
    "_ZN2ns4loadEi".toList "ns::load".toList
    ⟨by decide, by decide, "int)".toList, by decide⟩
  refine stripped.mpr ⟨by decide, by decide, fun read => absurd read (by decide), fun _ => ?_⟩
  intro front word split
  exact absurd (by rw [split]; simp) plain

end Backend
end TopoLlvm
