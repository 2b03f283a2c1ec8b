import TopoLlvm.Library.Text

/-!
# Qualified names of symbols

The name normalizers of the symbol mapper and of the JIT engine, over the text that the demangler
returns.  `Spells` says of a symbol, in terms of that text alone, which name the engine reads off.
-/

namespace TopoLlvm
namespace Backend

/-- A `std::string`. -/
abbrev Name := List Char

/-- The demanglers of LLVM. -/
structure Demangler where
  /-- `llvm::demangle`, which returns a name that it does not know as it is. -/
  demangle : Name → Name
  /-- `llvm::microsoftDemangle` without return type, calling convention, access specifier and
  member type. -/
  microsoftDemangle : Name → Option Name

/-- The demangled text without its parameter list and the spaces before it. -/
def withoutParameters (demangled : Name) : Name := Text.trimEnd ' ' (Text.upTo '(' demangled)

/-- The text begins as an identifier does. -/
def startsIdentifier : Name → Bool
  | [] => false
  | letter :: _ => letter.isAlpha || letter = '_'

/-- What follows the last space, if that begins as an identifier does. -/
def lastWord (demangled : Name) : Name :=
  match Text.rsplit [' '] demangled with
  | none => demangled
  | some (_, candidate) => if startsIdentifier candidate then candidate else demangled

variable (tools : Demangler) (name : Name)

/-- The engine's normalizer, empty for a symbol that is not mangled. -/
def demangleQualified : Name :=
  let demangled := tools.demangle name
  if demangled = name then [] else lastWord (withoutParameters demangled)

/-- The text without the hash that may end the name of a Rust function. -/
def stripHash (demangled : Name) : Name :=
  match Text.rsplit [':', ':', 'h'] demangled with
  | none => demangled
  | some (before, suffix) =>
      if !suffix.isEmpty && suffix.all fun letter =>
          letter.isDigit || ('a' ≤ letter && letter ≤ 'f') || ('A' ≤ letter && letter ≤ 'F') then
        before
      else demangled

/-- The text without a leading return type; a space within a qualified or a template name is
kept. -/
def stripReturnType (demangled : Name) : Name :=
  match Text.rsplit [' '] demangled with
  | none => demangled
  | some (beforeSpace, candidate) =>
      if (Text.split [':', ':'] beforeSpace).isNone && !beforeSpace.contains '<' then
        if startsIdentifier candidate then candidate else demangled
      else demangled

/-- The qualified name in what the Microsoft demangler returns. -/
def stripQualifiers (result : Name) : Name :=
  let result := Text.upTo '(' result
  let const := " const".toList
  let result := if const.length < result.length ∧ const.isSuffixOf result then
      result.take (result.length - const.length)
    else result
  Text.trimEnd ' ' result

/-- The mapper's normalizer, empty for a symbol that is not mangled. -/
def demangleToQualified : Name :=
  let demangled := tools.demangle name
  if demangled = name then []
  else
    let demangled := withoutParameters demangled
    if ['_', 'R'].isPrefixOf name then stripHash demangled
    else if ['?'].isPrefixOf name then
      match tools.microsoftDemangle name with
      | some result => stripQualifiers result
      | none => stripReturnType demangled
    else stripReturnType demangled

/-- Other keys of a Rust method whose demangled name is `<Type>::method`. -/
def rustImplCandidates (qualified : Name) : List Name :=
  if qualified.length < 4 ∨ qualified.head? ≠ some '<' then []
  else
    match Text.rsplit ['>', ':', ':'] qualified with
    | none => []
    | some (opened, method) =>
        let self := opened.drop 1
        if self.isEmpty || method.isEmpty then []
        else
          let self := match Text.split " as ".toList self with
            | none => self
            | some (type, _) => type
          if self.isEmpty then []
          else
            (self ++ [':', ':'] ++ method) ::
              match Text.rsplit [':', ':'] self with
              | none => []
              | some (_, type) => [type ++ [':', ':'] ++ method]

/-- A text reads `base` up to the spaces before its first parenthesis. -/
def HasBase (text base : Name) : Prop :=
  ∃ count rest, text = base ++ List.replicate count ' ' ++ rest ∧ '(' ∉ base ∧
    base.getLast? ≠ some ' ' ∧ (rest = [] ∨ rest.head? = some '(')

/-- The symbol is mangled, and before its parameter list the demangled text is `qualified`, or
ends with `qualified` as the word after the last space. -/
def Reads (qualified : Name) : Prop :=
  tools.demangle name ≠ name ∧ ∃ base, HasBase (tools.demangle name) base ∧
    (base = qualified ∧ (∀ front word, base = front ++ ' ' :: word → ' ' ∉ word →
        startsIdentifier word = false) ∨
      ∃ front, base = front ++ ' ' :: qualified ∧ ' ' ∉ qualified ∧
        startsIdentifier qualified = true)

/-- The symbol reads a name that is not empty. -/
def Spells (qualified : Name) : Prop := qualified ≠ [] ∧ Reads tools name qualified

theorem hasBase_iff {text base : Name} : HasBase text base ↔ base = withoutParameters text := by
  constructor
  · rintro ⟨count, rest, rfl, before, trimmed, stops⟩
    exact (Text.trimEnd_upTo count (by decide) before trimmed stops).symm
  · rintro rfl
    exact Text.exists_base '(' ' ' text

/-- A text is its own last word, or ends with it. -/
theorem lastWord_eq_iff {base qualified : Name} : lastWord base = qualified ↔
    base = qualified ∧ (∀ front word, base = front ++ ' ' :: word → ' ' ∉ word →
        startsIdentifier word = false) ∨
      ∃ front, base = front ++ ' ' :: qualified ∧ ' ' ∉ qualified ∧
        startsIdentifier qualified = true := by
  unfold lastWord
  cases found : Text.rsplit [' '] base with
  | none =>
      have single := Text.rsplit_singleton_eq_none.mp found
      constructor
      · intro same
        refine .inl ⟨same, fun front word split _ => ?_⟩
        exact absurd (by simp [split]) single
      · rintro (⟨same, -⟩ | ⟨front, split, -⟩)
        · exact same
        · exact absurd (by simp [split]) single
  | some parts =>
      obtain ⟨front, word⟩ := parts
      have split := Text.rsplit_singleton_eq_some.mp found
      have unique {other rest : Name} (also : base = other ++ ' ' :: rest) (last : ' ' ∉ rest) :
          rest = word := by
        have again := Text.rsplit_singleton_eq_some.mpr ⟨also, last⟩
        cases found.symm.trans again
        rfl
      simp only
      split
      · rename_i identifier
        constructor
        · rintro rfl
          exact .inr ⟨front, split.1, split.2, identifier⟩
        · rintro (⟨-, plain⟩ | ⟨other, also, last, -⟩)
          · cases identifier.symm.trans (plain front word split.1 split.2)
          · exact (unique also last).symm
      · rename_i plain
        constructor
        · intro same
          refine .inl ⟨same, fun other rest also last => ?_⟩
          rw [unique also last]
          exact Bool.eq_false_iff.mpr plain
        · rintro (⟨same, -⟩ | ⟨other, also, last, identifier⟩)
          · exact same
          · rw [unique also last] at identifier
            exact absurd identifier plain

/-- What a mangled symbol reads. -/
theorem reads_iff {qualified : Name} : Reads tools name qualified ↔
    tools.demangle name ≠ name ∧
      lastWord (withoutParameters (tools.demangle name)) = qualified := by
  simp only [Reads, hasBase_iff, exists_eq_left, ← lastWord_eq_iff]

/-- The engine reads off what the symbol spells. -/
theorem demangleQualified_eq_iff {qualified : Name} (nonempty : qualified ≠ []) :
    demangleQualified tools name = qualified ↔ Spells tools name qualified := by
  unfold demangleQualified Spells
  rw [reads_iff]
  simp only
  split
  · rename_i plain
    simp [plain, nonempty.symm]
  · rename_i mangled
    simp [mangled, nonempty]

/-- Where nothing that looks like a part of a name precedes the last space, the mapper and the
engine read the same off a symbol that is neither Rust's nor Microsoft's. -/
theorem demangleToQualified_eq_demangleQualified (rust : ['_', 'R'].isPrefixOf name = false)
    (microsoft : ['?'].isPrefixOf name = false)
    (plain : ∀ front word, withoutParameters (tools.demangle name) = front ++ ' ' :: word →
      ' ' ∉ word → Text.split [':', ':'] front = none ∧ '<' ∉ front) :
    demangleToQualified tools name = demangleQualified tools name := by
  unfold demangleToQualified demangleQualified
  simp only [rust, microsoft, Bool.false_eq_true, if_false]
  split
  · rfl
  · unfold stripReturnType lastWord
    cases found : Text.rsplit [' '] (withoutParameters (tools.demangle name)) with
    | none => rfl
    | some parts =>
        obtain ⟨front, word⟩ := parts
        obtain ⟨split, last⟩ := Text.rsplit_singleton_eq_some.mp found
        obtain ⟨unqualified, untemplated⟩ := plain front word split last
        simp [unqualified, untemplated]

end Backend
end TopoLlvm
