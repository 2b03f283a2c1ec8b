import TopoLlvm.Backend.Names

/-!
# Keys of Rust functions

A demangled Rust path may end with a hash, the segment `::h` with sixteen hex digits.
`demangleToQualified` takes any last segment for one that is `h` and hex digits, as `head` is, and
it cuts Rust paths at parentheses too.
-/

namespace TopoLlvm
namespace Backend
namespace RustPaths

def isHexDigit (letter : Char) : Bool :=
  letter.isDigit || ('a' ≤ letter && letter ≤ 'f') || ('A' ≤ letter && letter ≤ 'F')

/-- The text ends with a segment that `stripHash` takes for a hash. -/
def EndsLikeHash (demangled before digits : Name) : Prop :=
  demangled = before ++ [':', ':', 'h'] ++ digits ∧ digits ≠ [] ∧ digits.all isHexDigit = true

/-- The Rust path in a demangled text: all of it but a hash that ends it. -/
inductive PathOf (demangled : Name) : Name → Prop where
  | hashed {path digits : Name} (ends : EndsLikeHash demangled path digits)
      (full : digits.length = 16) : PathOf demangled path
  | plain (bare : ∀ before digits, EndsLikeHash demangled before digits → digits.length ≠ 16) :
      PathOf demangled demangled

/-- Nothing of the demangled text is cut but a hash. -/
structure Uncut (demangled : Name) : Prop where
  noParenthesis : '(' ∉ demangled
  noBlank : demangled.getLast? ≠ some ' '
  noWord : ∀ before digits, EndsLikeHash demangled before digits → digits.length = 16

section

variable {demangled before digits path : Name}

theorem isHexDigit_of_mem (hex : digits.all isHexDigit = true) {letter : Char}
    (member : letter ∈ digits) : isHexDigit letter = true := List.all_eq_true.mp hex letter member

/-- The segment is the last one that begins as a hash. -/
theorem EndsLikeHash.rsplit (ends : EndsLikeHash demangled before digits) :
    Text.rsplit [':', ':', 'h'] demangled = some (before, digits) := by
  obtain ⟨split, -, hex⟩ := ends
  refine (Text.rsplit_eq_some (List.cons_ne_nil _ _)).mpr ⟨split, fun again => ?_⟩
  have colons := again.sublist.count_le ':'
  have none : digits.count ':' = 0 :=
    List.count_eq_zero.mpr fun member => absurd (isHexDigit_of_mem hex member) (by decide)
  simp [none] at colons

theorem stripHash_of_rsplit
    (found : Text.rsplit [':', ':', 'h'] demangled = some (before, digits)) :
    stripHash demangled =
      if (!digits.isEmpty && digits.all isHexDigit) = true then before else demangled := by
  unfold stripHash
  rw [found]
  rfl

theorem EndsLikeHash.stripHash (ends : EndsLikeHash demangled before digits) :
    stripHash demangled = before := by
  rw [stripHash_of_rsplit ends.rsplit, if_pos (by simpa using ends.2)]

/-- A text that does not end like a hash is kept. -/
theorem stripHash_of_not_endsLikeHash
    (plain : ∀ before digits, ¬EndsLikeHash demangled before digits) :
    stripHash demangled = demangled := by
  cases found : Text.rsplit [':', ':', 'h'] demangled with
  | none =>
      unfold stripHash
      rw [found]
  | some parts =>
      obtain ⟨before, digits⟩ := parts
      rw [stripHash_of_rsplit found, if_neg]
      intro hex
      rw [Bool.and_eq_true] at hex
      have split := (Text.rsplit_eq_some (List.cons_ne_nil _ _)).mp found
      exact plain before digits ⟨split.1, by simpa using hex.1, hex.2⟩

theorem stripHash_begins (demangled : Name) : stripHash demangled <+: demangled := by
  by_cases ends : ∃ before digits, EndsLikeHash demangled before digits
  · obtain ⟨before, digits, ends⟩ := ends
    rw [ends.stripHash]
    exact ⟨_, (List.append_assoc _ _ _).symm.trans ends.1.symm⟩
  · rw [stripHash_of_not_endsLikeHash fun before digits ends' => ends ⟨before, digits, ends'⟩]

theorem withoutParameters_begins (demangled : Name) :
    withoutParameters demangled <+: demangled :=
  (List.rdropWhile_prefix _ _).trans (List.takeWhile_prefix _)

theorem withoutParameters_eq_self_iff :
    withoutParameters demangled = demangled ↔
      '(' ∉ demangled ∧ demangled.getLast? ≠ some ' ' := by
  constructor
  · intro same
    obtain ⟨-, -, -, before, trimmed, -⟩ := hasBase_iff.mpr same.symm
    exact ⟨before, trimmed⟩
  · rintro ⟨before, trimmed⟩
    exact (hasBase_iff.mp ⟨0, [], by simp, before, trimmed, .inl rfl⟩).symm

/-- A text has one path. -/
theorem PathOf.unique {other : Name} (first : PathOf demangled path)
    (second : PathOf demangled other) : path = other := by
  cases first with
  | hashed ends full =>
      cases second with
      | hashed again _ => exact ends.stripHash.symm.trans again.stripHash
      | plain bare => exact absurd full (bare _ _ ends)
  | plain bare =>
      cases second with
      | hashed ends full => exact absurd full (bare _ _ ends)
      | plain _ => rfl

theorem EndsLikeHash.unique {other rest : Name} (ends : EndsLikeHash demangled before digits)
    (also : EndsLikeHash demangled other rest) : rest = digits := by
  cases ends.rsplit.symm.trans also.rsplit
  rfl

/-- A text whose path ends before a hash has no parenthesis and no blank at its end if the path has
no parenthesis. -/
theorem EndsLikeHash.uncut (ends : EndsLikeHash demangled path digits)
    (full : digits.length = 16) (outside : '(' ∉ path) : Uncut demangled where
  noParenthesis := by
    rw [ends.1]
    intro member
    rcases List.mem_append.mp member with inFront | inDigits
    · rcases List.mem_append.mp inFront with inPath | inMark
      · exact outside inPath
      · exact absurd inMark (by decide)
    · exact absurd (isHexDigit_of_mem ends.2.2 inDigits) (by decide)
  noBlank := by
    rw [ends.1, List.getLast?_append_of_ne_nil _ ends.2.1]
    intro last
    exact absurd (isHexDigit_of_mem ends.2.2 (List.mem_of_getLast? last)) (by decide)
  noWord _ rest also := ends.unique also ▸ full

/-- What is left of a demangled text is its path exactly where nothing but a hash is cut. -/
theorem pathOf_stripHash_iff :
    PathOf demangled (stripHash (withoutParameters demangled)) ↔ Uncut demangled := by
  constructor
  · intro isPath
    have shorter := stripHash_begins (withoutParameters demangled)
    generalize same : stripHash (withoutParameters demangled) = key at isPath shorter
    cases isPath with
    | hashed ends full =>
        obtain ⟨-, -, -, outside, -⟩ := hasBase_iff.mpr (rfl : withoutParameters demangled = _)
        exact ends.uncut full fun member => outside (shorter.subset member)
    | plain bare =>
        have whole : withoutParameters demangled = demangled :=
          (withoutParameters_begins demangled).eq_of_length_le shorter.length_le
        obtain ⟨noParenthesis, noBlank⟩ := withoutParameters_eq_self_iff.mp whole
        refine ⟨noParenthesis, noBlank, fun before digits ends => ?_⟩
        rw [whole, ends.stripHash] at same
        have longer := congrArg List.length ends.1
        simp [same] at longer
  · intro uncut
    rw [withoutParameters_eq_self_iff.mpr ⟨uncut.noParenthesis, uncut.noBlank⟩]
    by_cases ends : ∃ before digits, EndsLikeHash demangled before digits
    · obtain ⟨before, digits, ends⟩ := ends
      rw [ends.stripHash]
      exact .hashed ends (uncut.noWord before digits ends)
    · have never before digits : ¬EndsLikeHash demangled before digits :=
        fun found => ends ⟨before, digits, found⟩
      rw [stripHash_of_not_endsLikeHash never]
      exact .plain fun before digits found => absurd found (never before digits)

end

/-- A function under a mangled Rust name that the demangler knows. -/
structure RustFunction (tools : Demangler) where
  name : Name
  mangled : ['_', 'R'].isPrefixOf name = true
  known : tools.demangle name ≠ name

variable {tools : Demangler}

def RustFunction.demangled (func : RustFunction tools) : Name := tools.demangle func.name

def RustFunction.key (func : RustFunction tools) : Name := demangleToQualified tools func.name

theorem RustFunction.key_eq (func : RustFunction tools) :
    func.key = stripHash (withoutParameters func.demangled) := by
  unfold RustFunction.key demangleToQualified
  simp only [func.known, func.mangled, if_true, if_false]
  rfl

/-- Each function has its path for a key, and functions with different paths have different keys,
exactly where nothing but a hash is cut from a name. -/
theorem keys_are_paths_iff (functions : List (RustFunction tools)) :
    ((∀ func ∈ functions, PathOf func.demangled func.key) ∧
        ∀ func ∈ functions, ∀ other ∈ functions, ∀ path otherPath,
          PathOf func.demangled path → PathOf other.demangled otherPath → path ≠ otherPath →
            func.key ≠ other.key) ↔
      ∀ func ∈ functions, Uncut func.demangled := by
  have each (func : RustFunction tools) :
      PathOf func.demangled func.key ↔ Uncut func.demangled := by
    rw [func.key_eq]
    exact pathOf_stripHash_iff
  constructor
  · rintro ⟨paths, -⟩ func member
    exact (each func).mp (paths func member)
  · intro uncut
    have paths : ∀ func ∈ functions, PathOf func.demangled func.key :=
      fun func member => (each func).mpr (uncut func member)
    refine ⟨paths, ?_⟩
    intro func member other otherMember path otherPath isPath isOther different same
    have first := isPath.unique (paths func member)
    have second := isOther.unique (paths other otherMember)
    exact different (first.trans (same.trans second.symm))

theorem PathOf.of_short {demangled : Name} (short : demangled.length < 19) :
    PathOf demangled demangled := by
  refine .plain fun before digits ends full => ?_
  have length := congrArg List.length ends.1
  simp only [List.length_append, List.length_cons, List.length_nil] at length
  omega

/-- `geometry::head` and `geometry::hface`. -/
def geometryTools : Demangler where
  demangle name :=
    if name = "_RNvC8geometry4head".toList then "geometry::head".toList
    else if name = "_RNvC8geometry5hface".toList then "geometry::hface".toList
    else name
  microsoftDemangle _ := none

def geometryHead : RustFunction geometryTools where
  name := "_RNvC8geometry4head".toList
  mangled := by decide
  known := by decide

def geometryFace : RustFunction geometryTools where
  name := "_RNvC8geometry5hface".toList
  mangled := by decide
  known := by decide

/-- The two functions have different paths and one key, which is neither. -/
theorem geometry_functions_share_key :
    geometryHead.key = "geometry".toList ∧ geometryFace.key = "geometry".toList ∧
      PathOf geometryHead.demangled "geometry::head".toList ∧
      PathOf geometryFace.demangled "geometry::hface".toList := by
  refine ⟨by decide, by decide, ?_, ?_⟩
  · exact @PathOf.of_short geometryHead.demangled (by decide)
  · exact @PathOf.of_short geometryFace.demangled (by decide)

end RustPaths
end Backend
end TopoLlvm
