import TopoLlvm.Backend.Names
import TopoLlvm.Library.Segments

/-!
# Template arguments in one spelling

The verifier compares an instantiation with a demangled name after it has replaced the typedef names
among the template arguments and dropped blanks around them.  Arguments are normalized one by one;
where an argument has several words, or its canonical name has, the result is not stable.
-/

namespace TopoLlvm
namespace Backend

/-- The table of `canonicalizeTypeName`. -/
def canonicalNames : List (Name × Name) :=
  [("int32_t", "int"), ("uint32_t", "unsigned int"), ("int64_t", "long"),
    ("uint64_t", "unsigned long"), ("int16_t", "short"), ("uint16_t", "unsigned short"),
    ("int8_t", "signed char"), ("uint8_t", "unsigned char"), ("size_t", "unsigned long"),
    ("float32_t", "float"), ("float64_t", "double")].map
      fun entry => (entry.1.toList, entry.2.toList)

/-- The name of a fixed-width typedef. -/
def IsTypedef (name : Name) : Prop := name ∈ canonicalNames.map Prod.fst

instance (name : Name) : Decidable (IsTypedef name) :=
  inferInstanceAs (Decidable (name ∈ canonicalNames.map Prod.fst))

def canonicalizeTypeName (name : Name) : Name := (canonicalNames.lookup name).getD name

/-- What an argument stands behind. -/
def isSeparator (letter : Char) : Bool := letter = '<' || letter = ','

/-- The letters of a token. -/
def inToken (letter : Char) : Bool :=
  !(letter = ',' || letter = '>' || letter = '<' || letter = ' ')

def isBlank (letter : Char) : Bool := letter = ' '

def normalizeTemplateArgs : Name → Name
  | [] => []
  | letter :: rest =>
      if isSeparator letter then
        let argument := rest.dropWhile isBlank
        letter :: (canonicalizeTypeName (argument.takeWhile inToken) ++
          normalizeTemplateArgs ((argument.dropWhile inToken).dropWhile isBlank))
      else letter :: normalizeTemplateArgs rest
termination_by name => name.length
decreasing_by
  · have blanks := (List.dropWhile_sublist (l := rest) isBlank).length_le
    have token := (List.dropWhile_sublist (l := rest.dropWhile isBlank) inToken).length_le
    have after := (List.dropWhile_sublist (l := (rest.dropWhile isBlank).dropWhile inToken)
      isBlank).length_le
    simp only [List.length_cons]
    omega
  · simp

/-! ## One argument -/

/-- The first word of the text between two separators. -/
def firstToken (argument : Name) : Name := (argument.dropWhile isBlank).takeWhile inToken

/-- What follows the first word and the blanks behind it. -/
def afterToken (argument : Name) : Name :=
  ((argument.dropWhile isBlank).dropWhile inToken).dropWhile isBlank

/-- What the scan makes of the text between two separators. -/
def normalizeArgument (argument : Name) : Name :=
  canonicalizeTypeName (firstToken argument) ++ afterToken argument

open Segments (Clean Parted join cut)

theorem clean_canonicalizeTypeName {name : Name} (clean : Clean isSeparator name) :
    Clean isSeparator (canonicalizeTypeName name) := by
  unfold canonicalizeTypeName
  cases found : canonicalNames.lookup name with
  | none => exact clean
  | some canonical =>
      obtain ⟨before, after, split, -⟩ := List.lookup_eq_some_iff.mp found
      have member : (name, canonical) ∈ canonicalNames :=
        split ▸ List.mem_append_right _ (List.mem_cons_self ..)
      have clean : ∀ entry ∈ canonicalNames, entry.2.all (!isSeparator ·) = true := by decide
      intro letter within
      simpa using List.all_eq_true.mp (clean _ member) letter within

theorem clean_normalizeArgument {argument : Name} (clean : Clean isSeparator argument) :
    Clean isSeparator (normalizeArgument argument) :=
  (clean_canonicalizeTypeName ((clean.dropWhile _).takeWhile _)).append
    (((clean.dropWhile _).dropWhile _).dropWhile _)

theorem isBlank_of_separator (letter : Char) (separates : isSeparator letter = true) :
    isBlank letter = false := by
  unfold isSeparator at separates
  unfold isBlank
  rcases Bool.or_eq_true_iff.mp separates with opens | comma
  · rw [of_decide_eq_true opens]
    decide
  · rw [of_decide_eq_true comma]
    decide

theorem inToken_of_separator (letter : Char) (separates : isSeparator letter = true) :
    inToken letter = false := by
  unfold isSeparator at separates
  unfold inToken
  rcases Bool.or_eq_true_iff.mp separates with opens | comma
  · rw [of_decide_eq_true opens]
    decide
  · rw [of_decide_eq_true comma]
    decide

/-- What stands before the first separator is copied. -/
theorem normalizeTemplateArgs_append {front : Name} (clean : Clean isSeparator front)
    (rest : Name) :
    normalizeTemplateArgs (front ++ rest) = front ++ normalizeTemplateArgs rest := by
  induction front with
  | nil => rfl
  | cons letter front ih =>
      obtain ⟨plain, clean⟩ := Segments.clean_cons.mp clean
      rw [List.cons_append, normalizeTemplateArgs, plain, if_neg Bool.false_ne_true, ih clean]
      rfl

/-- Each argument is normalized by itself. -/
theorem normalizeTemplateArgs_join {parts : List (Char × Name)}
    (parted : Parted isSeparator parts) :
    normalizeTemplateArgs (join parts) =
      join (parts.map fun part => (part.1, normalizeArgument part.2)) := by
  induction parts with
  | nil => rw [Segments.join_nil, normalizeTemplateArgs]; rfl
  | cons part parts ih =>
      obtain ⟨⟨separates, clean⟩, parted⟩ := Segments.parted_cons.mp parted
      rw [Segments.join_cons, normalizeTemplateArgs, if_pos separates,
        Segments.dropWhile_append_join isBlank isBlank_of_separator parted]
      dsimp only
      rw [Segments.takeWhile_append_join inToken inToken_of_separator parted,
        Segments.dropWhile_append_join inToken inToken_of_separator parted,
        Segments.dropWhile_append_join isBlank isBlank_of_separator parted,
        normalizeTemplateArgs_append (((clean.dropWhile _).dropWhile _).dropWhile _), ih parted,
        List.map_cons, Segments.join_cons, normalizeArgument, List.append_assoc]
      rfl

/-- The texts between the separators of a name. -/
def argumentTexts (name : Name) : List Name := (cut isSeparator name).2.map Prod.snd

theorem normalizeTemplateArgs_eq (name : Name) :
    normalizeTemplateArgs name = (cut isSeparator name).1 ++
      join ((cut isSeparator name).2.map fun part => (part.1, normalizeArgument part.2)) := by
  obtain ⟨clean, parted⟩ := Segments.cut_spec isSeparator name
  conv_lhs => rw [← Segments.append_join_cut isSeparator name]
  rw [normalizeTemplateArgs_append clean, normalizeTemplateArgs_join parted]

/-! ## Stable arguments -/

/-- The normalized argument is read again as it is: its first word is one word, nothing behind it
makes a typedef name of it, and no blank follows what is joined to it. -/
structure StableArgument (argument : Name) : Prop where
  oneWord : ' ' ∉ canonicalizeTypeName (firstToken argument)
  noTypedef : ¬IsTypedef (canonicalizeTypeName (firstToken argument) ++
    (afterToken argument).takeWhile inToken)
  noBlank : ((afterToken argument).dropWhile inToken).head? ≠ some ' '

theorem canonicalizeTypeName_of_not_typedef {name : Name} (other : ¬IsTypedef name) :
    canonicalizeTypeName name = name := by
  unfold canonicalizeTypeName
  cases found : canonicalNames.lookup name with
  | none => rfl
  | some canonical =>
      obtain ⟨before, after, split, -⟩ := List.lookup_eq_some_iff.mp found
      exact absurd (List.mem_map.mpr ⟨(name, canonical),
        split ▸ List.mem_append_right _ (List.mem_cons_self ..), rfl⟩) other

theorem inToken_firstToken (argument : Name) :
    ∀ letter ∈ firstToken argument, inToken letter = true :=
  fun _ member => List.mem_takeWhile_imp member

theorem not_blank_of_inToken {letter : Char} (within : inToken letter = true) :
    isBlank letter = false := by
  unfold inToken at within
  unfold isBlank
  simp only [Bool.not_eq_true', Bool.or_eq_false_iff, decide_eq_false_iff_not] at within
  exact decide_eq_false within.2

theorem dropWhile_isBlank_eq_self_iff {text : Name} :
    text.dropWhile isBlank = text ↔ text.head? ≠ some ' ' := by
  cases text with
  | nil => simp
  | cons letter text =>
      by_cases blank : letter = ' '
      · subst blank
        simp only [List.head?_cons, ne_eq, not_true, iff_false]
        intro same
        have shorter := (List.dropWhile_sublist isBlank (l := text)).length_le
        have lengths := congrArg List.length same
        rw [List.dropWhile_cons_of_pos (by decide), List.length_cons] at lengths
        omega
      · rw [List.dropWhile_cons_of_neg (by simpa [isBlank] using blank)]
        simpa using blank

theorem head?_afterToken (argument : Name) : (afterToken argument).head? ≠ some ' ' :=
  dropWhile_isBlank_eq_self_iff.mp (List.dropWhile_idempotent isBlank _)

/-- A canonical name of one word is a token. -/
theorem IsTypedef.inToken_canonicalizeTypeName {name : Name} (isTypedef : IsTypedef name)
    (oneWord : ' ' ∉ canonicalizeTypeName name) :
    ∀ letter ∈ canonicalizeTypeName name, inToken letter = true := by
  have all : ∀ name ∈ canonicalNames.map Prod.fst, ' ' ∉ canonicalizeTypeName name →
      (canonicalizeTypeName name).all inToken = true := by decide
  exact List.all_eq_true.mp (all name isTypedef oneWord)

theorem inToken_canonicalizeTypeName {argument : Name}
    (oneWord : ' ' ∉ canonicalizeTypeName (firstToken argument)) :
    ∀ letter ∈ canonicalizeTypeName (firstToken argument), inToken letter = true := by
  by_cases isTypedef : IsTypedef (firstToken argument)
  · exact isTypedef.inToken_canonicalizeTypeName oneWord
  · rw [canonicalizeTypeName_of_not_typedef isTypedef]
    exact inToken_firstToken argument

/-- A token at the front of a text is joined to what follows it up to the end of a token. -/
theorem normalizeArgument_append {token rest : Name}
    (within : ∀ letter ∈ token, inToken letter = true)
    (start : token ≠ [] ∨ rest.head? ≠ some ' ') :
    normalizeArgument (token ++ rest) = canonicalizeTypeName (token ++ rest.takeWhile inToken) ++
      (rest.dropWhile inToken).dropWhile isBlank := by
  have noBlank : (token ++ rest).dropWhile isBlank = token ++ rest := by
    rw [dropWhile_isBlank_eq_self_iff]
    cases token with
    | nil => exact start.resolve_left (absurd rfl)
    | cons letter token =>
        intro blank
        obtain rfl : letter = ' ' := by simpa using blank
        exact absurd (within ' ' (List.mem_cons_self ..)) (by decide)
  rw [normalizeArgument, firstToken, afterToken, noBlank,
    List.takeWhile_append_of_pos within, List.dropWhile_append_of_pos within]

/-- A typedef name is not one of the texts that its canonical name begins. -/
theorem canonicalizeTypeName_append_ne {name : Name} (isTypedef : IsTypedef name)
    {rest shorter : Name} (le : shorter.length ≤ rest.length) :
    canonicalizeTypeName name ++ shorter ≠ name ++ rest := by
  have all : ∀ name ∈ canonicalNames.map Prod.fst,
      (canonicalizeTypeName name).length < name.length ∨
        ¬ name <+: canonicalizeTypeName name ∧
          name.length ≤ (canonicalizeTypeName name).length := by decide
  intro same
  rcases all name isTypedef with less | ⟨apart, longer⟩
  · have lengths := congrArg List.length same
    simp only [List.length_append] at lengths
    omega
  · exact apart (List.prefix_of_prefix_length_le (List.prefix_append name rest)
      (same ▸ List.prefix_append _ _) longer)

/-- A canonical name of several words is cut at its blank. -/
theorem length_normalizeArgument_lt {name : Name} (isTypedef : IsTypedef name)
    (several : ' ' ∈ canonicalizeTypeName name) (rest : Name) :
    (normalizeArgument (canonicalizeTypeName name ++ rest)).length <
      (canonicalizeTypeName name ++ rest).length := by
  have all : ∀ name ∈ canonicalNames.map Prod.fst, ' ' ∈ canonicalizeTypeName name →
      ((canonicalizeTypeName name).dropWhile inToken).head? = some ' ' ∧
        canonicalizeTypeName ((canonicalizeTypeName name).takeWhile inToken) =
          (canonicalizeTypeName name).takeWhile inToken ∧
        (canonicalizeTypeName name).takeWhile inToken ≠ [] := by decide
  obtain ⟨blank, same, some⟩ := all name isTypedef several
  obtain ⟨more, split⟩ := List.head?_eq_some_iff.mp blank
  have words : canonicalizeTypeName name =
      (canonicalizeTypeName name).takeWhile inToken ++ ' ' :: more := by
    rw [← split, List.takeWhile_append_dropWhile]
  have scanned : normalizeArgument (canonicalizeTypeName name ++ rest) =
      (canonicalizeTypeName name).takeWhile inToken ++ (more ++ rest).dropWhile isBlank := by
    have outside : inToken ' ' = false := by decide
    have joined := @normalizeArgument_append _ (' ' :: (more ++ rest))
      (fun _ member => List.mem_takeWhile_imp member) (.inl some)
    rw [List.takeWhile_cons_of_neg (by simp [outside]), List.append_nil, same,
      List.dropWhile_cons_of_neg (by simp [outside]), List.dropWhile_cons_of_pos (by decide)]
      at joined
    rw [← joined]
    conv_lhs => rw [words, List.append_assoc, List.cons_append]
  have shorter := (List.dropWhile_sublist (l := more ++ rest) isBlank).length_le
  rw [scanned]
  conv_rhs => rw [words]
  simp only [List.length_append, List.length_cons] at shorter ⊢
  omega

/-- The argument is stable exactly where its normalization is. -/
theorem normalizeArgument_idem_iff (argument : Name) :
    normalizeArgument (normalizeArgument argument) = normalizeArgument argument ↔
      StableArgument argument := by
  by_cases oneWord : ' ' ∈ canonicalizeTypeName (firstToken argument)
  · have isTypedef : IsTypedef (firstToken argument) := by
      by_contra other
      rw [canonicalizeTypeName_of_not_typedef other] at oneWord
      exact absurd (inToken_firstToken argument ' ' oneWord) (by decide)
    refine iff_of_false (fun same => ?_) fun stable => stable.oneWord oneWord
    have shorter := length_normalizeArgument_lt isTypedef oneWord (afterToken argument)
    rw [← normalizeArgument, same] at shorter
    exact lt_irrefl _ shorter
  · have joined := normalizeArgument_append (inToken_canonicalizeTypeName oneWord)
      (.inr (head?_afterToken argument))
    rw [← normalizeArgument] at joined
    have whole : normalizeArgument argument = (canonicalizeTypeName (firstToken argument) ++
        (afterToken argument).takeWhile inToken) ++ (afterToken argument).dropWhile inToken := by
      rw [normalizeArgument, List.append_assoc, List.takeWhile_append_dropWhile]
    by_cases isTypedef : IsTypedef (canonicalizeTypeName (firstToken argument) ++
        (afterToken argument).takeWhile inToken)
    · refine iff_of_false ?_ fun stable => stable.noTypedef isTypedef
      rw [joined, whole]
      exact canonicalizeTypeName_append_ne isTypedef (List.dropWhile_sublist _).length_le
    · rw [joined, canonicalizeTypeName_of_not_typedef isTypedef, whole, List.append_right_inj,
        dropWhile_isBlank_eq_self_iff]
      exact ⟨fun noBlank => ⟨oneWord, isTypedef, noBlank⟩, fun stable => stable.noBlank⟩

/-! ## Spellings -/

/-- One typedef argument is written as its canonical name, with the blanks around it as they
were. -/
inductive Respelled : Name → Name → Prop where
  | argument (front : Name) {separator : Char} (separates : isSeparator separator = true)
      (before after : Nat) {typedef : Name} (isTypedef : IsTypedef typedef) {rest : Name}
      (ends : ∀ letter ∈ rest.head?, letter = ',' ∨ letter = '>') :
      Respelled
        (front ++ separator ::
          (List.replicate before ' ' ++ (typedef ++ (List.replicate after ' ' ++ rest))))
        (front ++ separator ::
          (List.replicate before ' ' ++
            (canonicalizeTypeName typedef ++ (List.replicate after ' ' ++ rest))))

/-- Normalizing again changes nothing, and neither does another spelling of an argument. -/
def Normalizes (name : Name) : Prop :=
  normalizeTemplateArgs (normalizeTemplateArgs name) = normalizeTemplateArgs name ∧
    ∀ other, Respelled name other → normalizeTemplateArgs other = normalizeTemplateArgs name

theorem normalizeTemplateArgs_idem_iff (name : Name) :
    normalizeTemplateArgs (normalizeTemplateArgs name) = normalizeTemplateArgs name ↔
      ∀ argument ∈ argumentTexts name, StableArgument argument := by
  obtain ⟨clean, parted⟩ := Segments.cut_spec isSeparator name
  have normalized : Parted isSeparator
      ((cut isSeparator name).2.map fun part => (part.1, normalizeArgument part.2)) := by
    intro part member
    obtain ⟨original, inParts, rfl⟩ := List.mem_map.mp member
    exact ⟨(parted original inParts).1, clean_normalizeArgument (parted original inParts).2⟩
  rw [normalizeTemplateArgs_eq name, normalizeTemplateArgs_append clean,
    normalizeTemplateArgs_join normalized, List.append_right_inj,
    Segments.join_map_eq_iff normalized fun _ => clean_normalizeArgument, List.forall_mem_map,
    argumentTexts, List.forall_mem_map]
  exact forall₂_congr fun part _ => normalizeArgument_idem_iff part.2

/-- A text cut at a separator in it. -/
theorem cut_append_separator (front : Name) {separator : Char}
    (separates : isSeparator separator = true) (text : Name) :
    cut isSeparator (front ++ separator :: text) = ((cut isSeparator front).1,
      (cut isSeparator front).2 ++
        (separator, (cut isSeparator text).1) :: (cut isSeparator text).2) := by
  obtain ⟨clean, parted⟩ := Segments.cut_spec isSeparator front
  obtain ⟨textClean, textParted⟩ := Segments.cut_spec isSeparator text
  have whole : front ++ separator :: text = (cut isSeparator front).1 ++
      join ((cut isSeparator front).2 ++
        (separator, (cut isSeparator text).1) :: (cut isSeparator text).2) := by
    rw [Segments.join_append, Segments.join_cons, ← List.append_assoc,
      Segments.append_join_cut, Segments.append_join_cut]
  conv_lhs => rw [whole]
  refine Segments.cut_append_join clean fun part member => ?_
  rcases List.mem_append.mp member with inFront | inText
  · exact parted part inFront
  · exact Segments.parted_cons.mpr ⟨⟨separates, textClean⟩, textParted⟩ part inText

/-- The scan starts anew at a separator. -/
theorem normalizeTemplateArgs_append_separator (front : Name) {separator : Char}
    (separates : isSeparator separator = true) (text : Name) :
    normalizeTemplateArgs (front ++ separator :: text) =
      normalizeTemplateArgs front ++ normalizeTemplateArgs (separator :: text) := by
  have alone := cut_append_separator [] separates text
  rw [List.nil_append] at alone
  rw [normalizeTemplateArgs_eq, cut_append_separator front separates,
    normalizeTemplateArgs_eq front, normalizeTemplateArgs_eq (separator :: text), alone]
  simp [cut, List.append_assoc]

/-- What the scan reads of a token between blanks. -/
theorem scan_token (before after : Nat) {token rest : Name}
    (within : ∀ letter ∈ token, inToken letter = true) (some : token ≠ [])
    (ends : ∀ letter ∈ rest.head?, letter = ',' ∨ letter = '>') :
    let text := List.replicate before ' ' ++ (token ++ (List.replicate after ' ' ++ rest))
    (text.dropWhile isBlank).takeWhile inToken = token ∧
      ((text.dropWhile isBlank).dropWhile inToken).dropWhile isBlank = rest := by
  intro text
  have blanks (count : Nat) : ∀ letter ∈ List.replicate count ' ', isBlank letter = true := by
    intro letter member
    rw [List.eq_of_mem_replicate member]
    decide
  have restStarts : rest.dropWhile isBlank = rest := by
    rw [dropWhile_isBlank_eq_self_iff]
    intro blank
    rcases ends ' ' blank with comma | closes
    · exact absurd comma (by decide)
    · exact absurd closes (by decide)
  have tokenStarts : text.dropWhile isBlank = token ++ (List.replicate after ' ' ++ rest) := by
    rw [List.dropWhile_append_of_pos (blanks before)]
    obtain ⟨letter, more, rfl⟩ := List.exists_cons_of_ne_nil some
    exact List.dropWhile_cons_of_neg
      (by simp [not_blank_of_inToken (within letter (List.mem_cons_self ..))])
  have stops : ∀ letter ∈ (List.replicate after ' ' ++ rest).head?, inToken letter = false := by
    intro letter first
    cases after with
    | zero =>
        rcases ends letter (by simpa using first) with rfl | rfl <;> decide
    | succ after =>
        obtain rfl : ' ' = letter := by simpa [List.replicate_succ] using first
        decide
  have tokenEnds : (List.replicate after ' ' ++ rest).takeWhile inToken = [] ∧
      (List.replicate after ' ' ++ rest).dropWhile inToken = List.replicate after ' ' ++ rest := by
    cases after : List.replicate after ' ' ++ rest with
    | nil => exact ⟨rfl, rfl⟩
    | cons letter more =>
        have outside := stops letter (by rw [after]; rfl)
        exact ⟨List.takeWhile_cons_of_neg (by simp [outside]),
          List.dropWhile_cons_of_neg (by simp [outside])⟩
  rw [tokenStarts, List.takeWhile_append_of_pos within, List.dropWhile_append_of_pos within,
    tokenEnds.1, tokenEnds.2, List.dropWhile_append_of_pos (blanks after), restStarts,
    List.append_nil]
  exact ⟨rfl, rfl⟩

/-- A name has one normal form whatever the spelling exactly where each of its arguments is
stable. -/
theorem normalizes_iff (name : Name) :
    Normalizes name ↔ ∀ argument ∈ argumentTexts name, StableArgument argument := by
  refine ⟨fun normalizes => (normalizeTemplateArgs_idem_iff name).mp normalizes.1, fun stable =>
    ⟨(normalizeTemplateArgs_idem_iff name).mpr stable, fun other respelled => ?_⟩⟩
  obtain ⟨front, separates, before, after, isTypedef, ends⟩ := respelled
  rename_i separator typedef rest
  have typedefs : ∀ name ∈ canonicalNames.map Prod.fst,
      name.all inToken = true ∧ name ≠ [] ∧ canonicalizeTypeName name ≠ [] ∧
        canonicalizeTypeName (canonicalizeTypeName name) = canonicalizeTypeName name := by decide
  obtain ⟨within, some, someCanonical, again⟩ := typedefs typedef isTypedef
  have scanned := scan_token before after (List.all_eq_true.mp within) some ends
  -- The argument is one of the texts of the name, and its first word is the typedef name.
  have oneWord : ' ' ∉ canonicalizeTypeName typedef := by
    have text := stable (cut isSeparator (List.replicate before ' ' ++
        (typedef ++ (List.replicate after ' ' ++ rest)))).1 (by
      rw [argumentTexts, cut_append_separator front separates]
      simp)
    have first := scanned.1
    rw [← Segments.append_join_cut isSeparator (List.replicate before ' ' ++
        (typedef ++ (List.replicate after ' ' ++ rest))),
      Segments.dropWhile_append_join isBlank isBlank_of_separator (Segments.cut_spec _ _).2,
      Segments.takeWhile_append_join inToken inToken_of_separator (Segments.cut_spec _ _).2]
      at first
    have oneWord := text.oneWord
    rwa [firstToken, first] at oneWord
  have respelled := scan_token before after (isTypedef.inToken_canonicalizeTypeName oneWord)
    someCanonical ends
  rw [normalizeTemplateArgs_append_separator front separates,
    normalizeTemplateArgs_append_separator front separates, normalizeTemplateArgs,
    normalizeTemplateArgs, if_pos separates, if_pos separates]
  dsimp only at scanned respelled ⊢
  rw [scanned.1, scanned.2, respelled.1, respelled.2, again]

/-- `V<uint32_t>` becomes `V<unsigned int>` and then `V<unsignedint>`. -/
theorem vector_uint32_not_normalizes : ¬Normalizes "V<uint32_t>".toList := by
  intro normalizes
  have stable := (normalizeTemplateArgs_idem_iff _).mp normalizes.1 "uint32_t>".toList (by decide)
  exact stable.oneWord (by decide)

end Backend
end TopoLlvm
