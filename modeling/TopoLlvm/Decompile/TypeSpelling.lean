import TopoLlvm.Decompile.DemangledType
import Mathlib.Tactic.Common

/-!
# Canonical spellings of types

A type that is spelled out, its parts joined by `::` and its arguments by `, `, is read back as it
was; a text that is rejected leaves the node as it was.
-/

namespace TopoLlvm
namespace Decompile
namespace DemangledType

open Bracketed

/-! ## Spellings -/

def isIdentifierChar (c : Char) : Bool := c.isAlphanum || c = '_'

/-- A letter or an underscore, and then letters, digits and underscores. -/
def isIdentifier : Text → Bool
  | [] => false
  | c :: rest => (c.isAlpha || c = '_') && rest.all isIdentifierChar

structure Identifier where
  text : Text
  valid : isIdentifier text = true

/-- A type, or an integer that is an argument. -/
inductive TypeTree where
  | named (first : Identifier) (others : List Identifier) (args : List TypeTree)
  | integer (value : Int) (inRange : -2 ^ 31 ≤ value ∧ value < 2 ^ 31)

theorem TypeTree.induction {holds : TypeTree → Prop}
    (named : ∀ first others args, (∀ arg ∈ args, holds arg) → holds (.named first others args))
    (integer : ∀ value inRange, holds (.integer value inRange)) (tree : TypeTree) : holds tree := by
  refine @TypeTree.rec holds (fun args => ∀ arg ∈ args, holds arg) named integer ?_ ?_ tree
  · simp
  · intro arg args first others
    exact List.forall_mem_cons.mpr ⟨first, others⟩

def decimal (value : Int) : Text :=
  if value < 0 then '-' :: Nat.toDigits 10 value.natAbs else Nat.toDigits 10 value.natAbs

def qualified (parts : List Identifier) : Text :=
  [':', ':'].intercalate (parts.map Identifier.text)

def TypeTree.spelling : TypeTree → Text
  | named first others args =>
      qualified (first :: others) ++
        if args.isEmpty then [] else '<' :: ([',', ' '].intercalate (args.map spelling) ++ ['>'])
  | integer value _ => decimal value

variable {Modifiers : Type} [Inhabited Modifiers]

/-- What a type is read as. -/
def TypeTree.toNode : TypeTree → TypeNode Modifiers
  | named first others args =>
      { (default : TypeNode Modifiers) with
        nameParts := (first :: others).map Identifier.text, templateArgs := args.map toNode }
  | integer value _ =>
      { (default : TypeNode Modifiers) with
        nameParts := [decimal value], nonTypeValue := some value }

/-! ## Characters -/

/-- What separates, brackets or signs. -/
def marks : List Char :=
  [' ', '\t', '\n', '\x0b', '\x0c', '\r', '<', '>', '(', ')', ',', ':', '+', '-']

theorem not_mem_marks {c : Char} (inside : isIdentifierChar c = true) : c ∉ marks := by
  have none : ∀ mark ∈ marks, isIdentifierChar mark = false := by simp [marks, isIdentifierChar]
  intro member
  rw [none c member] at inside
  cases inside

theorem isSpace_eq_false {c : Char} (apart : c ∉ marks.take 6) : isSpace c = false := by
  simpa [isSpace, marks] using apart

/-- A letter is no digit. -/
theorem isDigit_of_isAlpha {c : Char} (alpha : c.isAlpha = true) : c.isDigit = false := by
  have letter : (65 ≤ c.toNat ∧ c.toNat ≤ 90) ∨ 97 ≤ c.toNat ∧ c.toNat ≤ 122 := by
    rcases Bool.or_eq_true_iff.mp alpha with upper | lower
    · have upper : decide (c.val ≥ 65 ∧ c.val ≤ 90) = true := upper
      exact .inl (by simpa [UInt32.le_iff_toNat_le] using upper)
    · have lower : (decide (c.val ≥ 97) && decide (c.val ≤ 122)) = true := lower
      exact .inr (by simpa [UInt32.le_iff_toNat_le] using lower)
  rw [Bool.eq_false_iff]
  intro digit
  have digit := Char.isDigit_iff_toNat.mp digit
  simp at digit
  omega

namespace Identifier

variable (name : Identifier)

theorem text_ne_nil : name.text ≠ [] := by
  intro empty
  have valid := name.valid
  simp [empty, isIdentifier] at valid

theorem isIdentifierChar_of_mem {c : Char} (member : c ∈ name.text) :
    isIdentifierChar c = true := by
  have valid := name.valid
  cases text : name.text with
  | nil => simp [text] at member
  | cons first rest =>
      simp only [text, isIdentifier, Bool.and_eq_true, List.all_eq_true] at valid
      rw [text] at member
      rcases List.mem_cons.mp member with rfl | member
      · simp only [isIdentifierChar, Char.isAlphanum, Bool.or_eq_true, decide_eq_true_eq] at valid ⊢
        exact valid.1.imp .inl id
      · exact valid.2 c member

/-- An identifier does not begin with a digit. -/
theorem head_not_digit {c : Char} (first : name.text.head? = some c) : c.isDigit = false := by
  have valid := name.valid
  cases text : name.text with
  | nil => simp [text] at first
  | cons letter rest =>
      simp only [text, List.head?_cons, Option.some.injEq] at first
      subst first
      simp only [text, isIdentifier, Bool.and_eq_true, Bool.or_eq_true, decide_eq_true_eq] at valid
      rcases valid.1 with alpha | rfl
      · exact isDigit_of_isAlpha alpha
      · rfl

end Identifier

theorem mem_qualified {parts : List Identifier} {c : Char} (member : c ∈ qualified parts) :
    isIdentifierChar c = true ∨ c = ':' := by
  induction parts with
  | nil => simp [qualified] at member
  | cons name parts ih =>
      cases parts with
      | nil =>
          simp only [qualified, List.map_cons, List.map_nil, List.intercalate_singleton] at member
          exact .inl (name.isIdentifierChar_of_mem member)
      | cons next parts =>
          simp only [qualified, List.map_cons, List.intercalate_cons_cons, List.mem_append] at member
          rcases member with (member | member) | member
          · exact .inl (name.isIdentifierChar_of_mem member)
          · exact .inr (by simpa using member)
          · exact ih (by simpa [qualified] using member)

theorem mem_decimal {value : Int} {c : Char} (member : c ∈ decimal value) :
    c.isDigit = true ∨ c = '-' := by
  have digits (number : Nat) (inside : c ∈ Nat.toDigits 10 number) : c.isDigit = true :=
    Nat.isDigit_of_mem_toDigits (by decide) (by decide) inside
  unfold decimal at member
  split at member
  · exact (List.mem_cons.mp member).symm.imp_left (digits _)
  · exact .inl (digits _ member)

theorem mem_qualified_marks {parts : List Identifier} {c : Char} (member : c ∈ qualified parts) :
    c ∉ marks.erase ':' := by
  rcases mem_qualified member with inside | rfl
  · exact fun mark => not_mem_marks inside (List.mem_of_mem_erase mark)
  · decide

theorem mem_decimal_marks {value : Int} {c : Char} (member : c ∈ decimal value) :
    c ∉ marks.erase '-' := by
  rcases mem_decimal member with digit | rfl
  · refine fun mark => not_mem_marks ?_ (List.mem_of_mem_erase mark)
    simp [isIdentifierChar, Char.isAlphanum, digit]
  · decide

/-! ## The scans -/

def IsPlain (c : Char) : Prop := c ∉ ['<', '>', '(', ')']

/-- Within an argument list its brackets come in pairs, and the splitter goes past it. -/
theorem splitTopLevelArgs_balanced {text : Text} (balanced : Balanced IsPlain '<' '>' text)
    (angle paren : Nat) (cur rest : Text) :
    splitTopLevelArgs (angle + 1) paren cur (text ++ rest) =
      splitTopLevelArgs (angle + 1) paren (cur ++ text) rest := by
  induction balanced generalizing angle cur rest with
  | nil => simp
  | @cons c text first _ ih =>
      simp only [IsPlain, List.mem_cons, List.not_mem_nil, or_false, not_or] at first
      rw [List.cons_append, splitTopLevelArgs, if_neg first.1, if_neg first.2.1, if_neg first.2.2.1,
        if_neg first.2.2.2, if_neg (by simp), ih, List.append_assoc, List.singleton_append]
  | @pair inside text _ _ inner others =>
      rw [List.cons_append, List.append_assoc, List.cons_append, splitTopLevelArgs, if_pos rfl,
        inner, splitTopLevelArgs, if_neg (by decide), if_pos rfl, if_neg (Nat.succ_ne_zero _),
        Nat.add_sub_cancel, others]
      simp

theorem findOpenPos_balanced {text : Text} (balanced : Balanced IsPlain '<' '>' text)
    (i angle : Nat) (openPos : Option Nat) (rest : Text) :
    findOpenPos i (angle + 1) openPos (text ++ rest) =
      findOpenPos (i + text.length) (angle + 1) openPos rest := by
  induction balanced generalizing i angle rest with
  | nil => simp
  | @cons c text first _ ih =>
      simp only [IsPlain, List.mem_cons, List.not_mem_nil, or_false, not_or] at first
      rw [List.cons_append, findOpenPos, if_neg first.1, if_neg first.2.1, ih, List.length_cons,
        Nat.add_assoc, Nat.add_comm 1]
  | @pair inside text _ _ inner others =>
      rw [List.cons_append, List.append_assoc, List.cons_append, findOpenPos, if_pos rfl,
        if_neg (Nat.succ_ne_zero _), inner, findOpenPos, if_neg (by decide), if_pos rfl,
        if_neg (Nat.succ_ne_zero _), Nat.add_sub_cancel, others]
      simp only [List.length_cons, List.length_append]
      congr 1
      omega

/-- Outside brackets the splitter goes past all but commas. -/
theorem splitTopLevelArgs_plain {text : Text} (plain : ∀ c ∈ text, IsPlain c ∧ c ≠ ',')
    (cur rest : Text) :
    splitTopLevelArgs 0 0 cur (text ++ rest) = splitTopLevelArgs 0 0 (cur ++ text) rest := by
  induction text generalizing cur with
  | nil => simp
  | cons c text ih =>
      rw [List.forall_mem_cons] at plain
      have first := plain.1
      simp only [IsPlain, List.mem_cons, List.not_mem_nil, or_false, not_or] at first
      rw [List.cons_append, splitTopLevelArgs, if_neg first.1.1, if_neg first.1.2.1,
        if_neg first.1.2.2.1, if_neg first.1.2.2.2, if_neg (by simp [first.2]), ih plain.2,
        List.append_assoc, List.singleton_append]

theorem findOpenPos_plain {text : Text} (plain : ∀ c ∈ text, IsPlain c) (i : Nat)
    (openPos : Option Nat) (rest : Text) :
    findOpenPos i 0 openPos (text ++ rest) = findOpenPos (i + text.length) 0 openPos rest := by
  induction text generalizing i with
  | nil => simp
  | cons c text ih =>
      rw [List.forall_mem_cons] at plain
      have first := plain.1
      simp only [IsPlain, List.mem_cons, List.not_mem_nil, or_false, not_or] at first
      rw [List.cons_append, findOpenPos, if_neg first.1, if_neg first.2.1, ih plain.2,
        List.length_cons, Nat.add_assoc, Nat.add_comm 1]

/-- The parts of a qualified name. -/
theorem splitNameParts_identifier {text : Text} (inside : ∀ c ∈ text, isIdentifierChar c = true)
    (part base : Text) :
    splitNameParts 0 part (text ++ base) = splitNameParts 0 (part ++ text) base := by
  induction text generalizing part with
  | nil => simp
  | cons c text ih =>
      rw [List.forall_mem_cons] at inside
      have apart := not_mem_marks inside.1
      simp only [marks, List.mem_cons, List.not_mem_nil, or_false, not_or] at apart
      rw [← List.singleton_append, ← List.append_assoc part, ← ih inside.2]
      cases rest : text ++ base with
      | nil => simp [rest, splitNameParts]
      | cons d more => simp [rest, splitNameParts, apart]

theorem trimWs_of_not_isSpace {text : Text} (visible : ∀ c ∈ text, isSpace c = false) :
    trimWs text = text := by
  have dropped : text.dropWhile isSpace = text := by
    rw [List.dropWhile_eq_self_iff]
    intro nonempty
    simp [visible _ (List.getElem_mem nonempty)]
  rw [trimWs, dropped, List.rdropWhile_eq_self_iff]
  intro nonempty
  simp [visible _ (List.getLast_mem nonempty)]

theorem splitNameParts_qualified (first : Identifier) (others : List Identifier) (part : Text)
    (visible : ∀ c ∈ part, isSpace c = false) :
    splitNameParts 0 part (qualified (first :: others)) =
      (part ++ first.text) :: others.map Identifier.text := by
  have inside := fun c => first.isIdentifierChar_of_mem (c := c)
  have trimmed : trimWs (part ++ first.text) = part ++ first.text := by
    refine trimWs_of_not_isSpace fun c member => ?_
    rcases List.mem_append.mp member with member | member
    · exact visible c member
    · exact isSpace_eq_false fun mark => not_mem_marks (inside c member) (List.mem_of_mem_take mark)
  induction others generalizing first part with
  | nil =>
      rw [qualified, List.map_singleton, List.intercalate_singleton,
        ← List.append_nil first.text, splitNameParts_identifier inside, splitNameParts]
      simp [trimmed]
  | cons next others ih =>
      rw [qualified, List.map_cons, List.map_cons, List.intercalate_cons_cons, List.append_assoc,
        splitNameParts_identifier inside]
      have later := ih next [] (by simp) (fun c => next.isIdentifierChar_of_mem)
        (trimWs_of_not_isSpace fun c member => isSpace_eq_false fun mark =>
          not_mem_marks (next.isIdentifierChar_of_mem member) (List.mem_of_mem_take mark))
      rw [qualified, List.map_cons, List.nil_append] at later
      simp [splitNameParts, trimmed, later]

/-! ## Spellings of types -/

theorem isPlain_qualified {parts : List Identifier} {c : Char} (member : c ∈ qualified parts) :
    IsPlain c ∧ c ≠ ',' := by
  have none : ∀ mark ∈ ['<', '>', '(', ')', ','], mark ∈ marks.erase ':' := by simp [marks]
  have apart := mem_qualified_marks member
  refine ⟨fun mark => apart (none c (List.mem_append_left [','] mark)), fun comma => ?_⟩
  exact apart (none c (by simp [comma]))

theorem isPlain_decimal {value : Int} {c : Char} (member : c ∈ decimal value) :
    IsPlain c ∧ c ≠ ',' := by
  have none : ∀ mark ∈ ['<', '>', '(', ')', ','], mark ∈ marks.erase '-' := by simp [marks]
  have apart := mem_decimal_marks member
  refine ⟨fun mark => apart (none c (List.mem_append_left [','] mark)), fun comma => ?_⟩
  exact apart (none c (by simp [comma]))

theorem not_isSpace_qualified {parts : List Identifier} {c : Char} (member : c ∈ qualified parts) :
    isSpace c = false := by
  have none : ∀ mark ∈ marks.take 6, mark ∈ marks.erase ':' := by simp [marks]
  exact isSpace_eq_false fun mark => mem_qualified_marks member (none c mark)

theorem not_isSpace_decimal {value : Int} {c : Char} (member : c ∈ decimal value) :
    isSpace c = false := by
  have none : ∀ mark ∈ marks.take 6, mark ∈ marks.erase '-' := by simp [marks]
  exact isSpace_eq_false fun mark => mem_decimal_marks member (none c mark)

theorem qualified_ne_nil (first : Identifier) (others : List Identifier) :
    qualified (first :: others) ≠ [] := by
  cases others with
  | nil => simpa [qualified] using first.text_ne_nil
  | cons next others => simp [qualified, List.intercalate_cons_cons]

/-- An argument list in its brackets. -/
def argumentList (args : List TypeTree) : Text := [',', ' '].intercalate (args.map TypeTree.spelling)

theorem TypeTree.spelling_named (first : Identifier) (others : List Identifier)
    (args : List TypeTree) :
    (named first others args).spelling = qualified (first :: others) ++
      if args.isEmpty then [] else '<' :: (argumentList args ++ ['>']) := by
  rw [spelling, argumentList]

theorem TypeTree.balanced_spelling (tree : TypeTree) : Balanced IsPlain '<' '>' tree.spelling := by
  induction tree using TypeTree.induction with
  | named first others args each =>
      have name : Balanced IsPlain '<' '>' (qualified (first :: others)) :=
        .of_plain fun c member => (isPlain_qualified member).1
      rw [spelling_named]
      refine name.append ?_
      split
      · exact .nil
      · refine .bracket (.intercalate (.of_plain (by simp [IsPlain])) ?_)
        simpa using each
  | integer value inRange =>
      rw [spelling]
      exact .of_plain fun c member => (isPlain_decimal member).1

theorem balanced_argumentList (args : List TypeTree) :
    Balanced IsPlain '<' '>' (argumentList args) := by
  refine .intercalate (.of_plain (by simp [IsPlain])) ?_
  simpa using fun tree _ => TypeTree.balanced_spelling tree

/-- The splitter goes past a type. -/
theorem splitTopLevelArgs_spelling (tree : TypeTree) (cur rest : Text) :
    splitTopLevelArgs 0 0 cur (tree.spelling ++ rest) =
      splitTopLevelArgs 0 0 (cur ++ tree.spelling) rest := by
  cases tree with
  | named first others args =>
      rw [TypeTree.spelling_named]
      split
      · simpa using splitTopLevelArgs_plain (fun c member => isPlain_qualified member) cur rest
      · rw [List.append_assoc, splitTopLevelArgs_plain fun c member => isPlain_qualified member,
          List.cons_append, List.append_assoc, splitTopLevelArgs, if_pos rfl,
          splitTopLevelArgs_balanced (balanced_argumentList args), List.singleton_append,
          splitTopLevelArgs, if_neg (by decide), if_pos rfl, if_neg (Nat.succ_ne_zero _)]
        simp
  | integer value inRange =>
      rw [TypeTree.spelling]
      exact splitTopLevelArgs_plain (fun c member => isPlain_decimal member) cur rest

theorem splitTopLevelArgs_argumentList (arg : TypeTree) (args : List TypeTree) (cur : Text) :
    splitTopLevelArgs 0 0 cur (argumentList (arg :: args)) =
      some ((cur ++ arg.spelling) :: args.map fun arg => ' ' :: arg.spelling) := by
  induction args generalizing arg cur with
  | nil =>
      rw [argumentList, List.map_singleton, List.intercalate_singleton,
        ← List.append_nil arg.spelling, splitTopLevelArgs_spelling, splitTopLevelArgs]
      simp
  | cons next args ih =>
      have later := ih next [' ']
      rw [argumentList, List.map_cons] at later
      rw [argumentList, List.map_cons, List.map_cons, List.intercalate_cons_cons, List.append_assoc,
        splitTopLevelArgs_spelling]
      simp [splitTopLevelArgs, later]

/-! ## Reading back -/

theorem trimWs_of_ends {text : Text} (first : ∀ c ∈ text.head?, isSpace c = false)
    (last : ∀ c ∈ text.getLast?, isSpace c = false) : trimWs text = text := by
  have dropped : text.dropWhile isSpace = text := by
    cases text with
    | nil => rfl
    | cons c text => simp [first c rfl]
  rw [trimWs, dropped, List.rdropWhile_eq_self_iff]
  intro nonempty
  simp [last _ (List.getLast?_eq_some_getLast nonempty)]

theorem TypeTree.trimWs_spelling (tree : TypeTree) : trimWs tree.spelling = tree.spelling := by
  cases tree with
  | named first others args =>
      have nonempty := qualified_ne_nil first others
      rw [spelling_named]
      refine trimWs_of_ends (fun c head => ?_) (fun c last => ?_)
      · rw [List.head?_append_of_ne_nil _ nonempty] at head
        exact not_isSpace_qualified (List.mem_of_mem_head? head)
      · split at last
        · rw [List.append_nil] at last
          exact not_isSpace_qualified (List.mem_of_mem_getLast? last)
        · rw [← List.cons_append, ← List.append_assoc, List.getLast?_append] at last
          simp at last
          exact last ▸ rfl
  | integer value inRange =>
      rw [spelling]
      exact trimWs_of_not_isSpace fun c member => not_isSpace_decimal member

theorem TypeTree.trimWs_space_spelling (tree : TypeTree) :
    trimWs (' ' :: tree.spelling) = tree.spelling := tree.trimWs_spelling

theorem integerLiteral_eq_none {t : Text}
    (first : ∀ c ∈ t.head?, c.isDigit = false ∧ c ≠ '+' ∧ c ≠ '-') : integerLiteral t = none := by
  cases t with
  | nil => simp [integerLiteral]
  | cons c t =>
      obtain ⟨digit, plus, minus⟩ := first c rfl
      simp [integerLiteral, digit, plus, minus]

theorem integerLiteral_qualified (first : Identifier) (others : List Identifier) (rest : Text) :
    integerLiteral (qualified (first :: others) ++ rest) = none := by
  refine integerLiteral_eq_none fun c head => ?_
  have same : (qualified (first :: others) ++ rest).head? = first.text.head? := by
    cases others with
    | nil => simp [qualified, List.head?_append_of_ne_nil _ first.text_ne_nil]
    | cons next others =>
        simp [qualified, List.intercalate_cons_cons, List.head?_append_of_ne_nil _
          first.text_ne_nil]
  rw [same] at head
  have apart := not_mem_marks (first.isIdentifierChar_of_mem (List.mem_of_mem_head? head))
  simp only [marks, List.mem_cons, not_or] at apart
  exact ⟨first.head_not_digit head, by simp_all⟩

theorem integerLiteral_decimal (value : Int) :
    integerLiteral (decimal value) = some (decimal value) := by
  have digits (number : Nat) : ∀ c ∈ Nat.toDigits 10 number, c.isDigit = true :=
    fun c => Nat.isDigit_of_mem_toDigits (by decide) (by decide)
  have all (number : Nat) := List.takeWhile_eq_self_iff.mpr (digits number)
  have none (number : Nat) := List.dropWhile_eq_nil_iff.mpr (digits number)
  have unsigned (number : Nat) (sign : Char) (notDigit : sign.isDigit = false) :
      (Nat.toDigits 10 number).head? ≠ some sign := by
    intro head
    simp [digits number sign (List.mem_of_mem_head? head)] at notDigit
  unfold decimal
  split
  · simp [integerLiteral, all, none, Nat.toDigits_ne_nil]
  · simp [integerLiteral, unsigned _ '+' rfl, unsigned _ '-' rfl, all, none, Nat.toDigits_ne_nil]

theorem stoi_decimal {value : Int} (inRange : -2 ^ 31 ≤ value ∧ value < 2 ^ 31) :
    stoi (decimal value) = some value := by
  have unsigned (sign : Char) (notDigit : sign.isDigit = false) :
      (Nat.toDigits 10 value.natAbs).head? ≠ some sign := by
    intro head
    have digit := Nat.isDigit_of_mem_toDigits (by decide) (by decide) (List.mem_of_mem_head? head)
    simp [digit] at notDigit
  unfold decimal
  split
  · have same : -(value.natAbs : Int) = value := by omega
    simp only [stoi, List.head?_cons, List.tail_cons, if_true, Nat.ofDigitChars_ten_toDigits, same]
    exact if_pos inRange
  · have same : (value.natAbs : Int) = value := by omega
    simp only [stoi, unsigned '+' rfl, unsigned '-' rfl, if_false, Nat.ofDigitChars_ten_toDigits,
      same]
    exact if_pos inRange

theorem parseName_integer {raw : Text} {value : Int} (inRange : -2 ^ 31 ≤ value ∧ value < 2 ^ 31)
    (trimmed : trimWs raw = decimal value) :
    parseName raw (default : TypeNode Modifiers) =
      (true, (TypeTree.integer value inRange).toNode, none) := by
  have nonempty : (decimal value).isEmpty = false := by
    unfold decimal
    split <;> simp [Nat.toDigits_ne_nil]
  simp only [parseName, trimmed, nonempty, integerLiteral_decimal, stoi_decimal inRange]
  rw [TypeTree.toNode]
  rfl

theorem parseName_named {raw : Text} {first : Identifier} {others : List Identifier}
    {args : List TypeTree}
    (trimmed : trimWs raw = (TypeTree.named first others args).spelling) :
    parseName raw (default : TypeNode Modifiers) =
      (true, { (default : TypeNode Modifiers) with
          nameParts := (first :: others).map Identifier.text },
        if args.isEmpty then none else some (argumentList args)) := by
  have parts := splitNameParts_qualified first others [] (by simp)
  have named := qualified_ne_nil first others
  have base : trimWs (qualified (first :: others)) = qualified (first :: others) :=
    trimWs_of_not_isSpace fun c member => not_isSpace_qualified member
  rw [TypeTree.spelling_named] at trimmed
  cases args with
  | nil =>
      have scan : findOpenPos 0 0 none (qualified (first :: others)) = some none := by
        rw [← List.append_nil (qualified _),
          findOpenPos_plain (fun c member => (isPlain_qualified member).1)]
        rfl
      have literal := integerLiteral_qualified first others []
      rw [List.append_nil] at literal
      simp only [List.isEmpty_nil, if_true, List.append_nil] at trimmed ⊢
      simp [parseName, trimmed, named, literal, scan, parts, default, Identifier.text_ne_nil]
  | cons arg args =>
      have scan : findOpenPos 0 0 none
          (qualified (first :: others) ++ '<' :: (argumentList (arg :: args) ++ ['>'])) =
            some (some (qualified (first :: others)).length) := by
        rw [findOpenPos_plain (fun c member => (isPlain_qualified member).1), findOpenPos,
          if_pos rfl, if_pos rfl, findOpenPos_balanced (balanced_argumentList _)]
        simp [findOpenPos]
      have last : ('<' :: (argumentList (arg :: args) ++ ['>'])).getLast? = some '>' := by
        rw [← List.cons_append, List.getLast?_append]
        rfl
      simp only [List.isEmpty_cons, Bool.false_eq_true, if_false] at trimmed ⊢
      simp [parseName, trimmed, named, integerLiteral_qualified, scan, parts, default, base, last,
        Identifier.text_ne_nil]

theorem parseArgs_map (spell : TypeTree → Text) {args : List TypeTree}
    (read : ∀ arg ∈ args, parseDemangledType (spell arg) (default : TypeNode Modifiers) =
      (true, arg.toNode)) (node : TypeNode Modifiers) :
    parseArgs (args.map spell) node =
      (true, { node with templateArgs := node.templateArgs ++ args.map TypeTree.toNode }) := by
  induction args generalizing node with
  | nil =>
      cases node
      simp [parseArgs]
  | cons arg args ih =>
      rw [List.forall_mem_cons] at read
      rw [List.map_cons, parseArgs, read.1]
      simp [ih read.2]

/-- Blanks around a type do not matter. -/
theorem parseDemangledType_of_trimWs (tree : TypeTree) {raw : Text}
    (trimmed : trimWs raw = tree.spelling) (node : TypeNode Modifiers) :
    parseDemangledType raw node = (true, tree.toNode) := by
  induction tree using TypeTree.induction generalizing raw node with
  | integer value inRange =>
      rw [TypeTree.spelling] at trimmed
      rw [parseDemangledType, parseDemangledTypeImpl_of_name (parseName_integer inRange trimmed)]
  | named first others args each =>
      have named : parseName raw (default : TypeNode Modifiers) = _ := parseName_named trimmed
      rw [parseDemangledType, TypeTree.toNode]
      cases args with
      | nil =>
          rw [parseDemangledTypeImpl_of_name named]
          rfl
      | cons arg args =>
          rw [List.forall_mem_cons] at each
          -- All arguments but the first are read with the blank in front of them.
          have rest := parseArgs_map (fun arg => ' ' :: arg.spelling) fun arg member =>
            each.2 arg member arg.trimWs_space_spelling (default : TypeNode Modifiers)
          rw [parseDemangledTypeImpl_of_args named (splitTopLevelArgs_argumentList arg args []),
            List.nil_append, parseArgs, each.1 arg.trimWs_spelling]
          simp [rest, default]

/-- A canonical spelling is read back as the type it spells, and what is rejected, as a type or as a
name with arguments, leaves the node of the caller as it was. -/
theorem parseDemangledType_correct :
    (∀ (tree : TypeTree) (node : TypeNode Modifiers),
        parseDemangledType tree.spelling node = (true, tree.toNode)) ∧
      (∀ (raw : Text) (node : TypeNode Modifiers),
        (parseDemangledType raw node).1 = false → (parseDemangledType raw node).2 = node) ∧
      ∀ (name : Text) (node : TypeNode Modifiers),
        (recoverTemplateArgs name node).1 = false → (recoverTemplateArgs name node).2 = node := by
  refine ⟨fun tree => parseDemangledType_of_trimWs tree tree.trimWs_spelling,
    fun raw node rejected => ?_, fun name node rejected => ?_⟩
  · rw [parseDemangledType] at rejected ⊢
    rcases read : parseDemangledTypeImpl raw (default : TypeNode Modifiers) with ⟨ok, after⟩
    rw [read] at rejected
    cases ok with
    | false => rfl
    | true => cases rejected
  · unfold recoverTemplateArgs at rejected ⊢
    by_cases bracket : '<' ∉ name
    · rw [if_pos bracket]
    · rw [if_neg bracket] at rejected ⊢
      rcases read : parseDemangledType name (default : TypeNode Modifiers) with ⟨ok, parsed⟩
      rw [read] at rejected
      cases ok with
      | false => rfl
      | true =>
          by_cases empty : parsed.templateArgs.isEmpty = true
          · exact congrArg Prod.snd (if_pos empty)
          · simp [empty] at rejected

/-- An argument list that is not closed. -/
theorem parseDemangledType_open_bracket :
    (parseDemangledType ['A', '<', 'B'] (default : TypeNode Unit)).2 = default := by
  refine parseDemangledType_correct.2.1 ['A', '<', 'B'] default ?_
  rw [parseDemangledType, parseDemangledTypeImpl]
  rfl

end DemangledType
end Decompile
end TopoLlvm
