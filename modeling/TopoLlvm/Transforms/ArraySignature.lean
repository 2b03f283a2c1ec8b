import TopoLlvm.Backend.Names
import TopoLlvm.Library.Bracketed
import Mathlib.Algebra.Ring.Nat

/-!
# Array signatures

Where the element type of an array is only left in the demangled name of a function, the pass reads
it there: the arguments of `topo::array<Elem, N>` are found by the depth of the angle brackets, and
a size that does not fit is rejected.
-/

namespace TopoLlvm
namespace DataLayout

open TopoLlvm.Backend (Name)

def kTag : Name := "topo::array<".toList

/-- What `StringRef::trim` takes away. -/
def isSpace (c : Char) : Bool :=
  c = ' ' || c = '\t' || c = '\n' || c = '\x0b' || c = '\x0c' || c = '\r'

def trim (text : Name) : Name := (text.dropWhile isSpace).rdropWhile isSpace

/-- `StringRef::substr`. -/
def substr (text : Name) (start count : Nat) : Name := (text.drop start).take count

/-- The scan from the opening bracket, with the position and the depth: the first comma at depth one
and the bracket that closes.  No name has as many brackets as an `int` counts. -/
def scanArguments : Name → Nat → Int → Option Nat → Option Nat × Option Nat
  | [], _, _, commaPos => (commaPos, none)
  | c :: rest, i, depth, commaPos =>
      if c = '<' then scanArguments rest (i + 1) (depth + 1) commaPos
      else if c = '>' then
        if depth - 1 = 0 then (commaPos, some i)
        else scanArguments rest (i + 1) (depth - 1) commaPos
      else if c = ',' ∧ depth = 1 ∧ commaPos = none then
        scanArguments rest (i + 1) depth (some i)
      else scanArguments rest (i + 1) depth commaPos

/-- What the demangler of MSVC writes before a type. -/
def elaboratedKeywords : List Name := ["struct ", "class ", "union ", "enum "].map String.toList

def stripKeyword (elemPart : Name) : Name :=
  (elaboratedKeywords.find? (·.isPrefixOf elemPart)).elim elemPart fun kw =>
    trim (elemPart.drop kw.length)

/-- The element type and the size; `getAsInteger` reads decimal digits that fit. -/
def parseArraySignature (getAsInteger : Name → Option UInt64) (demangled : Name) :
    Option (Name × UInt64) :=
  (Text.split kTag demangled).bind fun (before, _) =>
    let opening := before.length + kTag.length - 1
    match scanArguments (demangled.drop opening) opening 0 none with
    | (some commaPos, some close) =>
        let elemPart := stripKeyword (trim (substr demangled (opening + 1) (commaPos - (opening + 1))))
        let nPart := trim (substr demangled (commaPos + 1) (close - (commaPos + 1)))
        let digitRun := nPart.takeWhile Char.isDigit
        if elemPart = [] then none
        else if digitRun = [] then none
        else (getAsInteger digitRun).bind fun n => if n = 0 then none else some (elemPart, n)
    | _ => none

/-! ## The scan -/

/-- A character that is no angle bracket. -/
def NoBracket (c : Char) : Prop := c ≠ '<' ∧ c ≠ '>'

/-- A character of an argument outside of nested brackets. -/
def NoSeparator (c : Char) : Prop := c ≠ '<' ∧ c ≠ '>' ∧ c ≠ ','

section Scan

variable (rest : Name) (i : Nat) {depth : Int} {commaPos : Option Nat}

/-- Within nested brackets nothing is found. -/
theorem scanArguments_balanced {text : Name} (shape : Bracketed.Balanced NoBracket '<' '>' text)
    (deep : 2 ≤ depth) :
    scanArguments (text ++ rest) i depth commaPos =
      scanArguments rest (i + text.length) depth commaPos := by
  induction shape generalizing i depth rest with
  | nil => rfl
  | @cons c text first _ ih =>
      have shallow : ¬ (c = ',' ∧ depth = 1 ∧ commaPos = none) := by omega
      rw [List.cons_append, scanArguments, if_neg first.1, if_neg first.2, if_neg shallow,
        ih rest (i + 1) deep, List.length_cons, Nat.add_assoc, Nat.add_comm 1]
  | @pair inside others _ _ ih ihOthers =>
      have goesOn : ¬ depth + 1 - 1 = 0 := by omega
      rw [List.cons_append, scanArguments, if_pos rfl, List.append_assoc,
        ih _ (i + 1) (by omega), List.cons_append, scanArguments, if_neg (by decide), if_pos rfl,
        if_neg goesOn, Int.add_sub_cancel, ihOthers rest _ deep]
      congr 1
      simp only [List.length_cons, List.length_append]
      omega

/-- An argument has no comma outside of nested brackets. -/
theorem scanArguments_argument {text : Name}
    (shape : Bracketed.Outer NoBracket '<' '>' NoSeparator text) :
    scanArguments (text ++ rest) i 1 commaPos = scanArguments rest (i + text.length) 1 commaPos := by
  induction shape generalizing i rest with
  | nil => rfl
  | @cons c text first _ ih =>
      rw [List.cons_append, scanArguments, if_neg first.1, if_neg first.2.1,
        if_neg fun found => first.2.2 found.1, ih rest (i + 1), List.length_cons, Nat.add_assoc,
        Nat.add_comm 1]
  | @pair inside others inner _ ih =>
      rw [List.cons_append, scanArguments, if_pos rfl, List.append_assoc,
        scanArguments_balanced _ (i + 1) inner (by decide), List.cons_append, scanArguments,
        if_neg (by decide), if_pos rfl, if_neg (by decide), Int.add_sub_cancel, ih rest]
      congr 1
      simp only [List.length_cons, List.length_append]
      omega

/-- Where no bracket closes the one before the text, none is found. -/
theorem scanArguments_unclosed {text : Name}
    (never : ∀ front, front <+: text → (front.count '>' : Int) < depth + front.count '<') :
    (scanArguments text i depth commaPos).2 = none := by
  induction text generalizing i depth commaPos with
  | nil => rfl
  | cons c text ih =>
      have whole (front : Name) (starts : front <+: text) :=
        never (c :: front) ((List.prefix_cons_inj c).mpr starts)
      rw [scanArguments]
      split
      · rename_i opens
        subst opens
        refine ih (i + 1) fun front starts => ?_
        have here := whole front starts
        rw [List.count_cons_self, List.count_cons_of_ne (by decide)] at here
        omega
      · rename_i plain
        split
        · rename_i closes
          subst closes
          have first := whole [] (List.nil_prefix)
          rw [List.count_cons_self, List.count_cons_of_ne (by decide)] at first
          rw [if_neg (by simp at first; omega)]
          refine ih (i + 1) fun front starts => ?_
          have here := whole front starts
          rw [List.count_cons_self, List.count_cons_of_ne (by decide)] at here
          omega
        · rename_i inner
          have step (front : Name) (starts : front <+: text) :
              (front.count '>' : Int) < depth + front.count '<' := by
            have here := whole front starts
            rwa [List.count_cons_of_ne inner, List.count_cons_of_ne plain] at here
          split
          · exact ih (i + 1) step
          · exact ih (i + 1) step

/-- Behind the first comma nothing is found but the bracket that closes. -/
theorem scanArguments_size {text : Name} {comma : Nat} (plain : ∀ c ∈ text, NoBracket c) :
    scanArguments (text ++ '>' :: rest) i 1 (some comma) = (some comma, some (i + text.length)) := by
  induction text generalizing i with
  | nil => rfl
  | cons c text ih =>
      obtain ⟨first, others⟩ := List.forall_mem_cons.mp plain
      have found : ¬ (c = ',' ∧ (1 : Int) = 1 ∧ some comma = none) := by simp
      rw [List.cons_append, scanArguments, if_neg first.1, if_neg first.2, if_neg found,
        ih (i + 1) others, List.length_cons, Nat.add_assoc, Nat.add_comm 1]

end Scan

/-! ## Signatures -/

/-- `getAsInteger(10, N)` reads decimal digits, and fails where their value does not fit. -/
def ReadsDecimal (getAsInteger : Name → Option UInt64) : Prop :=
  ∀ digits, digits ≠ [] → (∀ c ∈ digits, c.isDigit = true) →
    getAsInteger digits =
      if Nat.ofDigitChars 10 digits 0 < 2 ^ 64 then
        some (UInt64.ofNat (Nat.ofDigitChars 10 digits 0))
      else none

/-- A demangled name with the arguments of an array: a type that keeps its commas within brackets,
and a size. -/
structure ArraySignature where
  before : Name
  elem : Name
  gap : Name
  digits : Name
  literalSuffix : Name
  after : Name
  first : ¬ kTag <:+: before ++ kTag.dropLast
  shape : Bracketed.Outer NoBracket '<' '>' NoSeparator elem
  nonempty : elem ≠ []
  trimmed : trim elem = elem
  unelaborated : ∀ kw ∈ elaboratedKeywords, ¬ kw <+: elem
  blank : ∀ c ∈ gap, isSpace c = true
  number : digits ≠ []
  decimal : ∀ c ∈ digits, c.isDigit = true
  literal : ∀ c ∈ literalSuffix, c ∈ ['u', 'l', 'U', 'L']

namespace ArraySignature

variable (name : ArraySignature)

/-- What follows the comma. -/
def size : Name := name.gap ++ (name.digits ++ name.literalSuffix)

def text : Name := name.before ++ kTag ++ (name.elem ++ ',' :: (name.size ++ '>' :: name.after))

def value : Nat := Nat.ofDigitChars 10 name.digits 0

end ArraySignature

theorem drop_kTag (before after : Name) :
    (before ++ kTag ++ after).drop (before.length + kTag.length - 1) = '<' :: after ∧
      (before ++ kTag ++ after).drop (before.length + kTag.length - 1 + 1) = after := by
  have shape : before ++ kTag ++ after = before ++ kTag.dropLast ++ '<' :: after := by
    have last : kTag ++ after = kTag.dropLast ++ '<' :: after := rfl
    rw [List.append_assoc, last, List.append_assoc]
  constructor
  · rw [shape]
    exact List.drop_left' (by rw [List.length_append]; rfl)
  · exact List.drop_left' (by rw [List.length_append]; rfl)

/-- A size has no brackets. -/
theorem noBracket_size (name : ArraySignature) : ∀ c ∈ name.size, NoBracket c := by
  rw [ArraySignature.size, List.forall_mem_append, List.forall_mem_append]
  refine ⟨fun c member => ?_, fun c member => ?_, fun c member => ?_⟩
  · constructor
    all_goals
      rintro rfl
      exact absurd (name.blank _ member) (by decide)
  · constructor
    all_goals
      rintro rfl
      exact absurd (name.decimal _ member) (by decide)
  · constructor
    all_goals
      rintro rfl
      exact absurd (name.literal _ member) (by decide)

/-- The literal without the blanks before it. -/
theorem trim_size (name : ArraySignature) :
    trim name.size = name.digits ++ name.literalSuffix := by
  have visible : ∀ c ∈ name.digits ++ name.literalSuffix, isSpace c = false := by
    refine List.forall_mem_append.mpr ⟨fun c member => ?_, fun c member => ?_⟩
    · refine Bool.eq_false_iff.mpr fun space => ?_
      simp only [isSpace, Bool.or_eq_true, decide_eq_true_eq] at space
      rcases space with ((((rfl | rfl) | rfl) | rfl) | rfl) | rfl <;>
        exact absurd (name.decimal _ member) (by decide)
    · have letter := name.literal c member
      simp only [List.mem_cons, List.not_mem_nil, or_false] at letter
      rcases letter with rfl | rfl | rfl | rfl <;> rfl
  have start : (name.digits ++ name.literalSuffix).dropWhile isSpace =
      name.digits ++ name.literalSuffix := by
    obtain ⟨c, digits, shape⟩ := List.exists_cons_of_ne_nil name.number
    rw [shape, List.cons_append] at visible ⊢
    exact List.dropWhile_cons_of_neg (by simp [visible c List.mem_cons_self])
  rw [trim, ArraySignature.size, List.dropWhile_append_of_pos name.blank, start,
    List.rdropWhile_eq_self_iff]
  exact fun _ => by simp [visible _ (List.getLast_mem _)]

theorem takeWhile_digits (name : ArraySignature) :
    (name.digits ++ name.literalSuffix).takeWhile Char.isDigit = name.digits := by
  rw [List.takeWhile_append_of_pos name.decimal]
  cases suffix : name.literalSuffix with
  | nil => exact List.append_nil _
  | cons c rest =>
      have letter := name.literal c (suffix ▸ List.mem_cons_self)
      have other : c.isDigit = false := by
        simp only [List.mem_cons, List.not_mem_nil, or_false] at letter
        rcases letter with rfl | rfl | rfl | rfl <;> rfl
      rw [List.takeWhile_cons_of_neg (by rw [other]; decide), List.append_nil]

theorem stripKeyword_elem (name : ArraySignature) : stripKeyword name.elem = name.elem := by
  have none : elaboratedKeywords.find? (·.isPrefixOf name.elem) = none :=
    List.find?_eq_none.mpr fun kw member starts =>
      name.unelaborated kw member (List.isPrefixOf_iff_prefix.mp starts)
  rw [stripKeyword, none]
  rfl

/-- The scan finds the comma and the bracket of a signature. -/
theorem scanArguments_signature (name : ArraySignature) (opening : Nat) :
    scanArguments ('<' :: (name.elem ++ ',' :: (name.size ++ '>' :: name.after))) opening 0 none =
      (some (opening + 1 + name.elem.length),
        some (opening + 1 + name.elem.length + 1 + name.size.length)) := by
  rw [scanArguments, if_pos rfl, Int.zero_add, scanArguments_argument _ _ name.shape, scanArguments,
    if_neg (by decide), if_neg (by decide), if_pos ⟨rfl, rfl, rfl⟩,
    scanArguments_size _ _ (noBracket_size name)]

section Parse

variable {getAsInteger : Name → Option UInt64}

theorem parseArraySignature_signature (reads : ReadsDecimal getAsInteger) (name : ArraySignature) :
    parseArraySignature getAsInteger name.text =
      if 1 ≤ name.value ∧ name.value < 2 ^ 64 then some (name.elem, UInt64.ofNat name.value)
      else none := by
  have found : Text.split kTag name.text =
      some (name.before, name.elem ++ ',' :: (name.size ++ '>' :: name.after)) :=
    (Text.split_eq_some (by decide)).mpr ⟨rfl, name.first⟩
  obtain ⟨tagged, arguments⟩ := drop_kTag name.before
    (name.elem ++ ',' :: (name.size ++ '>' :: name.after))
  have elemPart (opening : Nat) (text : Name)
      (arguments : text.drop (opening + 1) =
        name.elem ++ ',' :: (name.size ++ '>' :: name.after)) :
      substr text (opening + 1) (opening + 1 + name.elem.length - (opening + 1)) = name.elem := by
    rw [substr, arguments, Nat.add_sub_cancel_left]
    exact List.take_left' rfl
  have nPart (opening : Nat) (text : Name)
      (arguments : text.drop (opening + 1) =
        name.elem ++ ',' :: (name.size ++ '>' :: name.after)) :
      substr text (opening + 1 + name.elem.length + 1)
        (opening + 1 + name.elem.length + 1 + name.size.length -
          (opening + 1 + name.elem.length + 1)) = name.size := by
    have behind : name.elem ++ ',' :: (name.size ++ '>' :: name.after) =
        (name.elem ++ [',']) ++ (name.size ++ '>' :: name.after) := by simp
    rw [substr, Nat.add_assoc (opening + 1), ← List.drop_drop, arguments, behind,
      List.drop_left' (by simp), Nat.add_sub_cancel_left]
    exact List.take_left' rfl
  rw [parseArraySignature, found, Option.bind_some]
  dsimp only
  rw [ArraySignature.text, tagged, scanArguments_signature]
  dsimp only
  rw [elemPart _ _ arguments, nPart _ _ arguments, name.trimmed, stripKeyword_elem, trim_size,
    takeWhile_digits, if_neg name.nonempty, if_neg name.number, reads _ name.number name.decimal,
    ← ArraySignature.value]
  by_cases fits : name.value < 2 ^ 64
  · have zero : UInt64.ofNat name.value = 0 ↔ name.value = 0 := by
      rw [← UInt64.toNat_inj, UInt64.toNat_ofNat_of_lt' fits]
      rfl
    rw [if_pos fits, Option.bind_some]
    by_cases empty : name.value = 0
    · rw [if_pos (zero.mpr empty), if_neg fun both => absurd both.1 (by rw [empty]; decide)]
    · rw [if_neg (mt zero.mp empty), if_pos ⟨Nat.pos_of_ne_zero empty, fits⟩]
  · rw [if_neg fits, if_neg fun both => fits both.2]
    rfl

theorem parseArraySignature_unclosed {before after : Name}
    (first : ¬ kTag <:+: before ++ kTag.dropLast)
    (never : ∀ front, front <+: after → front.count '>' ≤ front.count '<') :
    parseArraySignature getAsInteger (before ++ kTag ++ after) = none := by
  have found : Text.split kTag (before ++ kTag ++ after) = some (before, after) :=
    (Text.split_eq_some (by decide)).mpr ⟨rfl, first⟩
  have never : (scanArguments ('<' :: after) (before.length + kTag.length - 1) 0 none).2 = none := by
    rw [scanArguments, if_pos rfl]
    refine scanArguments_unclosed _ fun front starts => ?_
    have balance := never front starts
    omega
  rw [parseArraySignature, found, Option.bind_some]
  dsimp only
  rw [(drop_kTag before after).1]
  cases scan : scanArguments ('<' :: after) (before.length + kTag.length - 1) 0 none with
  | mk commaPos close =>
      rw [scan] at never
      obtain rfl : close = none := never
      cases commaPos <;> rfl

end Parse

/-- A signature gives its element type and its size where that is positive and fits; other sizes,
and arguments that are never closed, are rejected. -/
theorem parseArraySignature_spec {getAsInteger : Name → Option UInt64}
    (reads : ReadsDecimal getAsInteger) :
    (∀ name : ArraySignature, parseArraySignature getAsInteger name.text =
      if 1 ≤ name.value ∧ name.value < 2 ^ 64 then some (name.elem, UInt64.ofNat name.value)
      else none) ∧
      ∀ before after : Name, ¬ kTag <:+: before ++ kTag.dropLast →
        (∀ front, front <+: after → front.count '>' ≤ front.count '<') →
          parseArraySignature getAsInteger (before ++ kTag ++ after) = none :=
  ⟨parseArraySignature_signature reads, fun _ _ => parseArraySignature_unclosed⟩

/-! ## Reading digits -/

/-- The digits one by one; a result that is smaller than before has lost bits. -/
def consumeDigits : Name → UInt64 → Option UInt64
  | [], result => some result
  | c :: rest, result =>
      let next := result * 10 + UInt64.ofNat (c.toNat - '0'.toNat)
      if next / 10 < result then none else consumeDigits rest next

theorem le_ofDigitChars (digits : Name) (number : Nat) :
    number ≤ Nat.ofDigitChars 10 digits number := by
  rw [Nat.ofDigitChars_eq_ofDigitChars_zero]
  exact Nat.le_trans (Nat.le_mul_of_pos_left _ (Nat.pow_pos (by decide))) (Nat.le_add_right ..)

/-- Bits are lost exactly where the value does not fit. -/
theorem consumeDigits_eq {digits : Name} (decimal : ∀ c ∈ digits, c.isDigit = true)
    (result : UInt64) :
    consumeDigits digits result =
      if Nat.ofDigitChars 10 digits result.toNat < 2 ^ 64 then
        some (UInt64.ofNat (Nat.ofDigitChars 10 digits result.toNat))
      else none := by
  induction digits generalizing result with
  | nil =>
      rw [Nat.ofDigitChars_nil, if_pos result.toNat_lt, UInt64.ofNat_toNat]
      rfl
  | cons c digits ih =>
      obtain ⟨digit, others⟩ := List.forall_mem_cons.mp decimal
      have small : c.toNat - '0'.toNat < 10 := by
        obtain ⟨-, below⟩ := Bool.and_eq_true_iff.mp digit
        have := UInt32.le_iff_toNat_le.mp (of_decide_eq_true below)
        change c.toNat ≤ 57 at this
        change c.toNat - 48 < 10
        omega
      have bound := result.toNat_lt
      have next : (result * 10 + UInt64.ofNat (c.toNat - '0'.toNat)).toNat =
          (10 * result.toNat + (c.toNat - '0'.toNat)) % 2 ^ 64 := by
        rw [UInt64.toNat_add, UInt64.toNat_mul,
          UInt64.toNat_ofNat_of_lt' (Nat.lt_trans small (by decide)),
          Nat.mod_add_mod, Nat.mul_comm]
        rfl
      rw [consumeDigits, Nat.ofDigitChars_cons]
      by_cases fits : 10 * result.toNat + (c.toNat - '0'.toNat) < 2 ^ 64
      · rw [Nat.mod_eq_of_lt fits] at next
        rw [if_neg, ih others, next]
        rw [UInt64.lt_iff_toNat_lt, UInt64.toNat_div, next]
        change ¬ (10 * result.toNat + (c.toNat - '0'.toNat)) / 10 < result.toNat
        omega
      · have large := le_ofDigitChars digits (10 * result.toNat + (c.toNat - '0'.toNat))
        rw [if_pos, if_neg (by omega)]
        rw [UInt64.lt_iff_toNat_lt, UInt64.toNat_div, next]
        change (10 * result.toNat + (c.toNat - '0'.toNat)) % 2 ^ 64 / 10 < result.toNat
        omega

/-- `getAsInteger` on digits. -/
def getAsInteger (digits : Name) : Option UInt64 :=
  if digits = [] then none else consumeDigits digits 0

theorem readsDecimal_getAsInteger : ReadsDecimal getAsInteger := fun digits some decimal => by
  rw [getAsInteger, if_neg some, consumeDigits_eq decimal]
  rfl

/-- `sum(topo::array<ns::Pair<int, char>, 262144ul>&)`. -/
def pairs : ArraySignature where
  before := "sum(".toList
  elem := "ns::Pair<int, char>".toList
  gap := [' ']
  digits := "262144".toList
  literalSuffix := "ul".toList
  after := "&)".toList
  first := by decide
  shape := by
    have outer : Bracketed.Outer NoBracket '<' '>' NoSeparator "ns::Pair".toList :=
      .of_forall (by simp [NoSeparator])
    have inner : Bracketed.Balanced NoBracket '<' '>' "int, char".toList :=
      .of_plain (by simp [NoBracket])
    exact outer.append (.pair inner .nil)
  nonempty := by decide
  trimmed := by decide
  unelaborated := by decide
  blank := List.all_eq_true.mp rfl
  number := by decide
  decimal := List.all_eq_true.mp rfl
  literal := by simp

theorem parseArraySignature_pairs :
    parseArraySignature getAsInteger "sum(topo::array<ns::Pair<int, char>, 262144ul>&)".toList =
      some ("ns::Pair<int, char>".toList, 262144) := by
  have spec := (parseArraySignature_spec readsDecimal_getAsInteger).1 pairs
  have value : pairs.value = 262144 := by decide
  rw [value, if_pos (by decide)] at spec
  exact spec

/-- A type with a comma in its parameter list. -/
def callback : Name := "void (*)(int, int)".toList

theorem balanced_callback : Bracketed.Balanced NoBracket '<' '>' callback := by
  have plain : callback.all (fun c => decide (c ≠ '<' ∧ c ≠ '>')) = true := by decide
  refine .of_plain fun c mem => ?_
  have apart : c ≠ '<' ∧ c ≠ '>' := of_decide_eq_true (List.all_eq_true.mp plain c mem)
  exact apart

theorem parseArraySignature_callback :
    Bracketed.Balanced NoBracket '<' '>' callback ∧
      (∀ kw ∈ elaboratedKeywords, ¬ kw <+: callback) ∧ trim callback = callback ∧
        parseArraySignature getAsInteger
          ("run(".toList ++ kTag ++ (callback ++ ", 4ul>&)".toList)) = none :=
  ⟨balanced_callback, by decide, by decide, by decide⟩

end DataLayout
end TopoLlvm
