import TopoLlvm.Library.Json

/-!
# Parsing JSON

A parser by descent.  It accepts exactly the texts of the grammar, each with the one value that the
text spells.
-/

namespace Json

def skipBlanks (text : List Char) : List Char := text.dropWhile isBlank

/-- Four hexadecimal digits and what follows them. -/
def parseHex4 (text : List Char) : Option (Nat × List Char) :=
  (hex4? (text.take 4)).map (·, text.drop 4)

/-- What follows the mark of an escape by number. -/
def parseCode (text : List Char) : Option (Char × List Char) :=
  (parseHex4 text).bind fun (code, rest) =>
    if isHighSurrogate code then
      match rest with
      | '\\' :: 'u' :: rest =>
          (parseHex4 rest).bind fun (code', rest) =>
            if isLowSurrogate code' then
              some (Char.ofNat (0x10000 + (code - 0xD800) * 0x400 + (code' - 0xDC00)), rest)
            else none
      | _ => none
    else if isLowSurrogate code then none
    else some (Char.ofNat code, rest)

/-- One character of a string. -/
def parseChar : List Char → Option (Char × List Char)
  | [] => none
  | c :: rest =>
      if c = '\\' then
        match rest with
        | [] => none
        | mark :: rest =>
            if mark = 'u' then parseCode rest else (simpleEscape? mark).map (·, rest)
      else if 0x20 ≤ c.toNat ∧ c ≠ '"' then some (c, rest)
      else none

/-- The characters up to the closing quote. -/
def parseString : Nat → List Char → Option (List Char × List Char)
  | 0, _ => none
  | fuel + 1, text =>
      if text.head? = some '"' then some ([], text.tail)
      else
        (parseChar text).bind fun (c, rest) =>
          (parseString fuel rest).map fun (chars, rest) => (c :: chars, rest)

/-- Characters that numbers consist of. -/
def isNumberChar (c : Char) : Bool :=
  c.isDigit || c = '-' || c = '+' || c = '.' || c = 'e' || c = 'E'

/-- A literal or a number. -/
def parseScalar (text : List Char) : Option (Value × List Char) :=
  if "null".toList.isPrefixOf text then some (.null, text.drop 4)
  else if "true".toList.isPrefixOf text then some (.boolean true, text.drop 4)
  else if "false".toList.isPrefixOf text then some (.boolean false, text.drop 5)
  else
    let lexeme := text.takeWhile isNumberChar
    if isNumber lexeme then some (.number lexeme, text.dropWhile isNumberChar) else none

mutual

def parseValue : Nat → List Char → Option (Value × List Char)
  | 0, _ => none
  | _ + 1, [] => none
  | fuel + 1, c :: rest =>
      if c = '"' then (parseString fuel rest).map fun (chars, rest) => (.string chars, rest)
      else if c = '[' then
        if (skipBlanks rest).head? = some ']' then some (.array [], (skipBlanks rest).tail)
        else (parseItems fuel rest).map fun (items, rest) => (.array items, rest)
      else if c = '{' then
        if (skipBlanks rest).head? = some '}' then some (.object [], (skipBlanks rest).tail)
        else (parseMembers fuel rest).map fun (members, rest) => (.object members, rest)
      else parseScalar (c :: rest)

/-- Items up to the closing bracket. -/
def parseItems : Nat → List Char → Option (List Value × List Char)
  | 0, _ => none
  | fuel + 1, text =>
      (parseValue fuel (skipBlanks text)).bind fun (item, rest) =>
        match skipBlanks rest with
        | ',' :: rest => (parseItems fuel rest).map fun (items, rest) => (item :: items, rest)
        | ']' :: rest => some ([item], rest)
        | _ => none

/-- Members up to the closing brace. -/
def parseMembers : Nat → List Char → Option (List (List Char × Value) × List Char)
  | 0, _ => none
  | fuel + 1, text =>
      match skipBlanks text with
      | '"' :: rest =>
          (parseString fuel rest).bind fun (key, rest) =>
            match skipBlanks rest with
            | ':' :: rest =>
                (parseValue fuel (skipBlanks rest)).bind fun (value, rest) =>
                  match skipBlanks rest with
                  | ',' :: rest =>
                      (parseMembers fuel rest).map fun (members, rest) =>
                        ((key, value) :: members, rest)
                  | '}' :: rest => some ([(key, value)], rest)
                  | _ => none
            | _ => none
      | _ => none

end

/-- The value that a text spells. -/
def parse (text : List Char) : Option Value :=
  (parseValue (text.length + 1) (skipBlanks text)).bind fun (value, rest) =>
    if skipBlanks rest = [] then some value else none

/-! ## Blanks -/

theorem skipBlanks_append {blank : List Char} (blanks : Blank blank) (rest : List Char) :
    skipBlanks (blank ++ rest) = skipBlanks rest :=
  List.dropWhile_append_of_pos blanks

theorem skipBlanks_cons {c : Char} (visible : isBlank c = false) (rest : List Char) :
    skipBlanks (c :: rest) = c :: rest :=
  List.dropWhile_cons_of_neg (by simp [visible])

theorem exists_blank (text : List Char) : ∃ blank, Blank blank ∧ text = blank ++ skipBlanks text :=
  ⟨text.takeWhile isBlank, fun _ member => List.mem_takeWhile_imp member,
    List.takeWhile_append_dropWhile.symm⟩

/-! ## Strings -/

theorem parseHex4_append {digits : List Char} {code : Nat} (hex : hex4? digits = some code)
    (rest : List Char) : parseHex4 (digits ++ rest) = some (code, rest) := by
  have four : digits.length = 4 := by
    unfold hex4? at hex
    split at hex
    · assumption
    · cases hex
  rw [parseHex4, List.take_left' four, List.drop_left' four, hex]
  rfl

theorem exists_of_parseHex4 {text rest : List Char} {code : Nat}
    (found : parseHex4 text = some (code, rest)) :
    ∃ digits, hex4? digits = some code ∧ text = digits ++ rest := by
  obtain ⟨code', hex, same⟩ := Option.map_eq_some_iff.mp found
  obtain ⟨rfl, rfl⟩ := Prod.mk.inj same
  exact ⟨text.take 4, hex, (List.take_append_drop 4 text).symm⟩

theorem parseCode_single {digits : List Char} {code : Nat} (hex : hex4? digits = some code)
    (high : isHighSurrogate code = false) (low : isLowSurrogate code = false)
    (rest : List Char) : parseCode (digits ++ rest) = some (Char.ofNat code, rest) := by
  rw [parseCode, parseHex4_append hex, Option.bind_some]
  simp [high, low]

theorem parseCode_pair {digits digits' : List Char} {code code' : Nat}
    (hex : hex4? digits = some code) (high : isHighSurrogate code = true)
    (hex' : hex4? digits' = some code') (low : isLowSurrogate code' = true) (rest : List Char) :
    parseCode (digits ++ '\\' :: 'u' :: (digits' ++ rest)) =
      some (Char.ofNat (0x10000 + (code - 0xD800) * 0x400 + (code' - 0xDC00)), rest) := by
  rw [parseCode, parseHex4_append hex, Option.bind_some]
  simp [high, parseHex4_append hex', low]

/-- A written character is read back. -/
theorem parseChar_append {text : List Char} {c : Char} (form : CharText text c)
    (rest : List Char) : parseChar (text ++ rest) = some (c, rest) := by
  cases form with
  | unescaped visible quote backslash =>
      simp [parseChar, visible, quote, backslash]
  | @escaped mark _ escape =>
      have apart : mark ≠ 'u' := by
        rintro rfl
        cases escape
      simp [parseChar, apart, escape]
  | code hex high low =>
      simp [parseChar, parseCode_single hex high low]
  | pair hex high hex' low =>
      simp [parseChar, parseCode_pair hex high hex' low]

theorem exists_of_parseCode {text rest : List Char} {c : Char}
    (found : parseCode text = some (c, rest)) :
    ∃ digits, CharText ('\\' :: 'u' :: digits) c ∧ text = digits ++ rest := by
  obtain ⟨⟨code, after⟩, first, next⟩ := Option.bind_eq_some_iff.mp found
  obtain ⟨digits, hex, rfl⟩ := exists_of_parseHex4 first
  simp only at next
  split at next
  · rename_i high
    split at next
    · obtain ⟨⟨code', last⟩, second, final⟩ := Option.bind_eq_some_iff.mp next
      obtain ⟨digits', hex', rfl⟩ := exists_of_parseHex4 second
      simp only at final
      split at final
      · rename_i low
        obtain ⟨rfl, rfl⟩ := Prod.mk.inj (Option.some.inj final)
        exact ⟨_, .pair hex high hex' low, by simp⟩
      · cases final
    · cases next
  · rename_i high
    split at next
    · cases next
    · rename_i low
      obtain ⟨rfl, rfl⟩ := Prod.mk.inj (Option.some.inj next)
      exact ⟨digits, .code hex (Bool.eq_false_iff.mpr high) (Bool.eq_false_iff.mpr low), rfl⟩

/-- What is read as a character is one that is written so. -/
theorem exists_of_parseChar {text rest : List Char} {c : Char}
    (found : parseChar text = some (c, rest)) :
    ∃ front, CharText front c ∧ text = front ++ rest := by
  unfold parseChar at found
  split at found
  · cases found
  · split at found
    · rename_i backslash
      subst backslash
      split at found
      · cases found
      · split at found
        · rename_i code
          subst code
          obtain ⟨digits, form, rfl⟩ := exists_of_parseCode found
          exact ⟨_, form, rfl⟩
        · obtain ⟨_, escape, same⟩ := Option.map_eq_some_iff.mp found
          obtain ⟨rfl, rfl⟩ := Prod.mk.inj same
          exact ⟨_, .escaped escape, rfl⟩
    · rename_i backslash
      split at found
      · rename_i plain
        obtain ⟨rfl, rfl⟩ := Prod.mk.inj (Option.some.inj found)
        exact ⟨_, .unescaped plain.1 plain.2 backslash, rfl⟩
      · cases found

/-- No character is written with a quote in front, and none as nothing. -/
theorem CharText.head {text : List Char} {c : Char} (form : CharText text c) :
    ∃ first rest, text = first :: rest ∧ first ≠ '"' := by
  cases form with
  | unescaped _ quote _ => exact ⟨_, _, rfl, quote⟩
  | escaped _ => exact ⟨_, _, rfl, by decide⟩
  | code _ _ _ => exact ⟨_, _, rfl, by decide⟩
  | pair _ _ _ _ => exact ⟨_, _, rfl, by decide⟩

/-- A written string is read up to its closing quote. -/
theorem parseString_append {body chars : List Char} (form : StringText body chars)
    (rest : List Char) {fuel : Nat} (enough : body.length < fuel) :
    parseString fuel (body ++ '"' :: rest) = some (chars, rest) := by
  induction form generalizing fuel with
  | nil =>
      obtain ⟨fuel, rfl⟩ := Nat.exists_eq_add_of_lt enough
      simp [parseString]
  | @cons text others chars c first _ ih =>
      obtain ⟨fuel, rfl⟩ : ∃ less, fuel = less + 1 := ⟨fuel - 1, by omega⟩
      obtain ⟨head, tail, rfl, quote⟩ := first.head
      have shorter : others.length < fuel := by
        simp only [List.length_append, List.length_cons] at enough
        omega
      rw [parseString, if_neg (by simpa using quote), List.append_assoc, parseChar_append first,
        Option.bind_some]
      simp only [ih shorter, Option.map_some]

theorem exists_of_parseString {fuel : Nat} {text chars rest : List Char}
    (found : parseString fuel text = some (chars, rest)) :
    ∃ body, StringText body chars ∧ text = body ++ '"' :: rest := by
  induction fuel generalizing text chars with
  | zero => cases found
  | succ fuel ih =>
      rw [parseString] at found
      split at found
      · rename_i quote
        obtain ⟨rfl, rfl⟩ := Prod.mk.inj (Option.some.inj found)
        exact ⟨[], .nil, (List.cons_head?_tail quote).symm⟩
      · obtain ⟨⟨c, after⟩, first, found⟩ := Option.bind_eq_some_iff.mp found
        obtain ⟨⟨others, last⟩, later, same⟩ := Option.map_eq_some_iff.mp found
        obtain ⟨rfl, rfl⟩ := Prod.mk.inj same
        obtain ⟨front, form, rfl⟩ := exists_of_parseChar first
        obtain ⟨body, forms, rfl⟩ := ih later
        exact ⟨front ++ body, .cons form forms, (List.append_assoc ..).symm⟩

/-! ## Scalars -/

theorem isNumberChar_of_isDigit {c : Char} (digit : c.isDigit = true) : isNumberChar c = true := by
  simp [isNumberChar, digit]

theorem isNumberChar_of_mem_takeWhile {text : List Char} {c : Char}
    (member : c ∈ text.takeWhile Char.isDigit) : isNumberChar c = true :=
  isNumberChar_of_isDigit (List.mem_takeWhile_imp member)

theorem isNumberChar_of_isExponent {text : List Char} (form : isExponent text = true) {c : Char}
    (member : c ∈ text) : isNumberChar c = true := by
  cases text with
  | nil => cases member
  | cons mark rest =>
      simp only [isExponent, Bool.and_eq_true, Bool.or_eq_true, decide_eq_true_eq,
        List.all_eq_true] at form
      obtain ⟨⟨marks, -⟩, digits⟩ := form
      rcases List.mem_cons.mp member with rfl | later
      · rcases marks with rfl | rfl <;> rfl
      · split at digits
        · rename_i sign
          cases rest with
          | nil => cases later
          | cons first rest =>
              rcases List.mem_cons.mp later with rfl | inside
              · rcases sign with plus | minus
                · cases plus
                  rfl
                · cases minus
                  rfl
              · exact isNumberChar_of_isDigit (digits c inside)
        · exact isNumberChar_of_isDigit (digits c later)

theorem isNumberChar_of_isFraction {text : List Char} (form : isFraction text = true) {c : Char}
    (member : c ∈ text) : isNumberChar c = true := by
  unfold isFraction at form
  split at form
  · rename_i point
    obtain ⟨rest, rfl⟩ := List.head?_eq_some_iff.mp point
    rcases List.mem_cons.mp member with rfl | inside
    · rfl
    · rw [← rest.takeWhile_append_dropWhile (p := Char.isDigit)] at inside
      rcases List.mem_append.mp inside with digit | exponent
      · exact isNumberChar_of_mem_takeWhile digit
      · exact isNumberChar_of_isExponent (Bool.and_eq_true_iff.mp form).2 exponent
  · exact isNumberChar_of_isExponent form member

/-- A number consists of the characters of numbers. -/
theorem isNumberChar_of_isNumber {lexeme : List Char} (form : isNumber lexeme = true) {c : Char}
    (member : c ∈ lexeme) : isNumberChar c = true := by
  have unsigned {text : List Char} (form : isFraction (text.dropWhile Char.isDigit) = true)
      (inside : c ∈ text) : isNumberChar c = true := by
    rw [← text.takeWhile_append_dropWhile (p := Char.isDigit)] at inside
    exact (List.mem_append.mp inside).elim isNumberChar_of_mem_takeWhile
      (isNumberChar_of_isFraction form)
  obtain ⟨-, fraction⟩ := Bool.and_eq_true_iff.mp form
  split at fraction
  · rename_i minus
    obtain ⟨rest, rfl⟩ := List.head?_eq_some_iff.mp minus
    rcases List.mem_cons.mp member with rfl | inside
    · rfl
    · exact unsigned fraction inside
  · exact unsigned fraction member

/-- A number starts with a minus or a digit. -/
theorem head_of_isNumber {lexeme : List Char} (form : isNumber lexeme = true) :
    ∃ first rest, lexeme = first :: rest ∧ (first = '-' ∨ first.isDigit = true) := by
  cases lexeme with
  | nil => cases form
  | cons first rest =>
      refine ⟨first, rest, rfl, or_iff_not_imp_left.mpr fun minus => ?_⟩
      obtain ⟨integer, -⟩ := Bool.and_eq_true_iff.mp form
      rw [if_neg (by simpa using minus)] at integer
      by_contra digit
      rw [List.takeWhile_cons_of_neg digit] at integer
      cases integer

/-- The rest goes on with no character that a number before it could take. -/
def Delimited (rest : List Char) : Prop := ∀ c ∈ rest.head?, isNumberChar c = false

theorem takeWhile_number {lexeme rest : List Char} (form : isNumber lexeme = true)
    (delimited : Delimited rest) : (lexeme ++ rest).takeWhile isNumberChar = lexeme := by
  rw [List.takeWhile_append_of_pos fun c member => isNumberChar_of_isNumber form member]
  cases rest with
  | nil => exact List.append_nil lexeme
  | cons c rest =>
      have stops : ¬ isNumberChar c = true := by simp [delimited c rfl]
      rw [List.takeWhile_cons_of_neg stops, List.append_nil]

theorem parseScalar_number {lexeme rest : List Char} (form : isNumber lexeme = true)
    (delimited : Delimited rest) :
    parseScalar (lexeme ++ rest) = some (.number lexeme, rest) := by
  obtain ⟨first, others, shape, starts⟩ := head_of_isNumber form
  have letter {word : List Char} (initial : Char) (head : word.head? = some initial)
      (other : first ≠ initial) : ¬ word.isPrefixOf (lexeme ++ rest) = true := by
    obtain ⟨letters, rfl⟩ := List.head?_eq_some_iff.mp head
    rw [shape]
    simp [List.isPrefixOf, other.symm]
  have apart {initial : Char} (minus : '-' ≠ initial) (digit : initial.isDigit = false) :
      first ≠ initial := by
    rintro rfl
    rcases starts with rfl | isDigit
    · exact minus rfl
    · rw [digit] at isDigit
      cases isDigit
  have dropped : (lexeme ++ rest).dropWhile isNumberChar = rest := by
    have whole := (lexeme ++ rest).takeWhile_append_dropWhile (p := isNumberChar)
    rw [takeWhile_number form delimited] at whole
    exact List.append_cancel_left whole
  rw [parseScalar, if_neg (letter 'n' rfl (apart (by decide) (by decide))),
    if_neg (letter 't' rfl (apart (by decide) (by decide))),
    if_neg (letter 'f' rfl (apart (by decide) (by decide)))]
  simp only [takeWhile_number form delimited, form, dropped, if_true]

theorem exists_of_parseScalar {text rest : List Char} {value : Value}
    (found : parseScalar text = some (value, rest)) :
    ∃ front, text = front ++ rest ∧ Derives (.value value) front := by
  have word {letters : List Char} (starts : letters.isPrefixOf text = true) :
      text = letters ++ text.drop letters.length :=
    List.prefix_iff_eq_append.mp (List.isPrefixOf_iff_prefix.mp starts) |>.symm
  unfold parseScalar at found
  split at found
  · rename_i starts
    obtain ⟨rfl, rfl⟩ := Prod.mk.inj (Option.some.inj found)
    exact ⟨_, word starts, .null⟩
  · split at found
    · rename_i starts
      obtain ⟨rfl, rfl⟩ := Prod.mk.inj (Option.some.inj found)
      exact ⟨_, word starts, .isTrue⟩
    · split at found
      · rename_i starts
        obtain ⟨rfl, rfl⟩ := Prod.mk.inj (Option.some.inj found)
        exact ⟨_, word starts, .isFalse⟩
      · simp only at found
        split at found
        · rename_i form
          obtain ⟨rfl, rfl⟩ := Prod.mk.inj (Option.some.inj found)
          exact ⟨_, List.takeWhile_append_dropWhile.symm, .number form⟩
        · cases found

/-! ## What the parser accepts -/

/-- Everything that the parser reads is derived. -/
theorem derives_of_parse (fuel : Nat) :
    (∀ text value rest, parseValue fuel text = some (value, rest) →
      ∃ front, text = front ++ rest ∧ Derives (.value value) front) ∧
    (∀ text items rest, parseItems fuel text = some (items, rest) →
      ∃ front, text = front ++ ']' :: rest ∧ Derives (.items items) front) ∧
    ∀ text members rest, parseMembers fuel text = some (members, rest) →
      ∃ front, text = front ++ '}' :: rest ∧ Derives (.members members) front := by
  induction fuel with
  | zero => exact ⟨nofun, nofun, nofun⟩
  | succ fuel ih =>
      obtain ⟨ihValue, ihItems, ihMembers⟩ := ih
      -- a value between blanks, up to a visible character
      have padded {text between rest : List Char} {value : Value}
          (found : parseValue fuel (skipBlanks text) = some (value, between))
          (stops : skipBlanks between = rest) :
          ∃ front, text = front ++ rest ∧ Derives (.padded value) front := by
        obtain ⟨before, left, whole⟩ := exists_blank text
        obtain ⟨front, shape, inside⟩ := ihValue _ _ _ found
        obtain ⟨after, right, shape'⟩ := exists_blank between
        refine ⟨before ++ (front ++ after), ?_, .padded left inside right⟩
        rw [whole, shape, shape', stops]
        simp only [List.append_assoc]
      refine ⟨fun text value rest found => ?_, fun text items rest found => ?_,
        fun text members rest found => ?_⟩
      · cases text with
        | nil => cases found
        | cons c text =>
            rw [parseValue] at found
            split at found
            · rename_i quote
              subst quote
              obtain ⟨⟨chars, after⟩, inside, same⟩ := Option.map_eq_some_iff.mp found
              obtain ⟨rfl, rfl⟩ := Prod.mk.inj same
              obtain ⟨body, form, rfl⟩ := exists_of_parseString inside
              exact ⟨'"' :: (body ++ ['"']), by simp, .string form⟩
            · split at found
              · rename_i bracket
                subst bracket
                split at found
                · rename_i closes
                  obtain ⟨rfl, rfl⟩ := Prod.mk.inj (Option.some.inj found)
                  obtain ⟨blank, blanks, whole⟩ := exists_blank text
                  rw [← List.cons_head?_tail closes] at whole
                  refine ⟨'[' :: (blank ++ [']']), ?_, .emptyArray blanks⟩
                  exact (congrArg ('[' :: ·) whole).trans (by simp)
                · obtain ⟨⟨items, after⟩, inside, same⟩ := Option.map_eq_some_iff.mp found
                  obtain ⟨rfl, rfl⟩ := Prod.mk.inj same
                  obtain ⟨front, rfl, form⟩ := ihItems _ _ _ inside
                  exact ⟨'[' :: (front ++ [']']), by simp, .array form⟩
              · split at found
                · rename_i brace
                  subst brace
                  split at found
                  · rename_i closes
                    obtain ⟨rfl, rfl⟩ := Prod.mk.inj (Option.some.inj found)
                    obtain ⟨blank, blanks, whole⟩ := exists_blank text
                    rw [← List.cons_head?_tail closes] at whole
                    refine ⟨'{' :: (blank ++ ['}']), ?_, .emptyObject blanks⟩
                    exact (congrArg ('{' :: ·) whole).trans (by simp)
                  · obtain ⟨⟨members, after⟩, inside, same⟩ := Option.map_eq_some_iff.mp found
                    obtain ⟨rfl, rfl⟩ := Prod.mk.inj same
                    obtain ⟨front, rfl, form⟩ := ihMembers _ _ _ inside
                    exact ⟨'{' :: (front ++ ['}']), by simp, .object form⟩
                · exact exists_of_parseScalar found
      · obtain ⟨⟨item, between⟩, first, next⟩ := Option.bind_eq_some_iff.mp found
        simp only at next
        split at next
        · rename_i others stops
          obtain ⟨⟨items, after⟩, later, same⟩ := Option.map_eq_some_iff.mp next
          obtain ⟨rfl, rfl⟩ := Prod.mk.inj same
          obtain ⟨front, rfl, item⟩ := padded first stops
          obtain ⟨front', rfl, items⟩ := ihItems _ _ _ later
          exact ⟨front ++ ',' :: front', by simp, .nextItem item items⟩
        · rename_i others stops
          obtain ⟨rfl, rfl⟩ := Prod.mk.inj (Option.some.inj next)
          obtain ⟨front, rfl, item⟩ := padded first stops
          exact ⟨front, rfl, .lastItem item⟩
        · cases next
      · rw [parseMembers] at found
        split at found
        · rename_i after opens
          obtain ⟨before, left, whole⟩ := exists_blank text
          rw [opens] at whole
          obtain ⟨⟨key, between⟩, name, next⟩ := Option.bind_eq_some_iff.mp found
          obtain ⟨body, form, rfl⟩ := exists_of_parseString name
          simp only at next
          split at next
          · rename_i colon
            obtain ⟨blank, right, between⟩ := exists_blank between
            rw [colon] at between
            obtain ⟨⟨value, later⟩, member, final⟩ := Option.bind_eq_some_iff.mp next
            simp only at final
            split at final
            · rename_i others stops
              obtain ⟨⟨members, last⟩, more, same⟩ := Option.map_eq_some_iff.mp final
              obtain ⟨rfl, rfl⟩ := Prod.mk.inj same
              obtain ⟨front, rfl, item⟩ := padded member stops
              obtain ⟨front', rfl, rest⟩ := ihMembers _ _ _ more
              exact ⟨_, by rw [whole, between]; simp, .nextMember left form right item rest⟩
            · rename_i others stops
              obtain ⟨rfl, rfl⟩ := Prod.mk.inj (Option.some.inj final)
              obtain ⟨front, rfl, item⟩ := padded member stops
              exact ⟨_, by rw [whole, between]; simp, .lastMember left form right item⟩
            · cases final
          · cases next
        · cases found

/-! ## What the grammar derives -/

/-- The text has a visible character after its blanks, and no closing bracket there. -/
def Opens (text : List Char) : Prop :=
  ∃ blank c rest, text = blank ++ c :: rest ∧ Blank blank ∧ isBlank c = false ∧ c ≠ ']' ∧ c ≠ '}'

theorem Opens.append {text : List Char} (opens : Opens text) (rest : List Char) :
    Opens (text ++ rest) := by
  obtain ⟨blank, c, more, rfl, blanks, visible⟩ := opens
  exact ⟨blank, c, more ++ rest, by simp, blanks, visible⟩

theorem Opens.blank {before text : List Char} (left : Blank before) (opens : Opens text) :
    Opens (before ++ text) := by
  obtain ⟨blank, c, more, rfl, blanks, visible⟩ := opens
  exact ⟨before ++ blank, c, more, by simp, fun c member =>
    (List.mem_append.mp member).elim (left c) (blanks c), visible⟩

/-- The first visible character is not a closing bracket. -/
theorem Opens.head {text : List Char} (opens : Opens text) :
    (skipBlanks text).head? ≠ some ']' ∧ (skipBlanks text).head? ≠ some '}' := by
  obtain ⟨blank, c, more, rfl, blanks, visible, bracket, brace⟩ := opens
  rw [skipBlanks_append blanks, skipBlanks_cons visible]
  simp [bracket, brace]

/-- A value starts with a visible character that closes nothing. -/
theorem Derives.cons {value : Value} {text : List Char} (derives : Derives (.value value) text) :
    ∃ c rest, text = c :: rest ∧ isBlank c = false ∧ c ≠ ']' ∧ c ≠ '}' := by
  cases derives with
  | null | isTrue | isFalse => exact ⟨_, _, rfl, by decide⟩
  | string _ | emptyArray _ | array _ | emptyObject _ | object _ => exact ⟨_, _, rfl, by decide⟩
  | number form =>
      obtain ⟨first, rest, rfl, starts⟩ := head_of_isNumber form
      refine ⟨first, rest, rfl, ?_⟩
      rcases starts with rfl | digit
      · decide
      · have apart {c : Char} (other : c.isDigit = false) : first ≠ c := by
          rintro rfl
          rw [digit] at other
          cases other
        refine ⟨?_, apart (by decide), apart (by decide)⟩
        unfold isBlank
        rw [decide_eq_false (apart (by decide)), decide_eq_false (apart (by decide)),
          decide_eq_false (apart (by decide)), decide_eq_false (apart (by decide))]
        rfl

theorem Derives.opens {node : Node} {text : List Char} (derives : Derives node text) :
    Opens text := by
  have value {value : Value} {text : List Char} (derives : Derives (.value value) text) :
      Opens text := by
    obtain ⟨c, rest, rfl, visible⟩ := derives.cons
    exact ⟨[], c, rest, rfl, nofun, visible⟩
  induction derives with
  | null => exact value .null
  | isTrue => exact value .isTrue
  | isFalse => exact value .isFalse
  | number form => exact value (.number form)
  | string form => exact value (.string form)
  | emptyArray blanks => exact value (.emptyArray blanks)
  | array inside _ => exact value (.array inside)
  | emptyObject blanks => exact value (.emptyObject blanks)
  | object inside _ => exact value (.object inside)
  | padded left inside _ _ => exact ((value inside).append _).blank left
  | lastItem _ ih => exact ih
  | nextItem _ _ ih _ => exact ih.append _
  | lastMember left _ _ _ _ => exact ⟨_, _, _, rfl, left, by decide⟩
  | nextMember left _ _ _ _ _ _ => exact ⟨_, _, _, rfl, left, by decide⟩

/-- The rest starts with a character that is visible and in no number. -/
def Stops (rest : List Char) : Prop :=
  ∀ c ∈ rest.head?, isNumberChar c = false ∧ isBlank c = false

theorem Stops.cons {c : Char} {rest : List Char}
    (stops : isNumberChar c = false ∧ isBlank c = false) : Stops (c :: rest) :=
  fun _ here => Option.some.inj here ▸ stops

theorem Stops.skipBlanks {rest : List Char} (stops : Stops rest) : skipBlanks rest = rest := by
  cases rest with
  | nil => rfl
  | cons c rest => exact skipBlanks_cons (stops c rfl).2 rest

/-- Blanks before a rest that stops do not go on with a number. -/
theorem Stops.delimited {blank rest : List Char} (stops : Stops rest) (blanks : Blank blank) :
    Delimited (blank ++ rest) := by
  cases blank with
  | nil => exact fun c here => (stops c here).1
  | cons first blank =>
      intro c here
      obtain rfl := Option.some.inj here
      have isBlank := blanks first List.mem_cons_self
      simp only [Json.isBlank, Bool.or_eq_true, decide_eq_true_eq] at isBlank
      rcases isBlank with ((rfl | rfl) | rfl) | rfl <;> decide

/-- How the parser reads a text where enough fuel is left and the rest does not go on with it. -/
def Reads : Node → List Char → Prop
  | .value value, text => ∀ fuel rest, text.length < fuel → Delimited rest →
      parseValue fuel (text ++ rest) = some (value, rest)
  | .padded value, text => ∀ fuel rest, text.length < fuel → Stops rest →
      ∃ between, parseValue fuel (skipBlanks (text ++ rest)) = some (value, between) ∧
        skipBlanks between = rest
  | .items items, text => ∀ fuel rest, text.length + 1 < fuel →
      parseItems fuel (text ++ ']' :: rest) = some (items, rest)
  | .members members, text => ∀ fuel rest, text.length + 1 < fuel →
      parseMembers fuel (text ++ '}' :: rest) = some (members, rest)

theorem parseValue_scalar {c : Char} (quote : c ≠ '"') (bracket : c ≠ '[') (brace : c ≠ '{')
    (fuel : Nat) (rest : List Char) :
    parseValue (fuel + 1) (c :: rest) = parseScalar (c :: rest) := by
  rw [parseValue, if_neg quote, if_neg bracket, if_neg brace]

/-- After its key, a member goes on with its value. -/
theorem parseMembers_key {before body key between : List Char} (left : Blank before)
    (name : StringText body key) (right : Blank between) {fuel : Nat}
    (enough : body.length < fuel) (text : List Char) :
    parseMembers (fuel + 1) (before ++ '"' :: (body ++ '"' :: (between ++ ':' :: text))) =
      (parseValue fuel (skipBlanks text)).bind fun (value, rest) =>
        match skipBlanks rest with
        | ',' :: rest =>
            (parseMembers fuel rest).map fun (members, rest) => ((key, value) :: members, rest)
        | '}' :: rest => some ([(key, value)], rest)
        | _ => none := by
  rw [parseMembers, skipBlanks_append left, skipBlanks_cons (by decide)]
  simp only [parseString_append name _ enough, Option.bind_some, skipBlanks_append right]
  rw [skipBlanks_cons (by decide)]
  rfl

/-- Every derived text is read. -/
theorem Derives.reads {node : Node} {text : List Char} (derives : Derives node text) :
    Reads node text := by
  -- one unit of fuel goes into the call itself
  have spend {bound fuel : Nat} (enough : bound < fuel) : ∃ less, fuel = less + 1 :=
    ⟨fuel - 1, by omega⟩
  induction derives with
  | null | isTrue | isFalse =>
      intro fuel rest enough _
      obtain ⟨fuel, rfl⟩ := spend enough
      rfl
  | number form =>
      intro fuel rest enough delimited
      obtain ⟨fuel, rfl⟩ := spend enough
      have scalar := parseScalar_number form delimited
      obtain ⟨first, others, rfl, starts⟩ := head_of_isNumber form
      have apart {c : Char} (minus : '-' ≠ c) (other : c.isDigit = false) : first ≠ c := by
        rintro rfl
        rcases starts with rfl | digit
        · exact minus rfl
        · rw [digit] at other
          cases other
      rw [List.cons_append, parseValue_scalar (apart (by decide) (by decide))
        (apart (by decide) (by decide)) (apart (by decide) (by decide))]
      exact scalar
  | @string body chars form =>
      intro fuel rest enough _
      obtain ⟨fuel, rfl⟩ := spend enough
      have inner : body.length < fuel := by
        simp only [List.length_cons, List.length_append] at enough
        omega
      rw [List.cons_append, parseValue, if_pos rfl, List.append_assoc, List.singleton_append,
        parseString_append form rest inner]
      rfl
  | emptyArray blanks =>
      intro fuel rest enough _
      obtain ⟨fuel, rfl⟩ := spend enough
      simp [parseValue, skipBlanks_append blanks, skipBlanks_cons (c := ']') rfl]
  | @array items text inside ih =>
      intro fuel rest enough _
      obtain ⟨fuel, rfl⟩ := spend enough
      have inner : text.length + 1 < fuel := by
        simp only [List.length_cons, List.length_append] at enough
        omega
      have goesOn := (inside.opens.append (']' :: rest)).head.1
      rw [List.cons_append, List.append_assoc, List.singleton_append, parseValue,
        if_neg (by decide), if_pos rfl, if_neg goesOn, ih fuel rest inner]
      rfl
  | emptyObject blanks =>
      intro fuel rest enough _
      obtain ⟨fuel, rfl⟩ := spend enough
      simp [parseValue, skipBlanks_append blanks, skipBlanks_cons (c := '}') rfl]
  | @object members text inside ih =>
      intro fuel rest enough _
      obtain ⟨fuel, rfl⟩ := spend enough
      have inner : text.length + 1 < fuel := by
        simp only [List.length_cons, List.length_append] at enough
        omega
      have goesOn := (inside.opens.append ('}' :: rest)).head.2
      rw [List.cons_append, List.append_assoc, List.singleton_append, parseValue,
        if_neg (by decide), if_neg (by decide), if_pos rfl, if_neg goesOn, ih fuel rest inner]
      rfl
  | @padded before text after value left inside right ih =>
      intro fuel rest enough stops
      obtain ⟨c, others, shape, visible, -⟩ := inside.cons
      have inner : text.length < fuel := by
        simp only [List.length_append] at enough
        omega
      have start : skipBlanks (text ++ (after ++ rest)) = text ++ (after ++ rest) := by
        rw [shape]
        exact skipBlanks_cons visible _
      refine ⟨after ++ rest, ?_, ?_⟩
      · rw [List.append_assoc, skipBlanks_append left, List.append_assoc, start]
        exact ih fuel _ inner (stops.delimited right)
      · rw [skipBlanks_append right, stops.skipBlanks]
  | @lastItem text item last ih =>
      intro fuel rest enough
      obtain ⟨fuel, rfl⟩ := spend enough
      obtain ⟨between, parsed, stop⟩ := ih fuel (']' :: rest) (by omega) (.cons (by decide))
      rw [parseItems, parsed, Option.bind_some]
      simp only [stop]
  | @nextItem text others item items first _ ih ihOthers =>
      intro fuel rest enough
      obtain ⟨fuel, rfl⟩ := spend enough
      simp only [List.length_append, List.length_cons] at enough
      obtain ⟨between, parsed, stop⟩ := ih fuel (',' :: (others ++ ']' :: rest)) (by omega)
        (.cons (by decide))
      rw [List.append_assoc, List.cons_append, parseItems, parsed, Option.bind_some]
      simp only [stop, ihOthers fuel rest (by omega), Option.map_some]
  | @lastMember before body key between text value left name right last ih =>
      intro fuel rest enough
      obtain ⟨fuel, rfl⟩ := spend enough
      simp only [List.length_append, List.length_cons] at enough
      obtain ⟨after, parsed, stop⟩ := ih fuel ('}' :: rest) (by omega) (.cons (by decide))
      have shape : before ++ '"' :: (body ++ '"' :: (between ++ ':' :: text)) ++ '}' :: rest =
          before ++ '"' :: (body ++ '"' :: (between ++ ':' :: (text ++ '}' :: rest))) := by simp
      rw [shape, parseMembers_key left name right (by omega), parsed, Option.bind_some]
      simp only [stop]
  | @nextMember before body key between text others value members left name right _ _ ih ihOthers =>
      intro fuel rest enough
      obtain ⟨fuel, rfl⟩ := spend enough
      simp only [List.length_append, List.length_cons] at enough
      obtain ⟨after, parsed, stop⟩ := ih fuel (',' :: (others ++ '}' :: rest)) (by omega)
        (.cons (by decide))
      have shape : before ++ '"' :: (body ++ '"' :: (between ++ ':' :: (text ++ ',' :: others))) ++
          '}' :: rest = before ++ '"' :: (body ++ '"' :: (between ++ ':' ::
            (text ++ ',' :: (others ++ '}' :: rest)))) := by simp
      rw [shape, parseMembers_key left name right (by omega), parsed, Option.bind_some]
      simp only [stop, ihOthers fuel rest (by omega), Option.map_some]

/-- The parser accepts the texts of the grammar, each with its value. -/
theorem parse_eq_some_iff {text : List Char} {value : Value} :
    parse text = some value ↔ Spells text value := by
  constructor
  · intro found
    obtain ⟨⟨value', rest⟩, inside, same⟩ := Option.bind_eq_some_iff.mp found
    simp only at same
    split at same
    · rename_i ends
      obtain rfl := Option.some.inj same
      obtain ⟨front, shape, form⟩ := (derives_of_parse _).1 _ _ _ inside
      obtain ⟨before, left, whole⟩ := exists_blank text
      obtain ⟨after, right, whole'⟩ := exists_blank rest
      rw [ends, List.append_nil] at whole'
      rw [whole, shape, whole']
      exact .padded left form right
    · cases same
  · intro spells
    obtain ⟨between, parsed, stop⟩ := spells.reads (text.length + 1) [] (by omega) nofun
    rw [List.append_nil] at parsed
    rw [parse, parsed, Option.bind_some]
    simp only [stop, if_true]

end Json
