import Mathlib.Data.List.Basic
import Mathlib.Data.List.TakeWhile

/-!
# JSON texts

The grammar of RFC 8259 on lists of characters.  Numbers are kept as they are written, and the
escapes of a string must spell Unicode characters.
-/

namespace Json

inductive Value where
  | null
  | boolean (value : Bool)
  | number (lexeme : List Char)
  | string (chars : List Char)
  | array (items : List Value)
  | object (members : List (List Char × Value))

def isBlank (c : Char) : Bool := c = ' ' || c = '\t' || c = '\n' || c = '\r'

def Blank (text : List Char) : Prop := ∀ c ∈ text, isBlank c = true

/-- Digits without a leading zero. -/
def isInteger (digits : List Char) : Bool :=
  digits ≠ [] && (digits.head? ≠ some '0' || digits.length = 1)

def isExponent : List Char → Bool
  | [] => true
  | mark :: rest =>
      let digits := if rest.head? = some '+' || rest.head? = some '-' then rest.tail else rest
      (mark = 'e' || mark = 'E') && digits ≠ [] && digits.all Char.isDigit

/-- A fraction and an exponent, each of which may be missing. -/
def isFraction (text : List Char) : Bool :=
  if text.head? = some '.' then
    text.tail.takeWhile Char.isDigit ≠ [] && isExponent (text.tail.dropWhile Char.isDigit)
  else isExponent text

def isNumber (lexeme : List Char) : Bool :=
  let text := if lexeme.head? = some '-' then lexeme.tail else lexeme
  isInteger (text.takeWhile Char.isDigit) && isFraction (text.dropWhile Char.isDigit)

def hexDigit? (c : Char) : Option Nat :=
  if c.isDigit then some (c.toNat - '0'.toNat)
  else if 'a' ≤ c ∧ c ≤ 'f' then some (c.toNat - 'a'.toNat + 10)
  else if 'A' ≤ c ∧ c ≤ 'F' then some (c.toNat - 'A'.toNat + 10)
  else none

/-- The number of four hexadecimal digits. -/
def hex4? (digits : List Char) : Option Nat :=
  if digits.length = 4 then
    digits.foldlM (fun number c => (hexDigit? c).map (16 * number + ·)) 0
  else none

def simpleEscapes : List (Char × Char) :=
  [('"', '"'), ('\\', '\\'), ('/', '/'), ('b', '\x08'), ('f', '\x0c'), ('n', '\n'), ('r', '\r'),
    ('t', '\t')]

def simpleEscape? (mark : Char) : Option Char := simpleEscapes.lookup mark

def isHighSurrogate (code : Nat) : Bool := 0xD800 ≤ code && code < 0xDC00

def isLowSurrogate (code : Nat) : Bool := 0xDC00 ≤ code && code < 0xE000

/-- One character of a string as it may be written. -/
inductive CharText : List Char → Char → Prop where
  | unescaped {c : Char} (visible : 0x20 ≤ c.toNat) (quote : c ≠ '"') (backslash : c ≠ '\\') :
      CharText [c] c
  | escaped {mark c : Char} (escape : simpleEscape? mark = some c) : CharText ['\\', mark] c
  | code {digits : List Char} {code : Nat} (hex : hex4? digits = some code)
      (high : isHighSurrogate code = false) (low : isLowSurrogate code = false) :
      CharText ('\\' :: 'u' :: digits) (Char.ofNat code)
  | pair {digits digits' : List Char} {code code' : Nat} (hex : hex4? digits = some code)
      (high : isHighSurrogate code = true) (hex' : hex4? digits' = some code')
      (low : isLowSurrogate code' = true) :
      CharText ('\\' :: 'u' :: (digits ++ '\\' :: 'u' :: digits'))
        (Char.ofNat (0x10000 + (code - 0xD800) * 0x400 + (code' - 0xDC00)))

/-- The characters of a string between its quotes. -/
inductive StringText : List Char → List Char → Prop where
  | nil : StringText [] []
  | cons {text rest chars : List Char} {c : Char} (first : CharText text c)
      (others : StringText rest chars) : StringText (text ++ rest) (c :: chars)

/-- What a text may spell: a value, a value between blanks, or what stands between brackets. -/
inductive Node where
  | value (value : Value)
  | padded (value : Value)
  | items (items : List Value)
  | members (members : List (List Char × Value))

inductive Derives : Node → List Char → Prop where
  | null : Derives (.value .null) "null".toList
  | isTrue : Derives (.value (.boolean true)) "true".toList
  | isFalse : Derives (.value (.boolean false)) "false".toList
  | number {lexeme : List Char} (form : isNumber lexeme = true) :
      Derives (.value (.number lexeme)) lexeme
  | string {body chars : List Char} (form : StringText body chars) :
      Derives (.value (.string chars)) ('"' :: (body ++ ['"']))
  | emptyArray {blank : List Char} (blanks : Blank blank) :
      Derives (.value (.array [])) ('[' :: (blank ++ [']']))
  | array {items : List Value} {text : List Char} (inside : Derives (.items items) text) :
      Derives (.value (.array items)) ('[' :: (text ++ [']']))
  | emptyObject {blank : List Char} (blanks : Blank blank) :
      Derives (.value (.object [])) ('{' :: (blank ++ ['}']))
  | object {members : List (List Char × Value)} {text : List Char}
      (inside : Derives (.members members) text) :
      Derives (.value (.object members)) ('{' :: (text ++ ['}']))
  | padded {before text after : List Char} {value : Value} (left : Blank before)
      (inside : Derives (.value value) text) (right : Blank after) :
      Derives (.padded value) (before ++ (text ++ after))
  | lastItem {text : List Char} {item : Value} (last : Derives (.padded item) text) :
      Derives (.items [item]) text
  | nextItem {text rest : List Char} {item : Value} {items : List Value}
      (first : Derives (.padded item) text) (others : Derives (.items items) rest) :
      Derives (.items (item :: items)) (text ++ ',' :: rest)
  | lastMember {before body key between text : List Char} {value : Value} (left : Blank before)
      (name : StringText body key) (right : Blank between)
      (last : Derives (.padded value) text) :
      Derives (.members [(key, value)])
        (before ++ '"' :: (body ++ '"' :: (between ++ ':' :: text)))
  | nextMember {before body key between text rest : List Char} {value : Value}
      {members : List (List Char × Value)} (left : Blank before) (name : StringText body key)
      (right : Blank between) (first : Derives (.padded value) text)
      (others : Derives (.members members) rest) :
      Derives (.members ((key, value) :: members))
        (before ++ '"' :: (body ++ '"' :: (between ++ ':' :: (text ++ ',' :: rest))))

/-- The text is a JSON text for the value. -/
def Spells (text : List Char) (value : Value) : Prop := Derives (.padded value) text

end Json
