import TopoLlvm.Library.JsonWriter

/-!
# Dumping JSON

A value as an indented text: two more blanks for each level, a line for each item or member.  What
is dumped spells the value.
-/

namespace Json

/-- A new line with an indentation. -/
def newLine (depth : Nat) : List Char := '\n' :: List.replicate depth ' '

/-- A control character by its code. -/
def controlText (c : Char) : List Char :=
  ['\\', 'u', '0', '0', Nat.digitChar (c.toNat / 16), Nat.digitChar (c.toNat % 16)]

def writeChar (c : Char) : List Char :=
  if c = '"' then ['\\', '"']
  else if c = '\\' then ['\\', '\\']
  else if c = '\x08' then ['\\', 'b']
  else if c = '\x0c' then ['\\', 'f']
  else if c = '\n' then ['\\', 'n']
  else if c = '\r' then ['\\', 'r']
  else if c = '\t' then ['\\', 't']
  else if c.toNat < 0x20 then controlText c
  else [c]

def writeString (chars : List Char) : List Char := '"' :: (chars.flatMap writeChar ++ ['"'])

mutual

/-- The text of a value at a depth. -/
def dumpAt (depth : Nat) : Value → List Char
  | .null => "null".toList
  | .boolean true => "true".toList
  | .boolean false => "false".toList
  | .number lexeme => lexeme
  | .string chars => writeString chars
  | .array [] => ['[', ']']
  | .array (item :: items) =>
      '[' :: ((newLine (depth + 2) ++ (dumpAt (depth + 2) item ++
        dumpItems (depth + 2) items (newLine depth))) ++ [']'])
  | .object [] => ['{', '}']
  | .object ((key, value) :: members) =>
      '{' :: ((newLine (depth + 2) ++ (writeString key ++ ':' :: ' ' :: (dumpAt (depth + 2) value ++
        dumpMembers (depth + 2) members (newLine depth)))) ++ ['}'])

/-- The items after the first one, and what stands before the bracket. -/
def dumpItems (depth : Nat) : List Value → List Char → List Char
  | [], last => last
  | item :: items, last =>
      ',' :: (newLine depth ++ (dumpAt depth item ++ dumpItems depth items last))

def dumpMembers (depth : Nat) : List (List Char × Value) → List Char → List Char
  | [], last => last
  | (key, value) :: members, last =>
      ',' :: (newLine depth ++ (writeString key ++ ':' :: ' ' :: (dumpAt depth value ++
        dumpMembers depth members last)))

end

def dump (value : Value) : List Char := dumpAt 0 value

mutual

/-- All numbers are numbers of the grammar. -/
def Value.IsNumeric : Value → Prop
  | .null | .boolean _ | .string _ => True
  | .number lexeme => isNumber lexeme = true
  | .array items => AllNumeric items
  | .object members => MembersNumeric members

def AllNumeric : List Value → Prop
  | [] => True
  | item :: items => item.IsNumeric ∧ AllNumeric items

def MembersNumeric : List (List Char × Value) → Prop
  | [] => True
  | (_, value) :: members => value.IsNumeric ∧ MembersNumeric members

end

theorem allNumeric_iff {items : List Value} :
    AllNumeric items ↔ ∀ item ∈ items, item.IsNumeric := by
  induction items with
  | nil => simp [AllNumeric]
  | cons item items ih => simp [AllNumeric, ih]

theorem membersNumeric_iff {members : List (List Char × Value)} :
    MembersNumeric members ↔ ∀ member ∈ members, member.2.IsNumeric := by
  induction members with
  | nil => simp [MembersNumeric]
  | cons member members ih =>
      obtain ⟨key, value⟩ := member
      rw [MembersNumeric, ih, List.forall_mem_cons]

theorem blank_newLine (depth : Nat) : Blank (newLine depth) := by
  intro c member
  rcases List.mem_cons.mp member with rfl | space
  · rfl
  · rw [List.eq_of_mem_replicate space]
    rfl

theorem charText_control {c : Char} (control : c.toNat < 0x20) : CharText (controlText c) c := by
  have table : ∀ code < 0x20, hex4? ['0', '0', Nat.digitChar (code / 16),
      Nat.digitChar (code % 16)] = some code ∧ isHighSurrogate code = false ∧
        isLowSurrogate code = false := by decide
  obtain ⟨hex, high, low⟩ := table c.toNat control
  have text := CharText.code hex high low
  rwa [Char.ofNat_toNat] at text

theorem charText_writeChar (c : Char) : CharText (writeChar c) c := by
  unfold writeChar
  split_ifs with quote backslash backspace feed line carriage tab control
  · subst quote
    exact .escaped rfl
  · subst backslash
    exact .escaped rfl
  · subst backspace
    exact .escaped rfl
  · subst feed
    exact .escaped rfl
  · subst line
    exact .escaped rfl
  · subst carriage
    exact .escaped rfl
  · subst tab
    exact .escaped rfl
  · exact charText_control control
  · exact .unescaped (Nat.le_of_not_lt control) quote backslash

theorem stringText_writeChar (chars : List Char) :
    StringText (chars.flatMap writeChar) chars := by
  induction chars with
  | nil => exact .nil
  | cons c chars ih => exact .cons (charText_writeChar c) ih

theorem blank_space : Blank [' '] := List.all_eq_true.mp rfl

theorem padded_dump (depth : Nat) {value : Value} {text : List Char}
    (inside : Derives (.value value) text) : Derives (.padded value) (newLine depth ++ text) := by
  simpa using Derives.padded (blank_newLine depth) inside blank_nil

mutual

theorem derives_dumpAt (depth : Nat) : ∀ value : Value, value.IsNumeric →
    Derives (.value value) (dumpAt depth value)
  | .null, _ => .null
  | .boolean true, _ => .isTrue
  | .boolean false, _ => .isFalse
  | .number _, numeric => .number numeric
  | .string chars, _ => .string (stringText_writeChar chars)
  | .array [], _ => .emptyArray blank_nil
  | .array (item :: items), numeric => .array (derives_dumpItems (depth + 2) items numeric.2
      (blank_newLine depth) (derives_dumpAt (depth + 2) item numeric.1))
  | .object [], _ => .emptyObject blank_nil
  | .object ((key, value) :: members), numeric => .object (derives_dumpMembers (depth + 2) members
      numeric.2 (blank_newLine depth) key (derives_dumpAt (depth + 2) value numeric.1))

theorem derives_dumpItems (depth : Nat) : ∀ (items : List Value), AllNumeric items →
    ∀ {last : List Char}, Blank last → ∀ {item : Value} {text : List Char},
      Derives (.value item) text →
        Derives (.items (item :: items)) (newLine depth ++ (text ++ dumpItems depth items last))
  | [], _, _, blank, _, _, first => .lastItem (.padded (blank_newLine depth) first blank)
  | next :: items, numeric, _, blank, _, _, first => by
      have later := derives_dumpItems depth items numeric.2 blank
        (derives_dumpAt depth next numeric.1)
      have whole := Derives.nextItem (padded_dump depth first) later
      rwa [List.append_assoc] at whole

theorem derives_dumpMembers (depth : Nat) : ∀ (members : List (List Char × Value)),
    MembersNumeric members → ∀ {last : List Char}, Blank last → ∀ (key : List Char)
      {value : Value} {text : List Char}, Derives (.value value) text →
        Derives (.members ((key, value) :: members))
          (newLine depth ++ (writeString key ++ ':' :: ' ' :: (text ++
            dumpMembers depth members last)))
  | [], _, _, blank, key, _, text, first => by
      have inside := Derives.padded blank_space first blank
      have whole := Derives.lastMember (blank_newLine depth) (stringText_writeChar key) blank_nil
        inside
      simpa [writeString, dumpMembers] using whole
  | (next, value) :: members, numeric, _, blank, key, _, text, first => by
      have inside := Derives.padded blank_space first blank_nil
      have later := derives_dumpMembers depth members numeric.2 blank next
        (derives_dumpAt depth value numeric.1)
      have whole := Derives.nextMember (blank_newLine depth) (stringText_writeChar key) blank_nil
        inside later
      simpa [writeString, dumpMembers] using whole

end

theorem spells_dump {value : Value} (numeric : value.IsNumeric) : Spells (dump value) value :=
  (derives_dumpAt 0 value numeric).pad

end Json
