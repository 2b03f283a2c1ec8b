import TopoLlvm.Library.Bracketed
import Mathlib.Algebra.Group.Int.Defs
import Mathlib.Algebra.Ring.Nat
import Mathlib.Data.List.DropRight

/-!
# Demangled types

The reader that turns a demangled type such as `A::B<int, C<4>>` into a `TypeNode`.  It writes its
node as it goes, so `parseDemangledType` reads into a node of its own and hands that out only where
everything was read.
-/

namespace TopoLlvm
namespace Decompile
namespace DemangledType

/-- A `std::string`. -/
abbrev Text := List Char

/-- A type of the core; what this reader does not touch is in `modifiers`. -/
structure TypeNode (Modifiers : Type) where
  nameParts : List Text
  templateArgs : List (TypeNode Modifiers)
  nonTypeValue : Option Int
  modifiers : Modifiers

variable {Modifiers : Type}

instance [Inhabited Modifiers] : Inhabited (TypeNode Modifiers) where
  default := { nameParts := [], templateArgs := [], nonTypeValue := none, modifiers := default }

/-! ## Cutting -/

/-- `std::isspace`. -/
def isSpace (c : Char) : Bool := c ∈ [' ', '\t', '\n', '\x0b', '\x0c', '\r']

def trimWs (s : Text) : Text := (s.dropWhile isSpace).rdropWhile isSpace

/-- Split at the commas outside brackets; `cur` is the part so far. -/
def splitTopLevelArgs : (angle paren : Nat) → (cur : Text) → Text → Option (List Text)
  | angle, paren, cur, [] => if angle = 0 ∧ paren = 0 then some [cur] else none
  | angle, paren, cur, c :: s =>
      if c = '<' then splitTopLevelArgs (angle + 1) paren (cur ++ [c]) s
      else if c = '>' then
        if angle = 0 then none else splitTopLevelArgs (angle - 1) paren (cur ++ [c]) s
      else if c = '(' then splitTopLevelArgs angle (paren + 1) (cur ++ [c]) s
      else if c = ')' then
        if paren = 0 then none else splitTopLevelArgs angle (paren - 1) (cur ++ [c]) s
      else if c = ',' ∧ angle = 0 ∧ paren = 0 then
        (splitTopLevelArgs angle paren [] s).map (cur :: ·)
      else splitTopLevelArgs angle paren (cur ++ [c]) s

/-- The position of the last bracket that opens at depth zero, if there is one; `none` where the
brackets are not balanced. -/
def findOpenPos : (i angle : Nat) → (openPos : Option Nat) → Text → Option (Option Nat)
  | _, angle, openPos, [] => if angle = 0 then some openPos else none
  | i, angle, openPos, c :: s =>
      if c = '<' then findOpenPos (i + 1) (angle + 1) (if angle = 0 then some i else openPos) s
      else if c = '>' then if angle = 0 then none else findOpenPos (i + 1) (angle - 1) openPos s
      else findOpenPos (i + 1) angle openPos s

/-- Split at the `::` outside brackets. -/
def splitNameParts : (a : Int) → (part : Text) → Text → List Text
  | _, part, [] => [trimWs part]
  | _, part, [c] => [trimWs (part ++ [c])]
  | a, part, c :: d :: base =>
      let a := if c = '<' then a + 1 else if c = '>' then a - 1 else a
      if a = 0 ∧ c = ':' ∧ d = ':' then trimWs part :: splitNameParts a [] base
      else splitNameParts a (part ++ [c]) (d :: base)

/-! ## Integers -/

/-- The sign and the digits of a text that is an integer literal, perhaps with a suffix. -/
def integerLiteral (t : Text) : Option Text :=
  let sign := t.take (if t.head? = some '+' ∨ t.head? = some '-' then 1 else 0)
  let digits := (t.drop sign.length).takeWhile Char.isDigit
  let suffix := (t.drop sign.length).dropWhile Char.isDigit
  if digits ≠ [] ∧ suffix.all (· ∈ ['u', 'U', 'l', 'L']) then some (sign ++ digits) else none

/-- `std::stoi` of a sign and digits; `none` where it throws. -/
def stoi (literal : Text) : Option Int :=
  let value : Int :=
    if literal.head? = some '-' then -Nat.ofDigitChars 10 literal.tail 0
    else if literal.head? = some '+' then Nat.ofDigitChars 10 literal.tail 0
    else Nat.ofDigitChars 10 literal 0
  if -2 ^ 31 ≤ value ∧ value < 2 ^ 31 then some value else none

/-! ## Reading -/

/-- Read all but the arguments: whether that went well, the node, and the list of arguments if
there is one. -/
def parseName (raw : Text) (node : TypeNode Modifiers) :
    Bool × TypeNode Modifiers × Option Text :=
  let s := trimWs raw
  if s.isEmpty then (false, node, none)
  else
    match integerLiteral s with
    | some literal =>
        match stoi literal with
        | some value =>
            (true, { node with
              nonTypeValue := some value, nameParts := node.nameParts ++ [literal] }, none)
        | none => (false, node, none)
    | none =>
        match findOpenPos 0 0 none s with
        | none => (false, node, none)
        | some openPos =>
            if openPos.isSome ∧ s.getLast? ≠ some '>' then (false, node, none)
            else
              let base := openPos.elim s fun openPos => trimWs (s.take openPos)
              let argList := openPos.map fun openPos =>
                (s.drop (openPos + 1)).take (s.length - openPos - 2)
              if base.isEmpty then (false, node, none)
              else
                let nameParts := node.nameParts ++ splitNameParts 0 [] base
                (nameParts.all (!·.isEmpty), { node with nameParts }, argList)

/-! The text gets shorter with each argument. -/

theorem length_splitTopLevelArgs {angle paren : Nat} {cur s : Text} {tokens : List Text}
    (split : splitTopLevelArgs angle paren cur s = some tokens) :
    (tokens.map fun tok => tok.length + 1).sum = cur.length + s.length + 1 := by
  induction s generalizing angle paren cur tokens with
  | nil =>
      rw [splitTopLevelArgs] at split
      split at split
      · cases split
        simp
      · cases split
  | cons c s ih =>
      have longer {angle paren : Nat} {tokens : List Text}
          (split : splitTopLevelArgs angle paren (cur ++ [c]) s = some tokens) :
          (tokens.map fun tok => tok.length + 1).sum = cur.length + (c :: s).length + 1 := by
        rw [ih split, List.length_append, List.length_singleton, List.length_cons]
        omega
      rw [splitTopLevelArgs] at split
      split_ifs at split
      · exact longer split
      · exact longer split
      · exact longer split
      · exact longer split
      · obtain ⟨rest, later, rfl⟩ := Option.map_eq_some_iff.mp split
        rw [List.map_cons, List.sum_cons, ih later, List.length_nil, List.length_cons]
        omega
      · exact longer split

theorem length_trimWs_le (s : Text) : (trimWs s).length ≤ s.length := by
  rw [trimWs, List.rdropWhile, List.length_reverse]
  calc ((s.dropWhile isSpace).reverse.dropWhile isSpace).length
      ≤ (s.dropWhile isSpace).reverse.length := (List.dropWhile_sublist _).length_le
    _ = (s.dropWhile isSpace).length := List.length_reverse
    _ ≤ s.length := (List.dropWhile_sublist _).length_le

theorem length_argList {raw argList : Text} {node after : TypeNode Modifiers} {ok : Bool}
    (parsed : parseName raw node = (ok, after, some argList)) :
    argList.length < raw.length := by
  have shorter := length_trimWs_le raw
  simp only [parseName] at parsed
  split_ifs at parsed with empty
  · cases parsed
  · have nonempty : 0 < (trimWs raw).length := by
      simpa [List.length_pos_iff] using empty
    split at parsed
    · split at parsed <;> cases parsed
    · split at parsed
      · cases parsed
      · rename_i openPos _
        split_ifs at parsed
        · cases parsed
        · cases parsed
        · cases openPos with
          | none => simp at parsed
          | some openPos =>
              simp only [Option.map_some, Prod.mk.injEq, Option.some.injEq] at parsed
              rw [← parsed.2.2, List.length_take, List.length_drop]
              omega

variable [Inhabited Modifiers]

mutual

/-- Read into a node; where that fails, the node is written in part. -/
def parseDemangledTypeImpl (raw : Text) (node : TypeNode Modifiers) : Bool × TypeNode Modifiers :=
  match _named : parseName raw node with
  | (false, node, _) => (false, node)
  | (true, node, none) => (true, node)
  | (true, node, some argList) =>
      match _split : splitTopLevelArgs 0 0 [] argList with
      | none => (false, node)
      | some argTokens => parseArgs argTokens node
termination_by 3 * raw.length + 1
decreasing_by
  have shorter := length_argList _named
  have same := length_splitTopLevelArgs _split
  simp only [List.length_nil, Nat.zero_add] at same
  omega

/-- Read the arguments, one after the other. -/
def parseArgs (argTokens : List Text) (node : TypeNode Modifiers) : Bool × TypeNode Modifiers :=
  match argTokens with
  | [] => (true, node)
  | tok :: argTokens =>
      match parseDemangledType tok default with
      | (false, _) => (false, node)
      | (true, arg) =>
          parseArgs argTokens { node with templateArgs := node.templateArgs ++ [arg] }
termination_by 3 * (argTokens.map fun tok => tok.length + 1).sum

def parseDemangledType (raw : Text) (node : TypeNode Modifiers) : Bool × TypeNode Modifiers :=
  match parseDemangledTypeImpl raw default with
  | (false, _) => (false, node)
  | (true, tmp) => (true, tmp)
termination_by 3 * raw.length + 2

end

theorem parseDemangledTypeImpl_of_name {raw : Text} {node after : TypeNode Modifiers}
    (named : parseName raw node = (true, after, none)) :
    parseDemangledTypeImpl raw node = (true, after) := by
  rw [parseDemangledTypeImpl]
  split <;> rename_i found <;> rw [named] at found <;> cases found
  rfl

theorem parseDemangledTypeImpl_of_args {raw argList : Text} {argTokens : List Text}
    {node after : TypeNode Modifiers} (named : parseName raw node = (true, after, some argList))
    (divided : splitTopLevelArgs 0 0 [] argList = some argTokens) :
    parseDemangledTypeImpl raw node = parseArgs argTokens after := by
  rw [parseDemangledTypeImpl]
  split <;> rename_i found <;> rw [named] at found <;> cases found
  split <;> rename_i parts <;> rw [divided] at parts <;> cases parts
  rfl

/-- Read a name with arguments, and keep the modifiers of the node. -/
def recoverTemplateArgs (name : Text) (node : TypeNode Modifiers) : Bool × TypeNode Modifiers :=
  if '<' ∉ name then (false, node)
  else
    match parseDemangledType name (default : TypeNode Modifiers) with
    | (false, _) => (false, node)
    | (true, parsed) =>
        if parsed.templateArgs.isEmpty then (false, node)
        else
          (true, { node with
            nameParts := parsed.nameParts, templateArgs := parsed.templateArgs })

end DemangledType
end Decompile
end TopoLlvm
