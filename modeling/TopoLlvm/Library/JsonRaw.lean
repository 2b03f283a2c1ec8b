import TopoLlvm.Library.JsonWriter

/-!
# Strings written as they are

A string that is written between quotes without escapes is read back as it was exactly where it
has none of the characters that need an escape.
-/

namespace Json

/-- A quote inside a written character is an escaped one. -/
theorem CharText.quote {text : List Char} {c : Char} (form : CharText text c) {index : Nat}
    (quoted : text[index]? = some '"') : c = '"' ∧ 0 < index := by
  have none {digits : List Char} {code : Nat} (hex : hex4? digits = some code) :
      '"' ∉ digits := fun member =>
    absurd (isSome_hexDigit?_of_hex4? hex '"' member) (by decide)
  have member := List.mem_of_getElem? quoted
  cases form with
  | unescaped _ quote _ => exact absurd (List.mem_singleton.mp member).symm quote
  | @escaped mark _ escape =>
      rcases index with _ | _ | index
      · cases quoted
      · cases quoted
        exact ⟨(Option.some.inj escape).symm, Nat.one_pos⟩
      · cases quoted
  | code hex _ _ => exact absurd member (by simp [none hex])
  | pair hex _ hex' _ => exact absurd member (by simp [none hex, none hex'])

theorem CharText.length_pos {text : List Char} {c : Char} (form : CharText text c) :
    0 < text.length := by
  obtain ⟨first, rest, rfl, -⟩ := form.head
  exact Nat.succ_pos _

/-- What is written in one character needs no escape. -/
theorem CharText.plain {text : List Char} {c : Char} (form : CharText text c)
    (short : text.length ≤ 1) : text = [c] ∧ isPlain c = true := by
  cases form with
  | unescaped visible quote backslash => exact ⟨rfl, by simp [isPlain, visible, quote, backslash]⟩
  | escaped _ | code _ _ _ | pair _ _ _ _ =>
      simp only [List.length_cons] at short
      omega

variable {body chars : List Char}

theorem StringText.length_le (form : StringText body chars) : chars.length ≤ body.length := by
  induction form with
  | nil => exact Nat.le_refl _
  | cons first _ ih =>
      have := first.length_pos
      rw [List.length_cons, List.length_append]
      omega

/-- A string that is not longer when it is written has no escapes. -/
theorem StringText.plain (form : StringText body chars) (short : body.length ≤ chars.length) :
    body = chars ∧ chars.all isPlain = true := by
  induction form with
  | nil => exact ⟨rfl, rfl⟩
  | @cons text rest chars c first others ih =>
      have pos := first.length_pos
      have le := others.length_le
      rw [List.length_cons, List.length_append] at short
      obtain ⟨rfl, plain⟩ := first.plain (by omega)
      obtain ⟨rfl, rest⟩ := ih (by omega)
      exact ⟨rfl, by rw [List.all_cons, plain, rest]; rfl⟩

/-- A quote in a written string is written for one that comes earlier in the string. -/
theorem StringText.quote (form : StringText body chars) {index : Nat}
    (quoted : body[index]? = some '"') : ∃ earlier < index, chars[earlier]? = some '"' := by
  induction form generalizing index with
  | nil => cases quoted
  | @cons text rest chars c first _ ih =>
      by_cases inside : index < text.length
      · rw [List.getElem?_append_left inside] at quoted
        obtain ⟨rfl, pos⟩ := first.quote quoted
        exact ⟨0, pos, rfl⟩
      · have pos := first.length_pos
        rw [List.getElem?_append_right (by omega)] at quoted
        obtain ⟨earlier, before, found⟩ := ih quoted
        exact ⟨earlier + 1, by omega, found⟩

/-- A string that is read as it is written needs no escapes, wherever its closing quote is taken to
be. -/
theorem StringText.of_raw {raw rest after : List Char} (form : StringText body raw)
    (same : raw ++ '"' :: rest = body ++ '"' :: after) :
    raw.all isPlain = true ∧ rest = after := by
  have le := form.length_le
  by_cases longer : raw.length < body.length
  · -- Each quote in the body would come from an earlier one.
    have agrees {index : Nat} (small : index < body.length) :
        body[index]? = (raw ++ '"' :: rest)[index]? := by
      rw [same, List.getElem?_append_left small]
    have quoteless (index : Nat) : body[index]? ≠ some '"' := by
      induction index using Nat.strongRecOn with
      | ind index ih =>
          intro quoted
          obtain ⟨earlier, before, found⟩ := form.quote quoted
          have small := (List.getElem?_eq_some_iff.mp found).1
          refine ih earlier before ?_
          rw [agrees (by omega), List.getElem?_append_left small, found]
    refine absurd ?_ (quoteless raw.length)
    rw [agrees longer, List.getElem?_append_right (Nat.le_refl _), Nat.sub_self,
      List.getElem?_cons_zero]
  · obtain ⟨rfl, plain⟩ := form.plain (by omega)
    exact ⟨plain, (List.cons.inj (List.append_cancel_left same)).2⟩

/-- What stands before the first quote is the body where it needs no escapes. -/
theorem StringText.of_plain {plain rest after : List Char} (form : StringText body chars)
    (isPlain : plain.all isPlain = true)
    (same : plain ++ '"' :: rest = body ++ '"' :: after) : chars = plain ∧ rest = after := by
  have read {text : List Char} (fuel : Nat) (enough : body.length + plain.length < fuel) :
      parseString fuel (plain ++ '"' :: rest) = some (plain, rest) ∧
        parseString fuel (body ++ '"' :: after) = some (chars, after) :=
    ⟨parseString_append (stringText_plain isPlain) rest (by omega),
      parseString_append form after (by omega)⟩
  obtain ⟨first, second⟩ := @read [] _ (Nat.lt_succ_self _)
  rw [same, second] at first
  obtain ⟨chars, after⟩ := Prod.mk.inj (Option.some.inj first)
  exact ⟨chars, after.symm⟩

/-! ## Parsing what is written as it is -/

/-- The parser reads an item, and goes on at a comma. -/
theorem exists_of_parseItems {fuel : Nat} {text after : List Char} {items : List Value}
    (found : parseItems fuel text = some (items, after)) :
    ∃ fuel' item others between, items = item :: others ∧
      parseValue fuel' (skipBlanks text) = some (item, between) ∧
      ((∃ more, skipBlanks between = ',' :: more ∧
          parseItems fuel' more = some (others, after)) ∨
        skipBlanks between = ']' :: after ∧ others = []) := by
  cases fuel with
  | zero => cases found
  | succ fuel =>
      obtain ⟨⟨item, between⟩, first, next⟩ := Option.bind_eq_some_iff.mp found
      simp only at next
      split at next
      · rename_i more comma
        obtain ⟨⟨others, _⟩, rest, same⟩ := Option.map_eq_some_iff.mp next
        obtain ⟨rfl, rfl⟩ := Prod.mk.inj same
        exact ⟨fuel, item, others, between, rfl, first, .inl ⟨more, comma, rest⟩⟩
      · rename_i bracket
        obtain ⟨rfl, rfl⟩ := Prod.mk.inj (Option.some.inj next)
        exact ⟨fuel, item, [], between, rfl, first, .inr ⟨bracket, rfl⟩⟩
      · cases next

/-- A string value ends at a quote. -/
theorem exists_of_parseValue_string {fuel : Nat} {text after : List Char} {value : Value}
    (found : parseValue fuel ('"' :: text) = some (value, after)) :
    ∃ body chars, value = .string chars ∧ StringText body chars ∧ text = body ++ '"' :: after := by
  cases fuel with
  | zero => cases found
  | succ fuel =>
      rw [parseValue, if_pos rfl] at found
      obtain ⟨⟨chars, _⟩, read, same⟩ := Option.map_eq_some_iff.mp found
      obtain ⟨rfl, rfl⟩ := Prod.mk.inj same
      obtain ⟨body, form, shape⟩ := exists_of_parseString read
      exact ⟨body, chars, rfl, form, shape⟩

/-- A member whose value is written as it is has that value only where it needs no escapes, and
then the parser goes on behind it. -/
theorem exists_of_parseMembers_raw {fuel : Nat} {before key raw rest after : List Char}
    {members : List (List Char × Value)} (left : Blank before) (plain : key.all isPlain = true)
    (found : parseMembers fuel (before ++ '"' :: (key ++ '"' :: ':' :: ' ' :: '"' ::
      (raw ++ '"' :: rest))) = some (members, after)) :
    ∃ fuel' chars others, members = (key, .string chars) :: others ∧
      (chars = raw → raw.all isPlain = true ∧
        ((∃ more, skipBlanks rest = ',' :: more ∧
            parseMembers fuel' more = some (others, after)) ∨
          skipBlanks rest = '}' :: after ∧ others = [])) := by
  cases fuel with
  | zero => cases found
  | succ fuel =>
      rw [parseMembers, skipBlanks_append left, skipBlanks_cons (by decide)] at found
      obtain ⟨⟨key', colon⟩, name, next⟩ := Option.bind_eq_some_iff.mp found
      obtain ⟨body, form, shape⟩ := exists_of_parseString name
      obtain ⟨rfl, rfl⟩ := form.of_plain plain shape
      simp only [skipBlanks_cons (c := ':') (by decide)] at next
      obtain ⟨⟨value, between⟩, member, final⟩ := Option.bind_eq_some_iff.mp next
      have blank : skipBlanks (' ' :: '"' :: (raw ++ '"' :: rest)) = '"' :: (raw ++ '"' :: rest) :=
        rfl
      rw [blank] at member
      obtain ⟨body, chars, rfl, form, shape⟩ := exists_of_parseValue_string member
      have ends (same : chars = raw) : raw.all isPlain = true ∧ rest = between := by
        subst same
        exact form.of_raw shape
      simp only at final
      split at final
      · rename_i more comma
        obtain ⟨⟨others, _⟩, later, same⟩ := Option.map_eq_some_iff.mp final
        obtain ⟨rfl, rfl⟩ := Prod.mk.inj same
        refine ⟨fuel, chars, others, rfl, fun same => ?_⟩
        obtain ⟨plain, rfl⟩ := ends same
        exact ⟨plain, .inl ⟨more, comma, later⟩⟩
      · rename_i brace
        obtain ⟨rfl, rfl⟩ := Prod.mk.inj (Option.some.inj final)
        refine ⟨fuel, chars, [], rfl, fun same => ?_⟩
        obtain ⟨plain, rfl⟩ := ends same
        exact ⟨plain, .inr ⟨brace, rfl⟩⟩
      · cases final

end Json
