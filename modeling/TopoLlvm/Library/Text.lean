import Mathlib.Data.List.DropRight
import Mathlib.Data.List.Infix

/-!
# Cutting texts

The searches and cuts of string code: up to a first character, before trailing blanks, and at the
first or the last occurrence of a pattern.
-/

namespace Text

variable {α : Type*}

theorem append_dropLast_begins (before pattern after : List α) :
    before ++ pattern.dropLast <+: before ++ pattern ++ after := by
  rw [List.append_assoc]
  refine (List.prefix_append_right_inj before).mpr ?_
  exact (List.dropLast_prefix pattern).trans (List.prefix_append _ _)

variable [DecidableEq α]

/-- The text before the first occurrence of a character, all of it where there is none. -/
def upTo (stop : α) (text : List α) : List α := text.takeWhile (· ≠ stop)

/-- The text without trailing blanks. -/
def trimEnd (blank : α) (text : List α) : List α := text.rdropWhile (· = blank)

/-- The parts before and after the first occurrence of a pattern. -/
def split (pattern : List α) : List α → Option (List α × List α)
  | [] => if pattern = [] then some ([], []) else none
  | head :: tail =>
      if pattern.isPrefixOf (head :: tail) then some ([], (head :: tail).drop pattern.length)
      else (split pattern tail).map fun (before, after) => (head :: before, after)

/-- The parts before and after the last occurrence of a pattern. -/
def rsplit (pattern : List α) : List α → Option (List α × List α)
  | [] => if pattern = [] then some ([], []) else none
  | head :: tail =>
      match rsplit pattern tail with
      | some (before, after) => some (head :: before, after)
      | none =>
          if pattern.isPrefixOf (head :: tail) then some ([], (head :: tail).drop pattern.length)
          else none

/-- The part after the last occurrence of a pattern, all of the text where there is none. -/
def afterLast (pattern text : List α) : List α := (rsplit pattern text).elim text Prod.snd

theorem upTo_append_cons {stop : α} {text : List α} (outside : stop ∉ text) (rest : List α) :
    upTo stop (text ++ stop :: rest) = text := by
  have kept : ∀ letter ∈ text, decide (letter ≠ stop) = true := by
    rintro letter member
    exact decide_eq_true fun same => outside (same ▸ member)
  rw [upTo, List.takeWhile_append_of_pos kept]
  simp

/-- A text that is cut within is shorter. -/
theorem length_upTo_append_lt {stop : α} {text : List α} (inside : stop ∈ text) (rest : List α) :
    (upTo stop (text ++ rest)).length < text.length := by
  obtain ⟨before, after, rfl, outside⟩ := List.eq_append_cons_of_mem inside
  rw [List.append_assoc, List.cons_append, upTo_append_cons outside]
  simp

theorem length_trimEnd_le (blank : α) (text : List α) :
    (trimEnd blank text).length ≤ text.length := by
  rw [trimEnd, List.rdropWhile, List.length_reverse]
  exact (List.dropWhile_sublist _).length_le.trans List.length_reverse.le

theorem length_trimEnd_lt {blank : α} {text : List α} (ends : text.getLast? = some blank) :
    (trimEnd blank text).length < text.length := by
  cases text using List.reverseRecOn with
  | nil => simp at ends
  | append_singleton text last =>
      obtain rfl : last = blank := by simpa using ends
      rw [trimEnd, List.rdropWhile_concat_pos _ _ _ (by simp)]
      exact Nat.lt_of_le_of_lt (length_trimEnd_le last text) (by simp)

theorem trimEnd_eq_self_iff {blank : α} {text : List α} :
    trimEnd blank text = text ↔ text.getLast? ≠ some blank := by
  rw [trimEnd, List.rdropWhile_eq_self_iff]
  cases text using List.reverseRecOn with
  | nil => simp
  | append_singleton text last => simp

theorem split_eq_none {pattern text : List α} : split pattern text = none ↔ ¬pattern <:+: text := by
  induction text with
  | nil => simp [split]
  | cons head tail ih =>
      simp only [split, List.isPrefixOf_iff_prefix, List.infix_cons_iff, not_or]
      split
      · rename_i here
        simp [here]
      · rename_i later
        simp [later, ih]

/-- The first occurrence of a pattern is the one that no other begins before. -/
theorem split_eq_some {pattern text before after : List α} (nonempty : pattern ≠ []) :
    split pattern text = some (before, after) ↔
      text = before ++ pattern ++ after ∧ ¬pattern <:+: before ++ pattern.dropLast := by
  constructor
  · intro found
    induction text generalizing before with
    | nil => simp [split, nonempty] at found
    | cons head tail ih =>
        simp only [split, List.isPrefixOf_iff_prefix] at found
        split at found
        · rename_i here
          obtain ⟨rest, here⟩ := here
          simp only [← here, List.drop_left, Option.some.injEq, Prod.mk.injEq] at found
          obtain ⟨rfl, rfl⟩ := found
          refine ⟨here.symm, fun within => ?_⟩
          have shorter := within.length_le
          have positive := List.length_pos_of_ne_nil nonempty
          simp only [List.nil_append, List.length_dropLast] at shorter
          omega
        · rename_i later
          obtain ⟨⟨front, rest⟩, inTail, same⟩ := Option.map_eq_some_iff.mp found
          cases same
          obtain ⟨rfl, first⟩ := ih inTail
          refine ⟨rfl, fun within => ?_⟩
          rcases List.infix_cons_iff.mp within with here | there
          · exact later (here.trans (append_dropLast_begins (head :: front) pattern _))
          · exact first there
  · rintro ⟨rfl, first⟩
    induction before with
    | nil =>
        obtain ⟨head, tail, rfl⟩ := List.exists_cons_of_ne_nil nonempty
        simp [split, List.isPrefixOf_iff_prefix]
    | cons head before ih =>
        rw [List.cons_append, List.infix_cons_iff, not_or] at first
        have later : ¬pattern <+: head :: (before ++ pattern ++ after) := by
          intro here
          refine first.1 (List.prefix_of_prefix_length_le here
            (append_dropLast_begins (head :: before) pattern after) ?_)
          simp only [List.length_cons, List.length_append, List.length_dropLast]
          omega
        rw [← List.isPrefixOf_iff_prefix] at later
        rw [List.cons_append, List.cons_append, split, if_neg later, ih first.2]
        rfl

theorem rsplit_eq_none {pattern text : List α} :
    rsplit pattern text = none ↔ ¬pattern <:+: text := by
  induction text with
  | nil => simp [rsplit]
  | cons head tail ih =>
      cases later : rsplit pattern tail with
      | some parts =>
          have inTail : pattern <:+: tail := by
            by_contra absent
            simp [ih.mpr absent] at later
          simp [rsplit, later, List.infix_cons_iff, inTail]
      | none => simp [rsplit, later, List.infix_cons_iff, ih.mp later]

/-- The last occurrence of a pattern is the one that no other begins within or after. -/
theorem rsplit_eq_some {pattern text before after : List α} (nonempty : pattern ≠ []) :
    rsplit pattern text = some (before, after) ↔
      text = before ++ pattern ++ after ∧ ¬pattern <:+: pattern.tail ++ after := by
  obtain ⟨first, others, rfl⟩ := List.exists_cons_of_ne_nil nonempty
  constructor
  · intro found
    induction text generalizing before with
    | nil => simp [rsplit] at found
    | cons head tail ih =>
        cases later : rsplit (first :: others) tail with
        | some parts =>
            simp only [rsplit, later, Option.some.injEq, Prod.mk.injEq] at found
            obtain ⟨rfl, rfl⟩ := found
            obtain ⟨rfl, last⟩ := ih later
            exact ⟨rfl, last⟩
        | none =>
            have absent := rsplit_eq_none.mp later
            simp only [rsplit, later, List.isPrefixOf_iff_prefix] at found
            split at found
            · rename_i here
              obtain ⟨rest, here⟩ := here
              cases here
              rw [List.length_cons, List.drop_succ_cons, List.append_eq, List.drop_left] at found
              cases found
              exact ⟨rfl, absent⟩
            · cases found
  · rintro ⟨rfl, last⟩
    induction before with
    | nil =>
        rw [List.tail_cons] at last
        simp [rsplit, rsplit_eq_none.mpr last]
    | cons head before ih =>
        rw [List.cons_append, List.cons_append, rsplit, ih]

/-- What follows the last occurrence is shorter than a text at the end with an occurrence. -/
theorem length_lt_of_rsplit {pattern front text before after : List α} (nonempty : pattern ≠ [])
    (found : rsplit pattern (front ++ text) = some (before, after)) (within : pattern <:+: text) :
    after.length < text.length := by
  obtain ⟨whole, last⟩ := (rsplit_eq_some nonempty).mp found
  by_contra longer
  have ends : after <:+ front ++ text := whole ▸ List.suffix_append _ _
  have inside : text <:+ after :=
    List.suffix_of_suffix_length_le (List.suffix_append front text) ends (Nat.le_of_not_lt longer)
  exact last (List.infix_append_of_infix_right (within.trans inside.isInfix))

theorem rsplit_singleton_eq_none {mark : α} {text : List α} :
    rsplit [mark] text = none ↔ mark ∉ text := by
  rw [rsplit_eq_none, List.singleton_infix_iff]

/-- The last occurrence of a character is the one that none follows. -/
theorem rsplit_singleton_eq_some {mark : α} {text before after : List α} :
    rsplit [mark] text = some (before, after) ↔ text = before ++ mark :: after ∧ mark ∉ after := by
  rw [rsplit_eq_some (List.cons_ne_nil mark []), List.append_assoc, List.singleton_append,
    List.tail_cons, List.nil_append, List.singleton_infix_iff]

/-- The part before a stop, without the blanks before it. -/
theorem trimEnd_upTo {stop blank : α} {base rest : List α} (count : Nat) (ne : blank ≠ stop)
    (before : stop ∉ base) (trimmed : base.getLast? ≠ some blank)
    (stops : rest = [] ∨ rest.head? = some stop) :
    trimEnd blank (upTo stop (base ++ List.replicate count blank ++ rest)) = base := by
  have kept : ∀ letter ∈ base ++ List.replicate count blank, decide (letter ≠ stop) = true := by
    intro letter member
    rcases List.mem_append.mp member with inBase | inBlanks
    · exact decide_eq_true fun same => before (same ▸ inBase)
    · rw [List.eq_of_mem_replicate inBlanks]
      exact decide_eq_true ne
  have cut : rest.takeWhile (fun letter => decide (letter ≠ stop)) = [] := by
    rcases stops with rfl | head
    · rfl
    · cases rest with
      | nil => rfl
      | cons letter rest =>
          obtain rfl : letter = stop := Option.some.inj head
          simp
  rw [upTo, List.takeWhile_append_of_pos kept, cut, List.append_nil, trimEnd]
  induction count with
  | zero =>
      rw [List.replicate_zero, List.append_nil, List.rdropWhile_eq_self_iff]
      intro nonempty
      have last := List.getLast?_eq_some_getLast nonempty
      simpa using fun same => trimmed (last.trans (congrArg some same))
  | succ count ih =>
      rw [List.replicate_succ', ← List.append_assoc, List.rdropWhile_concat_pos _ _ _ (by simp)]
      exact ih fun letter member => kept letter (by
        rw [List.replicate_succ', ← List.append_assoc]
        exact List.mem_append_left _ member)

/-- Every text is a base, blanks, and what follows the stop. -/
theorem exists_base (stop blank : α) (text : List α) :
    ∃ count rest, text =
        trimEnd blank (upTo stop text) ++ List.replicate count blank ++ rest ∧
      stop ∉ trimEnd blank (upTo stop text) ∧
      (trimEnd blank (upTo stop text)).getLast? ≠ some blank ∧
      (rest = [] ∨ rest.head? = some stop) := by
  have blanks : ∀ letter ∈ (upTo stop text).rtakeWhile (· = blank), letter = blank := by
    intro letter member
    have holds := List.mem_rtakeWhile_imp member
    exact of_decide_eq_true holds
  have inside : ∀ letter ∈ upTo stop text, letter ≠ stop := by
    intro letter member
    have holds := List.mem_takeWhile_imp member
    exact of_decide_eq_true holds
  refine ⟨((upTo stop text).rtakeWhile (· = blank)).length, text.dropWhile (· ≠ stop),
    ?_, ?_, ?_, ?_⟩
  · rw [← List.eq_replicate_of_mem blanks, trimEnd, List.rdropWhile_append_rtakeWhile, upTo,
      List.takeWhile_append_dropWhile]
  · exact fun member => inside stop ((List.rdropWhile_prefix _ _).subset member) rfl
  · intro last
    have nonempty : trimEnd blank (upTo stop text) ≠ [] := by
      intro empty
      simp [empty] at last
    have kept := List.rdropWhile_last_not (fun letter => decide (letter = blank)) _ nonempty
    rw [List.getLast?_eq_some_getLast nonempty] at last
    exact kept (decide_eq_true (Option.some.inj last))
  · cases rest : text.dropWhile (· ≠ stop) with
    | nil => exact .inl rfl
    | cons head tail =>
        have stopped := List.head?_dropWhile_not (· ≠ stop) text
        rw [rest] at stopped
        exact .inr (by simpa using stopped)

end Text
