import Mathlib.Data.List.Basic

/-!
# Texts cut at separators

A text is what stands before its first separator and, for each separator, what follows it up to the
next one.  Transformations that work on each of these parts by itself are read off the parts.
-/

namespace Segments

variable {α : Type*} (separator : α → Bool)

/-- The part before the first separator, and the separators each with the part behind it. -/
def cut : List α → List α × List (α × List α)
  | [] => ([], [])
  | head :: tail =>
      let (front, parts) := cut tail
      if separator head then ([], (head, front) :: parts) else (head :: front, parts)

/-- The text of separators with their parts. -/
def join (parts : List (α × List α)) : List α := parts.flatMap fun part => part.1 :: part.2

/-- There is no separator in a text. -/
def Clean (text : List α) : Prop := ∀ letter ∈ text, separator letter = false

/-- The separators are separators, and the parts have none. -/
def Parted (parts : List (α × List α)) : Prop :=
  ∀ part ∈ parts, separator part.1 = true ∧ Clean separator part.2

variable {separator} {text front other : List α} {parts others : List (α × List α)}

@[simp]
theorem join_nil : join ([] : List (α × List α)) = [] := rfl

@[simp]
theorem join_cons (part : α × List α) (parts : List (α × List α)) :
    join (part :: parts) = part.1 :: (part.2 ++ join parts) := rfl

@[simp]
theorem join_append (parts others : List (α × List α)) :
    join (parts ++ others) = join parts ++ join others := List.flatMap_append

theorem Clean.append (first : Clean separator text) (second : Clean separator other) :
    Clean separator (text ++ other) := by
  intro letter member
  exact (List.mem_append.mp member).elim (first letter) (second letter)

theorem clean_cons {head : α} {tail : List α} :
    Clean separator (head :: tail) ↔ separator head = false ∧ Clean separator tail :=
  List.forall_mem_cons

theorem parted_cons {part : α × List α} :
    Parted separator (part :: parts) ↔
      (separator part.1 = true ∧ Clean separator part.2) ∧ Parted separator parts :=
  List.forall_mem_cons

/-- A text is the parts that it is cut into. -/
theorem append_join_cut (separator : α → Bool) (text : List α) :
    (cut separator text).1 ++ join (cut separator text).2 = text := by
  induction text with
  | nil => rfl
  | cons head tail ih =>
      rw [cut]
      by_cases separates : separator head = true
      · simp only [separates, if_true, List.nil_append, join_cons, ih]
      · simp only [separates, if_false, List.cons_append, ih, Bool.false_eq_true]

theorem cut_spec (separator : α → Bool) (text : List α) :
    Clean separator (cut separator text).1 ∧ Parted separator (cut separator text).2 := by
  induction text with
  | nil => exact ⟨List.forall_mem_nil _, List.forall_mem_nil _⟩
  | cons head tail ih =>
      rw [cut]
      by_cases separates : separator head = true
      · simp only [separates, if_true]
        exact ⟨List.forall_mem_nil _, parted_cons.mpr ⟨⟨separates, ih.1⟩, ih.2⟩⟩
      · simp only [separates, if_false, Bool.false_eq_true]
        exact ⟨clean_cons.mpr ⟨by simpa using separates, ih.1⟩, ih.2⟩

theorem cut_join (parted : Parted separator parts) : cut separator (join parts) = ([], parts) := by
  have clean_append {front : List α} {rest : List α} (clean : Clean separator front) :
      cut separator (front ++ rest) =
        (front ++ (cut separator rest).1, (cut separator rest).2) := by
    induction front with
    | nil => rfl
    | cons head tail ih =>
        obtain ⟨plain, clean⟩ := clean_cons.mp clean
        rw [List.cons_append, cut, ih clean]
        simp [plain]
  induction parts with
  | nil => rfl
  | cons part parts ih =>
      obtain ⟨⟨separates, clean⟩, parted⟩ := parted_cons.mp parted
      rw [join_cons, cut, clean_append clean, ih parted]
      simp [separates]

/-- A text is cut in one way. -/
theorem cut_append_join (clean : Clean separator front) (parted : Parted separator parts) :
    cut separator (front ++ join parts) = (front, parts) := by
  induction front with
  | nil => exact cut_join parted
  | cons head tail ih =>
      obtain ⟨plain, clean⟩ := clean_cons.mp clean
      rw [List.cons_append, cut, ih clean]
      simp [plain]

/-- Texts of the same separators are the same where their parts are. -/
theorem join_map_eq_iff {change : List α → List α} (parted : Parted separator parts)
    (keeps : ∀ text, Clean separator text → Clean separator (change text)) :
    join (parts.map fun part => (part.1, change part.2)) = join parts ↔
      ∀ part ∈ parts, change part.2 = part.2 := by
  have changed : Parted separator (parts.map fun part => (part.1, change part.2)) := by
    intro part member
    obtain ⟨original, inParts, rfl⟩ := List.mem_map.mp member
    exact ⟨(parted original inParts).1, keeps _ (parted original inParts).2⟩
  constructor
  · intro same
    have cuts := congrArg (cut separator) same
    rw [cut_join changed, cut_join parted, Prod.mk.injEq] at cuts
    intro part member
    obtain ⟨index, bound, rfl⟩ := List.mem_iff_getElem.mp member
    have entry := congrArg (·[index]?) cuts.2
    simp only [List.getElem?_map, List.getElem?_eq_getElem bound, Option.map_some,
      Option.some.injEq] at entry
    exact congrArg Prod.snd entry
  · intro same
    refine congrArg join ((List.map_congr_left fun part member => ?_).trans parts.map_id)
    exact Prod.ext rfl (same part member)

/-- A scan that stops at separators does not look behind the text before them. -/
theorem dropWhile_append_join (kept : α → Bool)
    (stops : ∀ letter, separator letter = true → kept letter = false)
    (parted : Parted separator parts) (text : List α) :
    (text ++ join parts).dropWhile kept = text.dropWhile kept ++ join parts := by
  have stopped : (join parts).dropWhile kept = join parts := by
    cases parts with
    | nil => rfl
    | cons part parts =>
        rw [join_cons, List.dropWhile_cons_of_neg]
        simp [stops _ (parted_cons.mp parted).1.1]
  rw [List.dropWhile_append]
  split
  · rename_i all
    rw [stopped, List.isEmpty_iff.mp all, List.nil_append]
  · rfl

theorem takeWhile_append_join (kept : α → Bool)
    (stops : ∀ letter, separator letter = true → kept letter = false)
    (parted : Parted separator parts) (text : List α) :
    (text ++ join parts).takeWhile kept = text.takeWhile kept := by
  have stopped : (join parts).takeWhile kept = [] := by
    cases parts with
    | nil => rfl
    | cons part parts =>
        rw [join_cons, List.takeWhile_cons_of_neg]
        simp [stops _ (parted_cons.mp parted).1.1]
  rw [List.takeWhile_append]
  split
  · rename_i all
    rw [stopped, List.append_nil]
    exact ((List.takeWhile_prefix kept).eq_of_length all).symm
  · rfl

theorem Clean.dropWhile (clean : Clean separator text) (kept : α → Bool) :
    Clean separator (text.dropWhile kept) :=
  fun letter member => clean letter ((List.dropWhile_sublist kept).subset member)

theorem Clean.takeWhile (clean : Clean separator text) (kept : α → Bool) :
    Clean separator (text.takeWhile kept) :=
  fun letter member => clean letter ((List.takeWhile_sublist kept).subset member)

end Segments
