import TopoLlvm.Library.JsonParser

/-!
# Writing JSON

Texts that a writer puts together from the texts of the parts, without blanks.  A text with a
control character that is not a blank spells nothing.
-/

namespace Json

/-! ## Lists of parts -/

/-- The parts with a separator before all but the first. -/
def separate {α : Type*} (separator : List α) : List (List α) → List α
  | [] => []
  | [part] => part
  | part :: next :: parts => part ++ (separator ++ separate separator (next :: parts))

theorem mem_separate {α : Type*} {separator part : List α} {parts : List (List α)} {item : α}
    (member : part ∈ parts) (inside : item ∈ part) : item ∈ separate separator parts := by
  induction parts with
  | nil => cases member
  | cons first parts ih =>
      cases parts with
      | nil => exact List.mem_singleton.mp member ▸ inside
      | cons next parts =>
          rw [separate, List.mem_append, List.mem_append]
          rcases List.mem_cons.mp member with rfl | later
          · exact .inl inside
          · exact .inr (.inr (ih later))

/-- A map of the characters to texts goes through the parts. -/
theorem flatMap_separate {α β : Type*} (map : α → List β) (separator : List α)
    (parts : List (List α)) :
    (separate separator parts).flatMap map =
      separate (separator.flatMap map) (parts.map (·.flatMap map)) := by
  induction parts with
  | nil => rfl
  | cons first parts ih =>
      cases parts with
      | nil => rfl
      | cons next parts => simp only [separate, List.flatMap_append, ih, List.map_cons]

theorem blank_nil : Blank [] := nofun

theorem Derives.pad {value : Value} {text : List Char} (derives : Derives (.value value) text) :
    Derives (.padded value) text := by
  simpa using Derives.padded blank_nil derives blank_nil

section

variable {ι : Type*} {value : ι → Value} {text : ι → List Char}

/-- A written array spells the array of what its items spell. -/
theorem derives_array {items : List ι}
    (each : ∀ item ∈ items, Derives (.value (value item)) (text item)) :
    Derives (.value (.array (items.map value)))
      ('[' :: (separate [','] (items.map text) ++ [']'])) := by
  cases items with
  | nil => exact .emptyArray blank_nil
  | cons first items =>
      refine .array ?_
      induction items generalizing first with
      | nil => exact .lastItem (each first List.mem_cons_self).pad
      | cons next items ih =>
          exact .nextItem (each first List.mem_cons_self).pad
            (ih next fun item member => each item (List.mem_cons_of_mem _ member))

variable {key body : ι → List Char}

/-- A member as it is written. -/
def memberText (body text : List Char) : List Char := '"' :: (body ++ '"' :: ':' :: text)

/-- A written object spells the object of what its members spell. -/
theorem derives_object {members : List ι}
    (each : ∀ member ∈ members, StringText (body member) (key member) ∧
      Derives (.value (value member)) (text member)) :
    Derives (.value (.object (members.map fun member => (key member, value member))))
      ('{' :: (separate [','] (members.map fun member => memberText (body member) (text member)) ++
        ['}'])) := by
  cases members with
  | nil => exact .emptyObject blank_nil
  | cons first members =>
      refine .object ?_
      induction members generalizing first with
      | nil =>
          obtain ⟨name, member⟩ := each first List.mem_cons_self
          exact .lastMember blank_nil name blank_nil member.pad
      | cons next members ih =>
          obtain ⟨name, member⟩ := each first List.mem_cons_self
          have later := ih next fun member inside => each member (List.mem_cons_of_mem _ inside)
          have whole := Derives.nextMember blank_nil name blank_nil member.pad later
          simpa [separate, memberText] using whole

end

/-- A character that needs no escape. -/
def isPlain (c : Char) : Bool := 0x20 ≤ c.toNat && c ≠ '"' && c ≠ '\\'

theorem stringText_plain {text : List Char} (plain : text.all isPlain = true) :
    StringText text text := by
  induction text with
  | nil => exact .nil
  | cons c text ih =>
      obtain ⟨first, rest⟩ := Bool.and_eq_true_iff.mp (List.all_cons ▸ plain)
      simp only [isPlain, Bool.and_eq_true, decide_eq_true_eq] at first
      exact .cons (.unescaped first.1.1 first.1.2 first.2) (ih rest)

/-! ## Numbers -/

/-- The digits of a number have no leading zero. -/
theorem head?_toDigits {number : Nat} (positive : 0 < number) :
    (Nat.toDigits 10 number).head? ≠ some '0' := by
  have digit : ∀ number < 10, 0 < number → [number.digitChar].head? ≠ some '0' := by decide
  induction number using Nat.strongRecOn with
  | ind number ih =>
      by_cases small : number < 10
      · rw [Nat.toDigits_of_lt_base small]
        exact digit number small positive
      · have front := ih (number / 10) (by omega) (by omega)
        rw [Nat.toDigits_of_base_le (by decide) (by omega)]
        cases digits : Nat.toDigits 10 (number / 10) with
        | nil => exact absurd digits Nat.toDigits_ne_nil
        | cons first rest =>
            rw [digits] at front
            exact front

theorem isNumber_toDigits (number : Nat) : isNumber (Nat.toDigits 10 number) = true := by
  have digits : ∀ c ∈ Nat.toDigits 10 number, c.isDigit = true :=
    fun _ member => Nat.isDigit_of_mem_toDigits (by decide) (by decide) member
  have integer : isInteger (Nat.toDigits 10 number) = true := by
    cases number with
    | zero => rfl
    | succ number => simp [isInteger, head?_toDigits, Nat.toDigits_ne_nil]
  have minus : (Nat.toDigits 10 number).head? ≠ some '-' := fun starts =>
    absurd (digits '-' (List.mem_of_mem_head? starts)) (by decide)
  rw [isNumber, if_neg minus, List.takeWhile_eq_self_iff.mpr digits,
    List.dropWhile_eq_nil_iff.mpr digits, integer]
  rfl

/-! ## Control characters -/

/-- A character that may stand in a text. -/
def isAllowed (c : Char) : Bool := isBlank c || 0x20 ≤ c.toNat

def Allowed (text : List Char) : Prop := ∀ c ∈ text, isAllowed c = true

theorem Allowed.nil : Allowed [] := nofun

theorem Allowed.cons {c : Char} {text : List Char} (first : isAllowed c = true)
    (rest : Allowed text) : Allowed (c :: text) :=
  List.forall_mem_cons.mpr ⟨first, rest⟩

theorem Allowed.append {front back : List Char} (left : Allowed front) (right : Allowed back) :
    Allowed (front ++ back) :=
  List.forall_mem_append.mpr ⟨left, right⟩

theorem allowed_of_blank {blank : List Char} (blanks : Blank blank) : Allowed blank :=
  fun c member => Bool.or_eq_true_iff.mpr (.inl (blanks c member))

theorem isAllowed_of_visible {c : Char} (visible : 0x20 ≤ c.toNat) : isAllowed c = true :=
  Bool.or_eq_true_iff.mpr (.inr (decide_eq_true visible))

theorem isAllowed_of_le {c : Char} (low : Char) (visible : 0x20 ≤ low.toNat) (le : low ≤ c) :
    isAllowed c = true :=
  isAllowed_of_visible (Nat.le_trans visible (UInt32.le_iff_toNat_le.mp le))

theorem isAllowed_of_isDigit {c : Char} (digit : c.isDigit = true) : isAllowed c = true := by
  obtain ⟨above, -⟩ := Bool.and_eq_true_iff.mp digit
  exact isAllowed_of_le '0' (by decide) (of_decide_eq_true above)

theorem isAllowed_of_hexDigit? {c : Char} (digit : (hexDigit? c).isSome) : isAllowed c = true := by
  unfold hexDigit? at digit
  split at digit
  · exact isAllowed_of_isDigit ‹_›
  · split at digit
    · rename_i letter
      exact isAllowed_of_le _ (by decide) letter.1
    · split at digit
      · rename_i letter
        exact isAllowed_of_le _ (by decide) letter.1
      · cases digit

theorem isAllowed_of_isNumberChar {c : Char} (number : isNumberChar c = true) :
    isAllowed c = true := by
  simp only [isNumberChar, Bool.or_eq_true, decide_eq_true_eq] at number
  rcases number with ((((digit | rfl) | rfl) | rfl) | rfl) | rfl
  · exact isAllowed_of_isDigit digit
  all_goals rfl

theorem isSome_hexDigit?_of_hex4? {digits : List Char} {code : Nat}
    (hex : hex4? digits = some code) : ∀ c ∈ digits, (hexDigit? c).isSome := by
  have go (digits : List Char) (number code : Nat)
      (hex : digits.foldlM (fun number c => (hexDigit? c).map (16 * number + ·)) number =
        some code) : ∀ c ∈ digits, (hexDigit? c).isSome := by
    induction digits generalizing number with
    | nil => exact nofun
    | cons first digits ih =>
        rw [List.foldlM_cons] at hex
        obtain ⟨next, digit, rest⟩ := Option.bind_eq_some_iff.mp hex
        obtain ⟨value, found, -⟩ := Option.map_eq_some_iff.mp digit
        exact List.forall_mem_cons.mpr ⟨by rw [found]; rfl, ih next rest⟩
  unfold hex4? at hex
  split at hex
  · exact go digits 0 code hex
  · cases hex

theorem allowed_of_hex4? {digits : List Char} {code : Nat} (hex : hex4? digits = some code) :
    Allowed digits := fun c member =>
  isAllowed_of_hexDigit? (isSome_hexDigit?_of_hex4? hex c member)

theorem CharText.allowed {text : List Char} {c : Char} (form : CharText text c) :
    Allowed text := by
  cases form with
  | unescaped visible _ _ => exact .cons (isAllowed_of_visible visible) .nil
  | @escaped mark _ escape =>
      obtain ⟨before, after, table, -⟩ := List.lookup_eq_some_iff.mp escape
      have known : (mark, c) ∈ simpleEscapes := table ▸ List.mem_append_right _ List.mem_cons_self
      have marks : ∀ entry ∈ simpleEscapes, isAllowed entry.1 = true := by decide
      exact .cons (by decide) (.cons (marks _ known) .nil)
  | code hex _ _ => exact .cons (by decide) (.cons (by decide) (allowed_of_hex4? hex))
  | pair hex _ hex' _ =>
      exact .cons (by decide) (.cons (by decide) ((allowed_of_hex4? hex).append
        (.cons (by decide) (.cons (by decide) (allowed_of_hex4? hex')))))

theorem StringText.allowed {body chars : List Char} (form : StringText body chars) :
    Allowed body := by
  induction form with
  | nil => exact .nil
  | cons first _ ih => exact first.allowed.append ih

/-- A derived text has no control characters but blanks. -/
theorem Derives.allowed {node : Node} {text : List Char} (derives : Derives node text) :
    Allowed text := by
  induction derives with
  | null | isTrue | isFalse => exact List.all_eq_true.mp rfl
  | number form =>
      exact fun c member => isAllowed_of_isNumberChar (isNumberChar_of_isNumber form member)
  | string form => exact .cons (by decide) (form.allowed.append (.cons (by decide) .nil))
  | emptyArray blanks | emptyObject blanks =>
      exact .cons (by decide) ((allowed_of_blank blanks).append (.cons (by decide) .nil))
  | array _ ih | object _ ih => exact .cons (by decide) (ih.append (.cons (by decide) .nil))
  | padded left _ right ih =>
      exact (allowed_of_blank left).append (ih.append (allowed_of_blank right))
  | lastItem _ ih => exact ih
  | nextItem _ _ ih ihOthers => exact ih.append (.cons (by decide) ihOthers)
  | lastMember left name right _ ih =>
      exact (allowed_of_blank left).append (.cons (by decide) (name.allowed.append
        (.cons (by decide) ((allowed_of_blank right).append (.cons (by decide) ih)))))
  | nextMember left name right _ _ ih ihOthers =>
      exact (allowed_of_blank left).append (.cons (by decide) (name.allowed.append
        (.cons (by decide) ((allowed_of_blank right).append
          (.cons (by decide) (ih.append (.cons (by decide) ihOthers)))))))

end Json
