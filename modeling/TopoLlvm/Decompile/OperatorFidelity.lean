import TopoLlvm.Decompile.LLVMLifter

/-!
# Operators, signs and widths

A lifted operator gives the bits of its instruction when it reads its operands the way the opcode
does.  Operands of one width are read signed when all of them are, and unsigned otherwise.
-/

namespace TopoLlvm
namespace Decompile

open IntegerBits

namespace TypeNode

/-- A type that holds the integers of a width; a truth value is `bool`. -/
def Fits (width : ℕ) : TypeNode → Prop
  | bool => width = 1
  | int _ typeWidth => typeWidth = width ∧ width ≠ 1

def isSigned : TypeNode → Bool
  | bool => false
  | int signed _ => signed

variable {type : TypeNode} {width : ℕ}

theorem liftType_fits (width : ℕ) : (liftType width).Fits width := by
  by_cases truth : width = 1 <;> simp [liftType, Fits, truth]

@[simp] theorem convert_convert (value : ℤ) :
    type.convert (type.convert value) = type.convert value := by
  cases type with
  | bool => by_cases zero : value = 0 <;> simp [convert, zero]
  | int signed width => exact reading_reading signed value

theorem Fits.ofInt_convert (fits : type.Fits width) (wide : width ≠ 1) (value : ℤ) :
    BitVec.ofInt width (type.convert value) = BitVec.ofInt width value := by
  cases type with
  | bool => exact absurd fits wide
  | int signed typeWidth =>
      obtain ⟨rfl, -⟩ := fits
      exact ofInt_reading signed value

end TypeNode

section Words

variable {width : ℕ}

theorem truth_word (word : BitVec 1) : word = 0 ∨ word = 1 := by
  revert word
  decide

/-- How a word is read at a sign. -/
def readWord (signed : Bool) (word : BitVec width) : ℤ :=
  if signed then word.toInt else word.toNat

@[simp] theorem ofInt_readWord (signed : Bool) (word : BitVec width) :
    BitVec.ofInt width (readWord signed word) = word := by
  cases signed <;> simp [readWord]

theorem readWord_eq_zero {signed : Bool} {word : BitVec width} :
    readWord signed word = 0 ↔ word = 0 := by
  constructor
  · intro zero
    rw [← ofInt_readWord signed word, zero]
    rfl
  · rintro rfl
    cases signed <;> simp [readWord]

/-- A type of its width keeps a word, however it is read. -/
theorem TypeNode.Fits.ofInt_readWord {type : TypeNode} (fits : type.Fits width) (signed : Bool)
    (word : BitVec width) : BitVec.ofInt width (type.convert (readWord signed word)) = word := by
  by_cases narrow : width = 1
  · subst narrow
    cases type with
    | bool => rcases truth_word word with rfl | rfl <;> cases signed <;> rfl
    | int typeSigned typeWidth => exact absurd rfl fits.2
  · rw [fits.ofInt_convert narrow, Decompile.ofInt_readWord]

theorem reading_of_ofInt {signed : Bool} {value : ℤ} {word : BitVec width}
    (stands : BitVec.ofInt width value = word) :
    reading signed width value = readWord signed word := by
  cases signed with
  | true => rw [reading_signed, stands, readWord, if_pos rfl]
  | false => rw [reading_unsigned, stands, readWord, if_neg Bool.false_ne_true]

/-- The orders of words read at a sign; at the other sign too, if the signs of the words agree. -/
theorem slt_eq_readWord {signed : Bool} {left right : BitVec width}
    (agree : signed = true ∨ left.msb = right.msb) :
    left.slt right = decide (readWord signed left < readWord signed right) := by
  cases signed with
  | true => rfl
  | false =>
      rw [BitVec.slt_eq_ult_of_msb_eq (agree.resolve_left Bool.false_ne_true),
        BitVec.ult_eq_decide]
      simp [readWord]

theorem ult_eq_readWord {signed : Bool} {left right : BitVec width}
    (agree : signed = false ∨ left.msb = right.msb) :
    left.ult right = decide (readWord signed left < readWord signed right) := by
  cases signed with
  | true =>
      rw [← BitVec.slt_eq_ult_of_msb_eq (agree.resolve_left Bool.true_eq_false.mp)]
      rfl
  | false =>
      rw [BitVec.ult_eq_decide]
      simp [readWord]

end Words

/-- A value of the lifted program that stands for an operand, read at a sign. -/
inductive Stands : Bool → (width : ℕ) → Option (BitVec width) → TypedValue → Prop
  | literal {width : ℕ} (word : BitVec width) (wide : width ≠ 1) :
      Stands true width (some word) ⟨none, word.toInt⟩
  | typed {width : ℕ} {bits : Option (BitVec width)} (type : TypeNode) (value : ℤ)
      (fits : type.Fits width) (stable : type.convert value = value)
      (same : ∀ word ∈ bits, BitVec.ofInt width value = word) :
      Stands type.isSigned width bits ⟨some type, value⟩

namespace Stands

variable {signed : Bool} {width : ℕ} {bits : Option (BitVec width)} {operand : TypedValue}

theorem ofInt_value (stands : Stands signed width bits operand) :
    ∀ word ∈ bits, BitVec.ofInt width operand.value = word := by
  cases stands with
  | literal word wide => simp
  | typed type value fits stable same => exact same

/-- A truth value is 0 or 1, and of type `bool`. -/
theorem truth {bits : Option (BitVec 1)} (stands : Stands signed 1 bits operand) :
    signed = false ∧ operand.type = some .bool ∧ (operand.value = 0 ∨ operand.value = 1) := by
  cases stands with
  | literal word wide => exact absurd rfl wide
  | typed type value fits stable same =>
      cases type with
      | bool =>
          refine ⟨rfl, rfl, ?_⟩
          by_cases zero : value = 0
          · exact .inl zero
          · rw [TypeNode.convert, if_neg zero] at stable
            exact .inr stable.symm
      | int signed typeWidth => exact absurd rfl fits.2

theorem truth_value {bits : Option (BitVec 1)} (stands : Stands signed 1 bits operand)
    {word : BitVec 1} (known : word ∈ bits) : operand.value = word.toNat := by
  have same := stands.ofInt_value word known
  obtain ⟨-, -, zero | one⟩ := stands.truth
  · rw [zero] at same ⊢
    simp [← same]
  · rw [one] at same ⊢
    simp [← same]

theorem truth_eq {bits : Option (BitVec 1)} (stands : Stands signed 1 bits operand)
    {word : BitVec 1} (known : word ∈ bits) : operand = ⟨some .bool, word.toNat⟩ := by
  rw [← stands.truth_value known, ← stands.truth.2.1]

/-- A value is read at its sign. -/
theorem value_eq (stands : Stands signed width bits operand) {word : BitVec width}
    (known : word ∈ bits) : operand.value = readWord signed word := by
  by_cases narrow : width = 1
  · subst narrow
    rw [stands.truth.1, stands.truth_value known, readWord, if_neg Bool.false_ne_true]
  · cases stands with
    | literal same wide =>
        obtain rfl : same = word := by simpa using known
        rfl
    | typed type value fits stable same =>
        cases type with
        | bool => exact absurd fits narrow
        | int typeSigned typeWidth =>
            obtain ⟨rfl, -⟩ := fits
            exact stable.symm.trans (reading_of_ofInt (same word known))

end Stands

section Meeting

variable {leftSigned rightSigned : Bool} {width : ℕ} {leftBits rightBits : Option (BitVec width)}
  {left right : TypedValue}

/-- What happens to the operands where they meet: the conversion keeps the words, and reads them
signed if both are. -/
structure Meets (width : ℕ) (signed : Bool) (convert : ℤ → ℤ)
    (leftBits rightBits : Option (BitVec width)) (left right : ℤ) : Prop where
  keeps : ∀ value, BitVec.ofInt width (convert value) = BitVec.ofInt width value
  left : ∀ word ∈ leftBits, convert left = readWord signed word
  right : ∀ word ∈ rightBits, convert right = readWord signed word

theorem Stands.common_eq (leftStands : Stands leftSigned width leftBits left)
    (rightStands : Stands rightSigned width rightBits right) (wide : width ≠ 1) :
    left.type = none ∧ right.type = none ∧ leftSigned = true ∧ rightSigned = true ∨
      TypeNode.common left.type right.type = some (.int (leftSigned && rightSigned) width) := by
  have typed_eq : ∀ type : TypeNode, type.Fits width → type = .int type.isSigned width := by
    intro type fits
    cases type with
    | bool => exact absurd fits wide
    | int signed typeWidth => rw [fits.1, TypeNode.isSigned]
  cases leftStands with
  | literal word _ =>
      cases rightStands with
      | literal word' _ => exact .inl ⟨rfl, rfl, rfl, rfl⟩
      | typed type value fits _ _ =>
          right
          rw [typed_eq type fits]
          simp [TypeNode.common, TypeNode.promote, TypeNode.isSigned]
  | typed type value fits _ _ =>
      right
      rw [typed_eq type fits]
      cases rightStands with
      | literal word _ => simp [TypeNode.common, TypeNode.promote, TypeNode.isSigned]
      | typed type' value' fits' _ _ =>
          rw [typed_eq type' fits']
          simp [TypeNode.common, TypeNode.promote, TypeNode.isSigned]

/-- Truth values meet as an `int`, wider values at their own width. -/
theorem Stands.meets (leftStands : Stands leftSigned width leftBits left)
    (rightStands : Stands rightSigned width rightBits right) :
    Meets width (leftSigned && rightSigned) (convertTo (TypeNode.common left.type right.type))
      leftBits rightBits left.value right.value := by
  by_cases narrow : width = 1
  · subst narrow
    have same : TypeNode.common left.type right.type = some (.int true 32) := by
      rw [leftStands.truth.2.1, rightStands.truth.2.1]
      rfl
    have truth : ∀ word : BitVec 1, convertTo (some (.int true 32)) word.toNat = word.toNat := by
      decide
    rw [same, leftStands.truth.1]
    refine ⟨fun value => ?_, fun word known => ?_, fun word known => ?_⟩
    · calc BitVec.ofInt 1 (reading true 32 value)
          = (BitVec.ofInt 32 (reading true 32 value)).setWidth 1 :=
            (setWidth_ofInt (by decide) _).symm
        _ = (BitVec.ofInt 32 value).setWidth 1 := congrArg _ (ofInt_reading true value)
        _ = BitVec.ofInt 1 value := setWidth_ofInt (by decide) value
    · rw [leftStands.truth_value known]
      exact truth word
    · rw [rightStands.truth_value known]
      exact truth word
  · rcases leftStands.common_eq rightStands narrow with
      ⟨left_literal, right_literal, rfl, rfl⟩ | same
    · rw [left_literal, right_literal]
      exact ⟨fun value => rfl, fun word known => leftStands.value_eq known,
        fun word known => rightStands.value_eq known⟩
    · rw [same]
      exact ⟨ofInt_reading _,
        fun word known => reading_of_ofInt (leftStands.ofInt_value word known),
        fun word known => reading_of_ofInt (rightStands.ofInt_value word known)⟩

end Meeting

/-- When the operator of an opcode gives its bits, at the sign its operands are read. -/
def BinaryOpcode.Faithful (bitwise signed : Bool) (flags : Flags) (width : ℕ) :
    BinaryOpcode → Prop
  | add => width = 1 → flags.nuw = true ∨ flags.nsw = true
  | sub | mul => True
  | sdiv | srem => signed = true ∨ width = 1
  | udiv | urem => signed = false
  | and | or => bitwise = true ∨ width = 1
  | shl | lshr | ashr => width = 1
  | xor => False

section Binary

variable {bitwise signed leftSigned rightSigned : Bool} {flags : Flags} {width : ℕ}
  {opcode : BinaryOpcode} {leftBits rightBits : Option (BitVec width)} {left right : TypedValue}

theorem BinaryOpcode.eval_eq_bits {result : Option (BitVec width)} {word : BitVec width}
    (defined : opcode.eval flags leftBits rightBits = some result) (known : word ∈ result) :
    ∃ lhs ∈ leftBits, ∃ rhs ∈ rightBits, opcode.undefined lhs rhs = false ∧
      opcode.poisons flags lhs rhs = false ∧ word = opcode.value lhs rhs := by
  obtain rfl : result = some word := known
  cases leftBits with
  | none => cases rightBits <;> simp [eval] at defined
  | some lhs =>
      cases rightBits with
      | none => simp [eval] at defined
      | some rhs =>
          simp only [eval] at defined
          split_ifs at defined with undefined poisoned
          · simp at defined
          · refine ⟨lhs, rfl, rhs, rfl, by simpa using undefined, by simpa using poisoned, ?_⟩
            simpa using defined.symm

/-- A division that is defined has a divisor other than zero. -/
theorem BinaryOpcode.divisor_of_eval {result : Option (BitVec width)}
    (defined : opcode.eval flags leftBits rightBits = some result)
    (divides : opcode.divides = true) :
    ∃ rhs ∈ rightBits, rhs ≠ 0 := by
  cases rightBits with
  | none => cases leftBits <;> simp [eval, divides] at defined
  | some rhs =>
      refine ⟨rhs, rfl, ?_⟩
      rintro rfl
      cases leftBits with
      | none => simp [eval, divides] at defined
      | some lhs => cases opcode <;> simp_all [eval, BinaryOpcode.divides, BinaryOpcode.undefined]

/-- Wide operands that are read at the sign of the opcode give its bits. -/
theorem BinaryOpcode.Faithful.apply_wide (faithful : opcode.Faithful bitwise signed flags width)
    (wide : width ≠ 1) {lhs rhs : BitVec width} (defined : opcode.undefined lhs rhs = false) :
    ∃ value, (mapBinaryOp opcode).apply bitwise (readWord signed lhs) (readWord signed rhs) =
        some (.inr value) ∧ BitVec.ofInt width value = opcode.value lhs rhs := by
  have divisor : rhs ≠ 0 → readWord signed rhs ≠ 0 := readWord_eq_zero.not.mpr
  cases opcode with
  | add => exact ⟨_, rfl, by simp [BitVec.ofInt_add, value]⟩
  | sub => exact ⟨_, rfl, by simp [ofInt_sub, value]⟩
  | mul => exact ⟨_, rfl, by simp [BitVec.ofInt_mul, value]⟩
  | sdiv =>
      obtain rfl : signed = true := faithful.resolve_right wide
      have nonzero : rhs ≠ 0 := by
        rintro rfl
        simp [undefined] at defined
      exact ⟨_, if_neg (divisor nonzero), ofInt_tdiv lhs rhs⟩
  | srem =>
      obtain rfl : signed = true := faithful.resolve_right wide
      have nonzero : rhs ≠ 0 := by
        rintro rfl
        simp [undefined] at defined
      exact ⟨_, if_neg (divisor nonzero), ofInt_tmod lhs rhs⟩
  | udiv =>
      obtain rfl : signed = false := faithful
      have nonzero : rhs ≠ 0 := by
        rintro rfl
        simp [undefined] at defined
      exact ⟨_, if_neg (divisor nonzero), ofInt_tdiv_toNat lhs rhs⟩
  | urem =>
      obtain rfl : signed = false := faithful
      have nonzero : rhs ≠ 0 := by
        rintro rfl
        simp [undefined] at defined
      exact ⟨_, if_neg (divisor nonzero), ofInt_tmod_toNat lhs rhs⟩
  | and =>
      obtain rfl : bitwise = true := faithful.resolve_right wide
      exact ⟨_, rfl, by simp [ofInt_land, value]⟩
  | or =>
      obtain rfl : bitwise = true := faithful.resolve_right wide
      exact ⟨_, rfl, by simp [ofInt_lor, value]⟩
  | shl | lshr | ashr => exact absurd faithful wide
  | xor => exact faithful.elim

/-- The truth values on which the operator of an opcode gives its bit. -/
def BinaryOpcode.truthRight (opcode : BinaryOpcode) (lhs rhs : BitVec 1) : Bool :=
  match opcode with
  | add => lhs == 0 || rhs == 0
  | sub | mul | and | or => true
  | udiv | urem => rhs != 0
  | sdiv | srem => rhs != 0 && lhs == 0
  | shl | lshr | ashr => rhs == 0
  | xor => false

theorem BinaryOpcode.Faithful.truthRight (faithful : opcode.Faithful bitwise false flags 1)
    {lhs rhs : BitVec 1} (defined : opcode.undefined lhs rhs = false)
    (clean : opcode.poisons flags lhs rhs = false) : opcode.truthRight lhs rhs = true := by
  have unsigned_overflow : (1#1).uaddOverflow 1#1 = true := by decide
  have signed_overflow : (1#1).saddOverflow 1#1 = true := by decide
  have division_overflow : (1#1).sdivOverflow 1#1 = true := by decide
  rcases truth_word lhs with rfl | rfl <;> rcases truth_word rhs with rfl | rfl <;>
    cases opcode <;>
    simp_all [BinaryOpcode.truthRight, BinaryOpcode.Faithful, BinaryOpcode.undefined,
      BinaryOpcode.poisons]

/-- Truth values are `0` and `1` under the operators, and `bool` again after the conversion. -/
theorem BinaryOpcode.eval_truth (opcode : BinaryOpcode) (bitwise : Bool) (lhs rhs : BitVec 1)
    (right : opcode.truthRight lhs rhs = true) :
    ((mapBinaryOp opcode).eval bitwise ⟨some .bool, lhs.toNat⟩ ⟨some .bool, rhs.toNat⟩).any
      (fun result => BitVec.ofInt 1 (TypeNode.bool.convert result.value) == opcode.value lhs rhs) =
        true := by
  revert lhs rhs bitwise
  cases opcode <;> decide +kernel

/-- The operator of an instruction that is defined has a value. -/
theorem BinaryOpcode.exists_eval (bitwise : Bool) {result : Option (BitVec width)}
    (defined : opcode.eval flags leftBits rightBits = some result)
    (leftStands : Stands leftSigned width leftBits left)
    (rightStands : Stands rightSigned width rightBits right) :
    ∃ value, (mapBinaryOp opcode).eval bitwise left right = some value := by
  have divisor : opcode.divides = true →
      convertTo (TypeNode.common left.type right.type) right.value ≠ 0 := by
    intro divides
    obtain ⟨rhs, known, nonzero⟩ := divisor_of_eval defined divides
    rw [(leftStands.meets rightStands).right rhs known]
    exact readWord_eq_zero.not.mpr nonzero
  cases opcode <;>
    simp_all [mapBinaryOp, BinaryOp.eval, BinaryOp.apply, BinaryOpcode.divides]

/-- **Fidelity of a binary instruction.** -/
theorem BinaryOpcode.Faithful.eval {result : Option (BitVec width)}
    (faithful : opcode.Faithful bitwise (leftSigned && rightSigned) flags width)
    (defined : opcode.eval flags leftBits rightBits = some result)
    (leftStands : Stands leftSigned width leftBits left)
    (rightStands : Stands rightSigned width rightBits right) :
    ∃ value, (mapBinaryOp opcode).eval bitwise left right = some value ∧
      ∀ word ∈ result, BitVec.ofInt width ((liftType width).convert value.value) = word := by
  obtain ⟨value, evaluated⟩ := exists_eval bitwise defined leftStands rightStands
  refine ⟨value, evaluated, fun word known => ?_⟩
  obtain ⟨lhs, lhs_known, rhs, rhs_known, no_ub, clean, rfl⟩ := eval_eq_bits defined known
  by_cases narrow : width = 1
  · subst narrow
    rw [leftStands.truth.1] at faithful
    have right_bit := eval_truth opcode bitwise lhs rhs (faithful.truthRight no_ub clean)
    rw [leftStands.truth_eq lhs_known, rightStands.truth_eq rhs_known] at evaluated
    rw [evaluated] at right_bit
    simpa [liftType] using right_bit
  · have meets := leftStands.meets rightStands
    obtain ⟨plain, applied, same⟩ := faithful.apply_wide narrow no_ub
    rw [← meets.left lhs lhs_known, ← meets.right rhs rhs_known] at applied
    obtain rfl : _ = value := by simpa [BinaryOp.eval, applied] using evaluated
    rw [(TypeNode.liftType_fits width).ofInt_convert narrow, meets.keeps, same]

end Binary

section Comparison

variable {bitwise signed leftSigned rightSigned : Bool} {flags : Flags} {width : ℕ}
  {predicate : ICmpPredicate} {leftBits rightBits : Option (BitVec width)} {left right : TypedValue}

/-- When the operator of a predicate decides it, at the sign its operands are read. -/
def ICmpPredicate.Faithful (signed : Bool) (flags : Flags) : ICmpPredicate → Prop
  | eq | ne => True
  | ugt | uge | ult | ule => signed = false ∨ flags.samesign = true
  | sgt | sge | slt | sle => signed = true ∨ flags.samesign = true

/-- The comparison at a sign, on words read at it. -/
theorem ICmpPredicate.Faithful.apply (faithful : predicate.Faithful signed flags)
    {lhs rhs : BitVec width} (clean : (flags.samesign && lhs.msb != rhs.msb) = false) :
    (mapICmpPredicate predicate).apply bitwise (readWord signed lhs) (readWord signed rhs) =
      some (.inl (predicate.holds lhs rhs)) := by
  have same : readWord signed lhs = readWord signed rhs ↔ lhs = rhs := by
    constructor
    · intro equal
      rw [← ofInt_readWord signed lhs, equal, ofInt_readWord]
    · rintro rfl
      rfl
  have msb_eq : flags.samesign = true → lhs.msb = rhs.msb := by
    intro samesign
    simpa [samesign] using clean
  cases predicate with
  | eq =>
      have decided : decide (readWord signed lhs = readWord signed rhs) = (lhs == rhs) := by
        rw [Bool.eq_iff_iff]
        simp [same]
      rw [holds, ← decided]
      rfl
  | ne =>
      have decided : decide (readWord signed lhs ≠ readWord signed rhs) = (lhs != rhs) := by
        rw [Bool.eq_iff_iff]
        simp [same]
      rw [holds, ← decided]
      rfl
  | ugt =>
      rw [holds, ult_eq_readWord (faithful.imp_right fun samesign => (msb_eq samesign).symm)]
      rfl
  | uge =>
      rw [holds, BitVec.ule_eq_not_ult, ult_eq_readWord (faithful.imp_right msb_eq)]
      simp [mapICmpPredicate, BinaryOp.apply, ← decide_not]
  | ult =>
      rw [holds, ult_eq_readWord (faithful.imp_right msb_eq)]
      rfl
  | ule =>
      rw [holds, BitVec.ule_eq_not_ult,
        ult_eq_readWord (faithful.imp_right fun samesign => (msb_eq samesign).symm)]
      simp [mapICmpPredicate, BinaryOp.apply, ← decide_not]
  | sgt =>
      rw [holds, slt_eq_readWord (faithful.imp_right fun samesign => (msb_eq samesign).symm)]
      rfl
  | sge =>
      rw [holds, BitVec.sle_eq_not_slt, slt_eq_readWord (faithful.imp_right msb_eq)]
      simp [mapICmpPredicate, BinaryOp.apply, ← decide_not]
  | slt =>
      rw [holds, slt_eq_readWord (faithful.imp_right msb_eq)]
      rfl
  | sle =>
      rw [holds, BitVec.sle_eq_not_slt,
        slt_eq_readWord (faithful.imp_right fun samesign => (msb_eq samesign).symm)]
      simp [mapICmpPredicate, BinaryOp.apply, ← decide_not]

theorem ICmpPredicate.exists_apply (bitwise : Bool) (predicate : ICmpPredicate) (lhs rhs : ℤ) :
    ∃ truth, (mapICmpPredicate predicate).apply bitwise lhs rhs = some (.inl truth) := by
  cases predicate <;> exact ⟨_, rfl⟩

/-- **Fidelity of a comparison.** -/
theorem ICmpPredicate.Faithful.eval (bitwise : Bool)
    (faithful : predicate.Faithful (leftSigned && rightSigned) flags)
    (leftStands : Stands leftSigned width leftBits left)
    (rightStands : Stands rightSigned width rightBits right) :
    ∃ value, (mapICmpPredicate predicate).eval bitwise left right = some value ∧
      ∀ word ∈ predicate.eval flags leftBits rightBits,
        BitVec.ofInt 1 ((liftType 1).convert value.value) = word := by
  have meets := leftStands.meets rightStands
  obtain ⟨truth, applied⟩ := exists_apply bitwise predicate
    (convertTo (TypeNode.common left.type right.type) left.value)
    (convertTo (TypeNode.common left.type right.type) right.value)
  refine ⟨⟨some .bool, if truth then 1 else 0⟩, by simp [BinaryOp.eval, applied], ?_⟩
  intro word known
  cases leftBits with
  | none => simp [ICmpPredicate.eval] at known
  | some lhs =>
      cases rightBits with
      | none => simp [ICmpPredicate.eval] at known
      | some rhs =>
          simp only [ICmpPredicate.eval] at known
          split_ifs at known with differ
          · simp at known
          · obtain rfl : BitVec.ofBool (predicate.holds lhs rhs) = word := by simpa using known
            rw [meets.left lhs rfl, meets.right rhs rfl,
              faithful.apply (by simpa using differ)] at applied
            obtain rfl : predicate.holds lhs rhs = truth := by simpa using applied
            cases predicate.holds lhs rhs <;> rfl

end Comparison

section Selection

variable {width : ℕ} {leftSigned rightSigned conditionSigned : Bool}
  {leftBits rightBits : Option (BitVec width)} {conditionBits : Option (BitVec 1)}
  {condition left right : TypedValue}

/-- **Fidelity of a selection.** -/
theorem select_fidelity (conditionStands : Stands conditionSigned 1 conditionBits condition)
    (leftStands : Stands leftSigned width leftBits left)
    (rightStands : Stands rightSigned width rightBits right) :
    ∀ word ∈ evalSelect conditionBits leftBits rightBits,
      BitVec.ofInt width ((liftType width).convert
        (convertTo (TypeNode.common left.type right.type)
          (if condition.value ≠ 0 then left else right).value)) = word := by
  intro word known
  have meets := leftStands.meets rightStands
  cases conditionBits with
  | none => simp [evalSelect] at known
  | some bit =>
      have bit_value := conditionStands.truth_value (Option.mem_some_self bit)
      rcases truth_word bit with rfl | rfl
      · rw [if_neg (by simp [bit_value])]
        rw [meets.right word (by simpa [evalSelect] using known),
          (TypeNode.liftType_fits width).ofInt_readWord]
      · rw [if_pos (by simp [bit_value])]
        rw [meets.left word (by simpa [evalSelect] using known),
          (TypeNode.liftType_fits width).ofInt_readWord]

end Selection

section Conversion

variable {signed : Bool} {flags : Flags} {source target : ℕ} {opcode : CastOpcode}
  {bits : Option (BitVec source)} {operand : TypedValue}

/-- When the conversion of a declaration is the cast, at the sign the operand is read. -/
def CastOpcode.Faithful (signed : Bool) (flags : Flags) (target : ℕ) : CastOpcode → Prop
  | trunc => target = 1 → flags.nuw = true ∨ flags.nsw = true
  | zext => signed = false ∨ flags.nneg = true
  | sext => signed = true

/-- **Fidelity of a cast.** -/
theorem CastOpcode.Faithful.eval (faithful : opcode.Faithful signed flags target)
    (direction : if opcode = .trunc then target < source else source < target)
    (source_pos : 0 < source) (stands : Stands signed source bits operand) :
    ∀ word ∈ opcode.eval flags target bits,
      BitVec.ofInt target ((liftType target).convert operand.value) = word := by
  intro word known
  cases bits with
  | none => simp [CastOpcode.eval] at known
  | some bits =>
      simp only [CastOpcode.eval] at known
      split_ifs at known with poisoned
      · simp at known
      obtain rfl : opcode.value target bits = word := by simpa using known
      rw [stands.value_eq rfl]
      cases opcode with
      | sext =>
          obtain rfl : signed = true := faithful
          have wide : target ≠ 1 := by
            rw [if_neg (by decide)] at direction
            omega
          rw [(TypeNode.liftType_fits target).ofInt_convert wide]
          rfl
      | zext =>
          have wide : target ≠ 1 := by
            rw [if_neg (by decide)] at direction
            omega
          have unsigned : readWord signed bits = bits.toNat := by
            cases signed with
            | false => rfl
            | true =>
                have nneg : flags.nneg = true := faithful.resolve_left Bool.true_eq_false.mp
                exact BitVec.toInt_eq_toNat_of_msb (by simpa [poisons, nneg] using poisoned)
          rw [(TypeNode.liftType_fits target).ofInt_convert wide, unsigned, BitVec.ofInt_natCast,
            BitVec.ofNat_toNat]
          rfl
      | trunc =>
          rw [if_pos rfl] at direction
          have cut : BitVec.ofInt target (readWord signed bits) = bits.setWidth target := by
            rw [← setWidth_ofInt direction.le, ofInt_readWord]
          by_cases narrow : target = 1
          · subst narrow
            simp only [poisons, Bool.or_eq_true, Bool.and_eq_true, bne_iff_ne, not_or, not_and,
              not_not] at poisoned
            change BitVec.ofInt 1 (TypeNode.bool.convert (readWord signed bits)) = bits.setWidth 1
            rcases truth_word (bits.setWidth 1) with zero | one
            · -- A promise makes the operand zero with its lowest bit.
              have bits_zero : bits = 0 := by
                rcases faithful rfl with promised | promised
                · rw [← poisoned.1 promised, zero]
                  simp
                · rw [← poisoned.2 promised, zero, BitVec.signExtend]
                  rfl
              rw [zero, readWord_eq_zero.mpr bits_zero]
              rfl
            · have nonzero : readWord signed bits ≠ 0 := by
                rw [Ne, readWord_eq_zero]
                rintro rfl
                simp at one
              rw [one, TypeNode.convert, if_neg nonzero]
              rfl
          · rw [(TypeNode.liftType_fits target).ofInt_convert narrow, cut]
            rfl

end Conversion

end Decompile
end TopoLlvm
