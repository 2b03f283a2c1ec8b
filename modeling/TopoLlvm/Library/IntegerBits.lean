import Mathlib.Data.Int.Bitwise
import Mathlib.Tactic

/-!
# Integers as machine words

An integer stands for a word of a width, as its residue.  Signed and unsigned readings of a word
stand for it, and the ring operations and the bitwise ones agree with those of words.
-/

namespace IntegerBits

variable {width : ℕ}

/-- The signed or the unsigned reading of an integer at a width. -/
def reading (signed : Bool) (width : ℕ) (value : ℤ) : ℤ :=
  if signed then value.bmod (2 ^ width) else value % 2 ^ width

theorem reading_signed (value : ℤ) :
    reading true width value = (BitVec.ofInt width value).toInt := by
  simp [reading, BitVec.toInt_ofInt]

theorem reading_unsigned (value : ℤ) :
    reading false width value = (BitVec.ofInt width value).toNat := by
  have nonneg : 0 ≤ value % 2 ^ width := Int.emod_nonneg _ (by positivity)
  simp [reading, BitVec.toNat_ofInt, nonneg]

/-- A reading stands for the word it is read from. -/
@[simp] theorem ofInt_reading (signed : Bool) (value : ℤ) :
    BitVec.ofInt width (reading signed width value) = BitVec.ofInt width value := by
  cases signed with
  | true => rw [reading_signed, BitVec.ofInt_toInt]
  | false => rw [reading_unsigned, BitVec.ofInt_natCast, BitVec.ofNat_toNat, BitVec.setWidth_eq]

@[simp] theorem reading_reading (signed : Bool) (value : ℤ) :
    reading signed width (reading signed width value) = reading signed width value := by
  cases signed with
  | true => simp only [reading_signed, BitVec.ofInt_toInt]
  | false =>
      simp only [reading_unsigned, BitVec.ofInt_natCast, BitVec.ofNat_toNat, BitVec.setWidth_eq]

theorem ofInt_sub (left right : ℤ) :
    BitVec.ofInt width (left - right) = BitVec.ofInt width left - BitVec.ofInt width right := by
  rw [sub_eq_add_neg, BitVec.ofInt_add, BitVec.ofInt_neg, BitVec.sub_eq_add_neg]

theorem getLsbD_ofInt (value : ℤ) (index : ℕ) :
    (BitVec.ofInt width value).getLsbD index = (decide (index < width) && value.testBit index) := by
  cases value with
  | ofNat value => simp [Int.testBit, BitVec.getLsbD_ofNat]
  | negSucc value =>
      rw [BitVec.ofInt_negSucc_eq_not_ofNat, BitVec.getLsbD_not, BitVec.getLsbD_ofNat]
      by_cases inside : index < width <;> simp [Int.testBit, inside]

/-- A shorter word of an integer is cut out of a longer one. -/
theorem setWidth_ofInt {shorter : ℕ} (le : shorter ≤ width) (value : ℤ) :
    (BitVec.ofInt width value).setWidth shorter = BitVec.ofInt shorter value := by
  apply BitVec.eq_of_getLsbD_eq
  intro index inside
  rw [BitVec.getLsbD_setWidth]
  simp only [getLsbD_ofInt, inside, inside.trans_le le, decide_true, Bool.true_and]

theorem ofInt_land (left right : ℤ) :
    BitVec.ofInt width (Int.land left right) =
      BitVec.ofInt width left &&& BitVec.ofInt width right := by
  apply BitVec.eq_of_getLsbD_eq
  intro index inside
  rw [BitVec.getLsbD_and]
  simp only [getLsbD_ofInt, Int.testBit_land, inside, decide_true, Bool.true_and]

theorem ofInt_lor (left right : ℤ) :
    BitVec.ofInt width (Int.lor left right) =
      BitVec.ofInt width left ||| BitVec.ofInt width right := by
  apply BitVec.eq_of_getLsbD_eq
  intro index inside
  rw [BitVec.getLsbD_or]
  simp only [getLsbD_ofInt, Int.testBit_lor, inside, decide_true, Bool.true_and]

/-- Division rounds toward zero on the signed readings. -/
theorem ofInt_tdiv (left right : BitVec width) :
    BitVec.ofInt width (left.toInt.tdiv right.toInt) = left.sdiv right := by
  apply BitVec.eq_of_toInt_eq
  rw [BitVec.toInt_ofInt, BitVec.toInt_sdiv]

theorem ofInt_tmod (left right : BitVec width) :
    BitVec.ofInt width (left.toInt.tmod right.toInt) = left.srem right := by
  rw [← BitVec.toInt_srem, BitVec.ofInt_toInt]

theorem ofInt_tdiv_toNat (left right : BitVec width) :
    BitVec.ofInt width ((left.toNat : ℤ).tdiv right.toNat) = left.udiv right := by
  rw [← Int.ofNat_tdiv, BitVec.ofInt_natCast, ← BitVec.toNat_udiv, BitVec.ofNat_toNat,
    BitVec.setWidth_eq]
  rfl

theorem ofInt_tmod_toNat (left right : BitVec width) :
    BitVec.ofInt width ((left.toNat : ℤ).tmod right.toNat) = left.umod right := by
  rw [← Int.ofNat_tmod, BitVec.ofInt_natCast, ← BitVec.toNat_umod, BitVec.ofNat_toNat,
    BitVec.setWidth_eq]
  rfl

end IntegerBits
