import Mathlib.Algebra.Order.Ring.Nat
import Mathlib.Data.Nat.ModEq

/-!
# Rounding machine words up to a power of two

`alignUp` is the usual mask computation on 64-bit words.  It adds the least padding that makes the
address a multiple of the alignment, modulo the size of the word.
-/

namespace WordAlign

/-- A power of two that fits a word. -/
def IsAlignment (alignment : UInt64) : Prop := ∃ exponent < 64, alignment.toNat = 2 ^ exponent

instance decidableIsAlignment (alignment : UInt64) : Decidable (IsAlignment alignment) :=
  inferInstanceAs (Decidable (∃ exponent, exponent < 64 ∧ alignment.toNat = 2 ^ exponent))

def alignUp (addr alignment : UInt64) : UInt64 := (addr + alignment - 1) &&& ~~~(alignment - 1)

/-- The padding in front of an aligned address. -/
def padding (addr alignment : Nat) : Nat := (alignment - addr % alignment) % alignment

theorem padding_lt (addr : Nat) {alignment : Nat} (positive : 0 < alignment) :
    padding addr alignment < alignment :=
  Nat.mod_lt _ positive

/-- The padding makes an address a multiple of the alignment. -/
theorem dvd_add_padding (addr : Nat) {alignment : Nat} (positive : 0 < alignment) :
    alignment ∣ addr + padding addr alignment := by
  have below := Nat.mod_lt addr positive
  have split := Nat.div_add_mod addr alignment
  rcases Nat.eq_zero_or_pos (addr % alignment) with aligned | unaligned
  · simp only [padding, aligned, Nat.sub_zero, Nat.mod_self, Nat.add_zero]
    exact Nat.dvd_of_mod_eq_zero aligned
  · rw [padding, Nat.mod_eq_of_lt (by omega)]
    refine ⟨addr / alignment + 1, ?_⟩
    rw [Nat.mul_add, Nat.mul_one]
    omega

/-- Rounding down after adding all but one of the alignment is adding the padding. -/
theorem sub_mod_eq_add_padding (addr : Nat) {alignment : Nat} (positive : 0 < alignment) :
    addr + alignment - 1 - (addr + alignment - 1) % alignment = addr + padding addr alignment := by
  obtain ⟨count, exact⟩ := dvd_add_padding addr positive
  have small := padding_lt addr positive
  have rest : addr + alignment - 1 =
      alignment * count + (alignment - 1 - padding addr alignment) := by omega
  rw [rest, Nat.mul_add_mod, Nat.mod_eq_of_lt (by omega)]
  omega

/-- Clearing the low bits of a word. -/
theorem toNat_and_not_mask (word : UInt64) {alignment : UInt64} {exponent : Nat}
    (power : alignment.toNat = 2 ^ exponent) :
    (word &&& ~~~(alignment - 1)).toNat = word.toNat - word.toNat % 2 ^ exponent := by
  have positive : 0 < 2 ^ exponent := Nat.two_pow_pos exponent
  have mask : (alignment - 1).toNat = 2 ^ exponent - 1 := by
    rw [UInt64.toNat_sub_of_le _ _ (UInt64.le_iff_toNat_le.mpr (by rw [power]; exact positive)),
      power]
    rfl
  have low : (word &&& (alignment - 1)).toNat = word.toNat % 2 ^ exponent := by
    rw [UInt64.toNat_and, mask, Nat.and_two_pow_sub_one_eq_mod]
  have apart : (word &&& ~~~(alignment - 1)).toBitVec &&& (word &&& (alignment - 1)).toBitVec =
      0#64 := by
    ext bit
    simp
    tauto
  have joined : (word &&& ~~~(alignment - 1)).toBitVec ||| (word &&& (alignment - 1)).toBitVec =
      word.toBitVec := by
    ext bit
    simp only [UInt64.toBitVec_and, UInt64.toBitVec_not, BitVec.getElem_or, BitVec.getElem_and,
      BitVec.getElem_not, ← Bool.and_or_distrib_left, Bool.not_or_self, Bool.and_true]
  have sum := congrArg BitVec.toNat (BitVec.add_eq_or_of_and_eq_zero _ _ apart)
  rw [joined, BitVec.toNat_add_of_and_eq_zero apart] at sum
  have sum : (word &&& ~~~(alignment - 1)).toNat + (word &&& (alignment - 1)).toNat =
      word.toNat := sum
  omega

/-- The aligned word is the address with its padding, modulo the size of a word. -/
theorem toNat_alignUp (addr : UInt64) {alignment : UInt64} (power : IsAlignment alignment) :
    (alignUp addr alignment).toNat =
      (addr.toNat + padding addr.toNat alignment.toNat) % 2 ^ 64 := by
  obtain ⟨exponent, bound, power⟩ := power
  have positive : 0 < alignment.toNat := power ▸ Nat.two_pow_pos exponent
  have divides : alignment.toNat ∣ 2 ^ 64 :=
    power ▸ pow_dvd_pow 2 (Nat.le_of_lt bound)
  have sum : (addr + alignment - 1).toNat = (addr.toNat + alignment.toNat - 1) % 2 ^ 64 := by
    rw [UInt64.toNat_sub, UInt64.toNat_add, UInt64.toNat_one]
    omega
  rw [alignUp, toNat_and_not_mask _ power, ← power, sum, Nat.mod_mod_of_dvd _ divides]
  have exact := sub_mod_eq_add_padding addr.toNat positive
  -- The sum wraps at most once, and rounding down does not cross the wrap.
  have below := Nat.mod_lt (addr.toNat + alignment.toNat - 1) positive
  have fits := addr.toNat_lt
  have small := alignment.toNat_lt
  rcases Nat.lt_or_ge (addr.toNat + alignment.toNat - 1) (2 ^ 64) with plain | wraps
  · rw [Nat.mod_eq_of_lt plain, exact, Nat.mod_eq_of_lt (by omega)]
  · have beyond : addr.toNat + alignment.toNat - 1 - 2 ^ 64 =
        (addr.toNat + alignment.toNat - 1) % 2 ^ 64 := by omega
    obtain ⟨multiple, whole⟩ := divides
    have crossed : 2 ^ 64 ≤ addr.toNat + padding addr.toNat alignment.toNat := by
      obtain ⟨count, step⟩ := dvd_add_padding addr.toNat positive
      rw [step, whole]
      refine Nat.mul_le_mul_left _ ?_
      by_contra less
      have least : alignment.toNat * (count + 1) ≤ alignment.toNat * multiple :=
        Nat.mul_le_mul_left _ (by omega)
      rw [Nat.mul_add, ← step, ← whole] at least
      omega
    omega

/-- The aligned word is a multiple of the alignment, even where the rounding wraps. -/
theorem dvd_toNat_alignUp (addr : UInt64) {alignment : UInt64} (power : IsAlignment alignment) :
    alignment.toNat ∣ (alignUp addr alignment).toNat := by
  rw [toNat_alignUp addr power]
  obtain ⟨exponent, bound, power⟩ := power
  have positive : 0 < alignment.toNat := power ▸ Nat.two_pow_pos exponent
  have divides : alignment.toNat ∣ 2 ^ 64 := power ▸ pow_dvd_pow 2 (Nat.le_of_lt bound)
  exact (Nat.dvd_mod_iff divides).mpr (dvd_add_padding _ positive)

/-- The difference of the aligned word and the address is the padding. -/
theorem toNat_alignUp_sub (addr : UInt64) {alignment : UInt64} (power : IsAlignment alignment) :
    (alignUp addr alignment - addr).toNat = padding addr.toNat alignment.toNat := by
  have positive : 0 < alignment.toNat := by
    obtain ⟨exponent, -, power⟩ := power
    exact power ▸ Nat.two_pow_pos exponent
  rw [UInt64.toNat_sub, toNat_alignUp addr power]
  have small := padding_lt addr.toNat positive
  have fits := addr.toNat_lt
  have word := alignment.toNat_lt
  omega

end WordAlign
