import Mathlib.Data.Nat.Bitwise

/-! Machine integers as numbers: clearing the low bits of a word, and reading an unsigned word as a
signed one, and signed arithmetic that does not overflow. -/
namespace Linuxab.Base

/-- A mask without its `k` low bits rounds down to a multiple of `2^k`. -/
theorem and_high_bits {n j k : ℕ} (hn : n < 2^(j+k)) : n &&& (2^j-1) <<< k = n/2^k*2^k := by
  have hround : n/2^k*2^k = (n >>> k) <<< k := by rw [Nat.shiftLeft_eq,Nat.shiftRight_eq_div_pow]
  rw [hround]
  apply Nat.eq_of_testBit_eq
  intro i
  rw [Nat.testBit_and,Nat.testBit_shiftLeft,Nat.testBit_shiftLeft,Nat.testBit_two_pow_sub_one,Nat.testBit_shiftRight]
  rcases Nat.lt_or_ge i k with hlow | hlow
  · simp [Nat.not_le.mpr hlow]
  rw [Nat.add_sub_cancel' hlow]
  rcases Nat.lt_or_ge i (j+k) with hhigh | hhigh
  · have hbit : i-k < j := by omega
    simp [hbit,Bool.and_comm]
  · have hpow : n < 2^i := Nat.lt_of_lt_of_le hn (Nat.pow_le_pow_right (by decide) hhigh)
    simp [Nat.testBit_lt_two_pow hpow]

theorem toInt_toInt32 (x : UInt32) : x.toInt32.toInt = if x.toNat < 2^31 then (x.toNat : ℤ) else x.toNat-2^32 := by
  have hint : x.toInt32.toInt = if 2*x.toNat < 2^32 then (x.toNat : ℤ) else x.toNat-2^32 := by
    rw [← Int32.toInt_toBitVec,UInt32.toBitVec_toInt32,BitVec.toInt_eq_toNat_cond]
    rfl
  rw [hint]
  split_ifs <;> omega

theorem toInt_toInt64 (x : UInt64) : x.toInt64.toInt = if x.toNat < 2^63 then (x.toNat : ℤ) else x.toNat-2^64 := by
  have hint : x.toInt64.toInt = if 2*x.toNat < 2^64 then (x.toNat : ℤ) else x.toNat-2^64 := by
    rw [← Int64.toInt_toBitVec,UInt64.toBitVec_toInt64,BitVec.toInt_eq_toNat_cond]
    rfl
  rw [hint]
  split_ifs <;> omega

section Signed
variable {a b : Int32}

theorem toInt_add_of_le (hl : -2^31 ≤ a.toInt+b.toInt) (hu : a.toInt+b.toInt < 2^31) :
    (a+b).toInt = a.toInt+b.toInt := by
  rw [Int32.toInt_add]
  exact Int.bmod_eq_of_le (by omega) (by omega)

theorem toInt_sub_of_le (hl : -2^31 ≤ a.toInt-b.toInt) (hu : a.toInt-b.toInt < 2^31) :
    (a-b).toInt = a.toInt-b.toInt := by
  rw [Int32.toInt_sub]
  exact Int.bmod_eq_of_le (by omega) (by omega)

theorem toInt_mul_of_le (hl : -2^31 ≤ a.toInt*b.toInt) (hu : a.toInt*b.toInt < 2^31) :
    (a*b).toInt = a.toInt*b.toInt := by
  rw [Int32.toInt_mul]
  exact Int.bmod_eq_of_le (by omega) (by omega)

end Signed
end Linuxab.Base
