import Linuxab.Base.Integers
import Mathlib.Order.Bounds.Basic

/-! The alignment macros of rust/types.h at an unsigned 64-bit operand. `ALIGN_DOWN` hands the complement of
the mask to a macro that adds its mask and then clears it, so what comes out is the remainder. -/
namespace Linuxab.Kernel
open Linuxab.Base

def alignKernelMask (x mask : UInt64) : UInt64 := (x+mask) &&& ~~~mask

def alignKernel (x a : UInt64) : UInt64 := alignKernelMask x (a-1)

def align (x a : UInt64) : UInt64 := alignKernel x a

def alignDown (x a : UInt64) : UInt64 := alignKernelMask x (~~~(a-1))

def isAligned (x a : UInt64) : Bool := x &&& (a-1) == 0

/-! ## Values -/

section Power
variable {x a : UInt64} {k : ℕ}

theorem exponent_lt (ha : a.toNat = 2^k) : k < 64 :=
  (Nat.pow_lt_pow_iff_right (by decide)).mp (ha ▸ a.toNat_lt)

theorem toNat_low_mask (ha : a.toNat = 2^k) : (a-1).toNat = 2^k-1 := by
  have hone : (1 : UInt64) ≤ a := UInt64.le_iff_toNat_le.mpr (ha ▸ Nat.one_le_two_pow)
  rw [UInt64.toNat_sub_of_le _ _ hone,ha]
  rfl

/-- The complement of the low mask has the bits from `k` upwards. -/
theorem toNat_high_mask (ha : a.toNat = 2^k) : (~~~(a-1)).toNat = (2^(64-k)-1) <<< k := by
  have hpow : 2^(64-k)*2^k = 2^64 := by rw [← Nat.pow_add,Nat.sub_add_cancel (Nat.le_of_lt (exponent_lt ha))]
  have hpos : 0 < 2^k := Nat.two_pow_pos k
  rw [UInt64.toNat_not,toNat_low_mask ha,Nat.shiftLeft_eq,Nat.sub_mul,hpow]
  change 2^64-1-(2^k-1) = _
  omega

theorem toNat_align (ha : a.toNat = 2^k) (hfit : x.toNat+a.toNat-1 < 2^64) :
    (align x a).toNat = (x.toNat+(2^k-1))/2^k*2^k := by
  have hpos : 0 < 2^k := Nat.two_pow_pos k
  have hsum : (x+(a-1)).toNat = x.toNat+(2^k-1) := by
    rw [UInt64.toNat_add,toNat_low_mask ha]
    exact Nat.mod_eq_of_lt (by omega)
  rw [align,alignKernel,alignKernelMask,UInt64.toNat_and,toNat_high_mask ha,hsum]
  refine and_high_bits ?_
  rw [Nat.sub_add_cancel (Nat.le_of_lt (exponent_lt ha))]
  omega

/-- Adding the complemented mask takes `a` away and the second complement keeps the low bits: the
remainder is left, not the multiple below. -/
theorem toNat_alignDown (ha : a.toNat = 2^k) : (alignDown x a).toNat = x.toNat%2^k := by
  have hdvd : 2^k ∣ 2^64 := Nat.pow_dvd_pow 2 (Nat.le_of_lt (exponent_lt ha))
  rw [alignDown,alignKernelMask,UInt64.not_not,UInt64.toNat_and,toNat_low_mask ha,Nat.and_two_pow_sub_one_eq_mod,
    UInt64.toNat_add,toNat_high_mask ha,Nat.mod_mod_of_dvd _ hdvd,Nat.shiftLeft_eq,Nat.add_mul_mod_self_right]

theorem isAligned_iff (ha : a.toNat = 2^k) : isAligned x a = true ↔ a.toNat ∣ x.toNat := by
  rw [isAligned,beq_iff_eq,← UInt64.toNat_inj,UInt64.toNat_and,toNat_low_mask ha,Nat.and_two_pow_sub_one_eq_mod,ha]
  exact Nat.dvd_iff_mod_eq_zero.symm

end Power

/-! ## Rounding -/

/-- What the macros are for: the multiples of `a` next to `x`, where the upper one is a 64-bit value. -/
structure RoundsToMultiples (x a : UInt64) : Prop where
  down : IsGreatest {m | a.toNat ∣ m ∧ m ≤ x.toNat} (alignDown x a).toNat
  down_aligned : isAligned (alignDown x a) a = true
  down_le : alignDown x a ≤ x
  up : x.toNat+a.toNat-1 < 2^64 → IsLeast {m | a.toNat ∣ m ∧ x.toNat ≤ m} (align x a).toNat
  up_aligned : x.toNat+a.toNat-1 < 2^64 → isAligned (align x a) a = true
  le_up : x.toNat+a.toNat-1 < 2^64 → x ≤ align x a
  up_lt : x.toNat+a.toNat-1 < 2^64 → (align x a).toNat < (alignDown x a).toNat+2*a.toNat

section Rounding
variable {x a : UInt64} {k : ℕ}

theorem isLeast_round_up (n : ℕ) {b : ℕ} (hb : 0 < b) :
    IsLeast {m | b ∣ m ∧ n ≤ m} ((n+(b-1))/b*b) := by
  have hdiv := Nat.div_add_mod' (n+(b-1)) b
  have hmod := Nat.mod_lt (n+(b-1)) hb
  refine ⟨⟨Nat.dvd_mul_left _ _,by omega⟩,?_⟩
  rintro m ⟨⟨q,rfl⟩,hm⟩
  rw [Nat.mul_comm b q]
  refine Nat.mul_le_mul_right b ?_
  rw [Nat.div_le_iff_le_mul_add_pred hb]
  omega

theorem align_isLeast (ha : a.toNat = 2^k) (hfit : x.toNat+a.toNat-1 < 2^64) :
    IsLeast {m | a.toNat ∣ m ∧ x.toNat ≤ m} (align x a).toNat := by
  rw [toNat_align ha hfit,ha]
  exact isLeast_round_up x.toNat (Nat.two_pow_pos k)

/-- A remainder is a multiple only when it is zero, and zero is the greatest multiple only below `a`. -/
theorem eq_zero_of_isGreatest_alignDown (ha : a.toNat = 2^k)
    (hdown : IsGreatest {m | a.toNat ∣ m ∧ m ≤ x.toNat} (alignDown x a).toNat) : x = 0 := by
  rw [toNat_alignDown ha,ha] at hdown
  have hrem : x.toNat%2^k = 0 := Nat.eq_zero_of_dvd_of_lt hdown.1.1 (Nat.mod_lt _ (Nat.two_pow_pos k))
  have hself : x.toNat ≤ x.toNat%2^k := hdown.2 ⟨Nat.dvd_of_mod_eq_zero hrem,Nat.le_refl _⟩
  exact UInt64.toNat_inj.mp (Nat.eq_zero_of_le_zero (hrem ▸ hself))

theorem roundsToMultiples_zero (ha : a.toNat = 2^k) : RoundsToMultiples 0 a := by
  have hpos : 0 < a.toNat := ha ▸ Nat.two_pow_pos k
  have hdown : (alignDown 0 a).toNat = 0 := by
    rw [toNat_alignDown ha]
    exact Nat.zero_mod _
  have hup (hfit : (0 : UInt64).toNat+a.toNat-1 < 2^64) : (align 0 a).toNat = 0 :=
    (align_isLeast ha hfit).unique ⟨⟨Nat.dvd_zero _,Nat.le_refl _⟩,fun _ _ => Nat.zero_le _⟩
  refine ⟨?_,?_,?_,align_isLeast ha,fun hfit => ?_,fun _ => ?_,fun hfit => ?_⟩
  · rw [hdown]
    exact ⟨⟨Nat.dvd_zero _,Nat.le_refl _⟩,fun m hm => hm.2⟩
  · rw [isAligned_iff ha,hdown]
    exact Nat.dvd_zero _
  · rw [UInt64.le_iff_toNat_le,hdown]
    exact Nat.zero_le _
  · rw [isAligned_iff ha,hup hfit]
    exact Nat.dvd_zero _
  · exact UInt64.le_iff_toNat_le.mpr (Nat.zero_le _)
  · rw [hup hfit,hdown]
    omega

end Rounding

/-- Rounding up is right wherever its result is a 64-bit value; rounding down, and with it the two macros
together, is right at zero and nowhere else. -/
theorem align_macros_round_iff (x a : UInt64) (ha : a.toNat.isPowerOfTwo) :
    (x.toNat+a.toNat-1 < 2^64 → IsLeast {m | a.toNat ∣ m ∧ x.toNat ≤ m} (align x a).toNat) ∧
    (alignDown x a).toNat = x.toNat%a.toNat ∧ (RoundsToMultiples x a ↔ x = 0) := by
  obtain ⟨k,hk⟩ := ha
  refine ⟨align_isLeast hk,?_,fun h => eq_zero_of_isGreatest_alignDown hk h.down,?_⟩
  · rw [toNat_alignDown hk,hk]
  · rintro rfl
    exact roundsToMultiples_zero hk

theorem align_macros_round_page : RoundsToMultiples 0 4096 :=
  (align_macros_round_iff 0 4096 ⟨12,by decide⟩).2.2.mpr rfl

/-- At 0x1234 with pages of 4096 bytes the lower multiple is 0x1000; the macro gives 0x234. -/
theorem alignDown_remainder : alignDown 0x1234 4096 = 0x234 ∧ align 0x1234 4096 = 0x2000 ∧
    isAligned (alignDown 0x1234 4096) 4096 = false ∧ ¬ RoundsToMultiples 0x1234 4096 := by
  refine ⟨by decide,by decide,by decide,fun h => ?_⟩
  have haligned := h.down_aligned
  revert haligned
  decide

end Linuxab.Kernel
