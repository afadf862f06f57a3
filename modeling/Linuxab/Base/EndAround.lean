import Mathlib.Data.Nat.ModEq

/-! End-around folding. Adding the part of a number above a radix back onto its low part, until
nothing is left above, computes the representative of the number modulo one less than the
radix; zero is only produced from zero. -/
namespace Linuxab.Base

lemma fold_step_lt {r n : ℕ} (hr : 2 ≤ r) (hn : r ≤ n) : n % r + n / r < n := by
  have hq : 1 ≤ n / r := Nat.div_pos hn (by omega)
  have he := Nat.mod_add_div n r
  have hm : 2*(n / r) ≤ r*(n / r) := Nat.mul_le_mul_right _ hr
  omega

/-- Fold the part above the radix onto the part below until it is gone. -/
def endAround (r n : ℕ) : ℕ :=
  if _h : 2 ≤ r ∧ r ≤ n then endAround r (n % r + n / r) else n
termination_by n
decreasing_by exact fold_step_lt _h.1 _h.2

variable {r : ℕ}

theorem endAround_lt (hr : 2 ≤ r) (n : ℕ) : endAround r n < r := by
  induction n using Nat.strong_induction_on with
  | _ n ih =>
    rw [endAround]
    split
    · next h => exact ih _ (fold_step_lt h.1 h.2)
    · next h => omega

theorem endAround_modEq (hr : 2 ≤ r) (n : ℕ) : endAround r n ≡ n [MOD r-1] := by
  induction n using Nat.strong_induction_on with
  | _ n ih =>
    rw [endAround]
    split
    · next h =>
      refine (ih _ (fold_step_lt h.1 h.2)).trans ?_
      have hr1 : r ≡ 1 [MOD r-1] := (Nat.modEq_iff_dvd' (by omega)).mpr dvd_rfl |>.symm
      calc n % r + n / r = n % r + 1*(n / r) := by rw [Nat.one_mul]
        _ ≡ n % r + r*(n / r) [MOD r-1] := (hr1.symm.mul_right _).add_left _
        _ = n := Nat.mod_add_div n r
    · rfl

theorem endAround_pos (hr : 2 ≤ r) {n : ℕ} (hn : 0 < n) : 0 < endAround r n := by
  induction n using Nat.strong_induction_on with
  | _ n ih =>
    rw [endAround]
    split
    · next h =>
      have hq : 1 ≤ n / r := Nat.div_pos h.2 (by omega)
      exact ih _ (fold_step_lt h.1 h.2) (by omega)
    · exact hn

/-- A positive number folds to the top value exactly when it is a multiple of it. -/
theorem endAround_eq_top_iff (hr : 2 ≤ r) {n : ℕ} (hn : 0 < n) :
    endAround r n = r-1 ↔ r-1 ∣ n := by
  have hm := endAround_modEq hr n
  constructor
  · intro he
    rw [he] at hm
    exact (Nat.modEq_zero_iff_dvd).mp (hm.symm.trans (by simp [Nat.ModEq]))
  · intro hd
    have h0 : r-1 ∣ endAround r n :=
      Nat.modEq_zero_iff_dvd.mp (hm.trans (Nat.modEq_zero_iff_dvd.mpr hd))
    have hle := Nat.le_of_dvd (endAround_pos hr hn) h0
    have hlt := endAround_lt hr n
    omega

end Linuxab.Base
