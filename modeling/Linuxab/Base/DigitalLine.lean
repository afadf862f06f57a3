import Mathlib.Algebra.Ring.Int.Defs
import Mathlib.Tactic.Linarith

/-! The error term of a line drawn step by step on a grid: `a` steps on the long axis, `b` on the short
one.  The two bounds on it are kept by every step and say where the short axis is at the end. -/
namespace Linuxab.Base

/-- Twice the error term after `i` steps on the long axis and `j` on the short one. -/
structure Balanced (a b i j e : ℤ) : Prop where
  error : e = 2*(a-b)+2*(j*a)-2*(i*b)
  low : -b ≤ e
  high : e ≤ 3*a-2*b

section Balanced
variable {a b i j e : ℤ}

theorem balanced_start (hb : 0 ≤ b) (hba : b ≤ a) : Balanced a b 0 0 (2*(a-b)) := by
  constructor <;> linarith

theorem Balanced.both (h : Balanced a b i j e) (hba : b ≤ a) (he : e ≤ a) :
    Balanced a b (i+1) (j+1) (e+2*a-2*b) := by
  have herror := h.error
  have hlow := h.low
  constructor <;> linarith

theorem Balanced.long (h : Balanced a b i j e) (hb : 0 ≤ b) (he : a < e) : Balanced a b (i+1) j (e-2*b) := by
  have herror := h.error
  have hhigh := h.high
  constructor <;> linarith

/-- The short axis is not overrun. -/
theorem Balanced.short_le (h : Balanced a b i j e) (hb : 0 ≤ b) (ha : 0 < a) (hi : i ≤ a) : j ≤ b := by
  have herror := h.error
  have hhigh := h.high
  have hib : i*b ≤ a*b := Int.mul_le_mul_of_nonneg_right hi hb
  by_contra hj
  have hja : (b+1)*a ≤ j*a := Int.mul_le_mul_of_nonneg_right (by omega) (by omega)
  linarith

/-- Where the long axis ends, so does the short one. -/
theorem Balanced.short_eq (h : Balanced a b a j e) (hb : 0 ≤ b) (ha : 0 < a) (hj : 0 ≤ j) : j = b := by
  have hle := h.short_le hb ha (Int.le_refl a)
  have herror := h.error
  have hlow := h.low
  by_contra hne
  have hja : j*a ≤ (b-1)*a := Int.mul_le_mul_of_nonneg_right (by omega) (by omega)
  have hbpos : 0 < b := by omega
  linarith

end Balanced
end Linuxab.Base
