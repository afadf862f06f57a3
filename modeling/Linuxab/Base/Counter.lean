import Mathlib.Data.List.Range
import Mathlib.Data.Nat.Notation

/-! Loops over a counter of eight bits whose last value is included. The counter of such a loop wraps from
255 to 0, so that it is left only if the bound is less than 255. -/
namespace Linuxab.Base
variable {σ : Type*}

/-- `for (uint8_t i = first; i <= last; i++) body` for at most so many rounds; `none` if the loop or its
body is still running then. -/
def forUpTo (last : UInt8) (body : UInt8 → σ → Option σ) : ℕ → UInt8 → σ → Option σ
  | 0,i,s => if i ≤ last then none else some s
  | rounds+1,i,s => if i ≤ last then (body i s).bind (forUpTo last body rounds (i+1)) else some s

variable {last i : UInt8} {body : UInt8 → σ → Option σ} {s : σ} {rounds : ℕ}

theorem forUpTo_of_lt (h : last < i) (rounds : ℕ) : forUpTo last body rounds i s = some s := by
  have hnot : ¬i ≤ last := UInt8.not_le.mpr h
  cases rounds <;> simp [forUpTo,hnot]

theorem toNat_lt_255 (h : last ≠ 255) : last.toNat < 255 := by
  have hne : last.toNat ≠ 255 := fun he => h (UInt8.toNat_inj.mp he)
  have hlt := last.toNat_lt
  omega

/-- Every value of the counter is at most 255. -/
theorem forUpTo_endless (rounds : ℕ) : forUpTo 255 body rounds i s = none := by
  have hle : i ≤ 255 := UInt8.le_iff_toNat_le.mpr (Nat.le_of_lt_succ i.toNat_lt)
  induction rounds generalizing i s with
  | zero => rw [forUpTo,if_pos hle]
  | succ rounds ih =>
    rw [forUpTo,if_pos hle]
    cases body i s with
    | none => rfl
    | some t => exact ih (UInt8.le_iff_toNat_le.mpr (Nat.le_of_lt_succ (i+1).toNat_lt))

theorem forUpTo_of_stuck (h : i ≤ last) (hbody : body i s = none) (rounds : ℕ) :
    forUpTo last body rounds i s = none := by
  cases rounds with
  | zero => rw [forUpTo,if_pos h]
  | succ rounds => rw [forUpTo,if_pos h,hbody,Option.bind_none]

/-- Below 255 the loop is a fold over the values up to the last one. -/
theorem forUpTo_eq {g : σ → ℕ → σ} (hbody : ∀ i s, body i s = some (g s i.toNat)) (hlast : last.toNat < 255)
    (hr : last.toNat+1-i.toNat ≤ rounds) :
    forUpTo last body rounds i s = some ((List.range' i.toNat (last.toNat+1-i.toNat)).foldl g s) := by
  induction rounds generalizing i s with
  | zero =>
    have hlt : last.toNat < i.toNat := by omega
    have hnone : last.toNat+1-i.toNat = 0 := by omega
    rw [forUpTo_of_lt (UInt8.lt_iff_toNat_lt.mpr hlt),hnone]
    rfl
  | succ rounds ih =>
    rcases Nat.lt_or_ge last.toNat i.toNat with hlt | hle
    · have hnone : last.toNat+1-i.toNat = 0 := by omega
      rw [forUpTo_of_lt (UInt8.lt_iff_toNat_lt.mpr hlt),hnone]
      rfl
    · have hone : (1 : UInt8).toNat = 1 := rfl
      have hnext : (i+1).toNat = i.toNat+1 := by
        rw [UInt8.toNat_add,hone]
        omega
      have hcount : last.toNat+1-i.toNat = (last.toNat+1-(i+1).toNat)+1 := by omega
      rw [forUpTo,if_pos (UInt8.le_iff_toNat_le.mpr hle),hbody,Option.bind_some,ih (by omega),hcount,List.range'_succ,
        List.foldl_cons,hnext]

end Linuxab.Base
