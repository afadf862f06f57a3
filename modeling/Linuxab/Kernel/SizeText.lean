import Linuxab.Base.Numeral
import Linuxab.Base.While
import Mathlib.Algebra.Order.Field.Rat
import Mathlib.Order.Bounds.Basic
import Mathlib.Tactic.Linarith

/-! The pretty-printer for sizes of types.c. The number that it prints is compared with the exact quotient. -/
namespace Linuxab.Kernel
open Linuxab.Base

section Print

/-- The variables of the loop. -/
structure SizeLoop where
  size : UInt64
  rem : UInt64
  i : ℕ

def SizeLoop.divide (s : SizeLoop) : SizeLoop := ⟨s.size/1024,s.size%1024,s.i+1⟩

def scaleSize (rounds : ℕ) (size : UInt64) : Option SizeLoop :=
  whileLoop (fun s => decide (s.size ≥ 1024 ∧ s.i < 5)) SizeLoop.divide rounds ⟨size,0,0⟩

/-- The texts B, KB, MB, GB, TB and PB. -/
def units (i : ℕ) : List UInt8 := [[66],[75,66],[77,66],[71,66],[84,66],[80,66]].getD i []

/-- What is printed, where the format `%llu` of `printk` is a decimal numeral. -/
def printSize (rounds : ℕ) (size : UInt64) (suffix : List UInt8) : Option (List UInt8) := do
  let s ← scaleSize rounds size
  if s.i = 0 ∨ s.rem = 0 then return numeral 10 s.size.toNat ++ [32] ++ units s.i ++ suffix ++ [10]
  else
    return numeral 10 s.size.toNat ++ [46] ++ numeral 10 (s.rem*100/1024).toNat ++ [32] ++ units s.i ++ suffix ++ [10]

end Print

/-- The number before the blank, read as a decimal fraction. -/
def printedNumber (text : List UInt8) : ℚ := decimalFraction (text.takeWhile (· ≠ 32))

/-- What is printed behind the blank. -/
def printedUnit (text : List UInt8) : List UInt8 := (text.dropWhile (· ≠ 32)).tail

section Scale

/-- What the loop has made of the size after `s.i` rounds. -/
structure Scaled (size : ℕ) (s : SizeLoop) : Prop where
  size_eq : s.size.toNat = size/1024^s.i
  rem_eq : ∀ j, s.i = j+1 → s.rem.toNat = size/1024^j%1024
  i_le : s.i ≤ 5
  large : ∀ j < s.i, 1024 ≤ size/1024^j

lemma Scaled.divide {size : ℕ} {s : SizeLoop} (h : Scaled size s) (hlarge : 1024 ≤ s.size) (hi : s.i < 5) :
    Scaled size s.divide := by
  have hsize : (s.size/1024).toNat = s.size.toNat/1024 := UInt64.toNat_div ..
  refine ⟨?_,?_,hi,?_⟩
  · rw [SizeLoop.divide,hsize,h.size_eq,Nat.div_div_eq_div_mul,← Nat.pow_succ]
  · intro j hj
    have hj : s.i = j := Nat.succ.inj hj
    rw [← hj,← h.size_eq]
    exact UInt64.toNat_mod ..
  · intro j hj
    rcases Nat.lt_succ_iff_lt_or_eq.mp hj with hlt | rfl
    · exact h.large j hlt
    · rw [← h.size_eq]
      exact UInt64.le_iff_toNat_le.mp hlarge

/-- The loop needs five rounds at most and leaves the size less than 1024 if it was left before. -/
lemma exists_scaleSize (size : UInt64) : ∃ s, (∀ rounds, 5 ≤ rounds → scaleSize rounds size = some s) ∧
    Scaled size.toNat s ∧ (s.size.toNat < 1024 ∨ s.i = 5) := by
  have hinit : Scaled size.toNat ⟨size,0,0⟩ :=
    ⟨by rw [Nat.pow_zero,Nat.div_one],fun j hj => absurd hj (Nat.succ_ne_zero j).symm,Nat.zero_le 5,
      fun j hj => absurd hj (Nat.not_lt_zero j)⟩
  obtain ⟨s,hrun,hscaled,hstop⟩ := exists_whileLoop (c := fun s => decide (s.size ≥ 1024 ∧ s.i < 5)) (Scaled size.toNat)
    (fun s => 5-s.i) (fun s hs hc => ⟨hs.divide (of_decide_eq_true hc).1 (of_decide_eq_true hc).2,by
      have hi := (of_decide_eq_true hc).2
      simp only [SizeLoop.divide]
      omega⟩) hinit
  refine ⟨s,hrun,hscaled,?_⟩
  rcases not_and_or.mp (of_decide_eq_false hstop) with hsmall | hi
  · exact .inl (UInt64.lt_iff_toNat_lt.mp (UInt64.not_le.mp hsmall))
  · exact .inr (le_antisymm hscaled.i_le (not_lt.mp hi))

/-- The indices of the units in which the size is less than 1024, and the last one. -/
def unitIndices (size : ℕ) : Set ℕ := { j | (size : ℚ)/1024^j < 1024 ∨ j = 5 }

lemma div_pow_lt_iff (size j : ℕ) : (size : ℚ)/1024^j < 1024 ↔ size/1024^j < 1024 := by
  rw [div_lt_iff₀ (by positivity),Nat.div_lt_iff_lt_mul (by positivity)]
  exact_mod_cast Iff.rfl

lemma Scaled.isLeast {size : ℕ} {s : SizeLoop} (h : Scaled size s) (hstop : s.size.toNat < 1024 ∨ s.i = 5) :
    IsLeast (unitIndices size) s.i := by
  refine ⟨?_,fun j hj => ?_⟩
  · rw [h.size_eq] at hstop
    exact hstop.imp_left (div_pow_lt_iff size s.i).mpr
  · by_contra hlt
    rw [not_le] at hlt
    rcases hj with hsmall | rfl
    · exact absurd ((div_pow_lt_iff size j).mp hsmall) (not_lt.mpr (h.large j hlt))
    · exact absurd h.i_le (not_le.mpr hlt)

end Scale

section Accuracy

/-- The exact quotient is between the remainder and the next one. -/
lemma quotient_bounds (size j : ℕ) :
    ((size/1024^(j+1) : ℕ) : ℚ)+(size/1024^j%1024 : ℕ)/1024 ≤ size/1024^(j+1) ∧
      (size : ℚ)/1024^(j+1) < (size/1024^(j+1) : ℕ)+((size/1024^j%1024 : ℕ)+1)/1024 := by
  have hsplit : (size/1024^(j+1))*1024+size/1024^j%1024 = size/1024^j := by
    rw [Nat.pow_succ,← Nat.div_div_eq_div_mul]
    exact Nat.div_add_mod' _ _
  have hwhole : ((size/1024^(j+1) : ℕ) : ℚ)*1024+(size/1024^j%1024 : ℕ) = (size/1024^j : ℕ) := by exact_mod_cast hsplit
  have hpow : (0 : ℚ) < 1024^j := by positivity
  have hlow : ((size/1024^j : ℕ) : ℚ) ≤ size/1024^j := by
    rw [le_div_iff₀ hpow]
    exact_mod_cast Nat.div_mul_le_self size (1024^j)
  have hhigh : (size : ℚ)/1024^j < (size/1024^j : ℕ)+1 := by
    rw [div_lt_iff₀ hpow]
    exact_mod_cast Nat.lt_mul_of_div_lt (Nat.lt_succ_self _) (by positivity)
  have hscale : (size : ℚ)/1024^(j+1) = size/1024^j/1024 := by rw [pow_succ,div_div]
  rw [hscale]
  constructor <;> linarith

variable {whole rem : ℕ} {x : ℚ}

/-- The hundredths are printed without their leading zero. -/
lemma accurate_iff (hrem : rem < 1024) (hlow : (whole : ℚ)+rem/1024 ≤ x) (hhigh : x < whole+(rem+1)/1024) :
    |decimalFraction (numeral 10 whole ++ 46::numeral 10 (rem*100/1024))-x| < 1/50 ↔ rem ∉ Set.Icc 11 102 := by
  have hfloor : ((rem*100/1024 : ℕ) : ℚ)*1024 ≤ rem*100 := by exact_mod_cast Nat.div_mul_le_self _ _
  have hceil : (rem : ℚ)*100 < ((rem*100/1024 : ℕ)+1)*1024 := by
    exact_mod_cast Nat.lt_mul_of_div_lt (Nat.lt_succ_self _) (by decide)
  rw [decimalFraction_point,abs_lt,Set.mem_Icc]
  rcases Nat.lt_or_ge (rem*100/1024) 10 with hsmall | hlarge
  · rw [length_numeral_of_lt_ten hsmall]
    rcases Nat.eq_zero_or_pos (rem*100/1024) with hzero | hpos
    · rw [hzero] at hceil ⊢
      refine ⟨fun _ => by omega,fun _ => ?_⟩
      push_cast at hceil ⊢
      constructor <;> linarith
    · have hone : (1 : ℚ) ≤ (rem*100/1024 : ℕ) := by exact_mod_cast hpos
      refine ⟨fun h => ?_,fun h => absurd (by omega) h⟩
      linarith
  · rw [length_numeral_of_lt_hundred hlarge (by omega)]
    refine ⟨fun _ => by omega,fun _ => ?_⟩
    constructor <;> linarith

/-- The number of the two formats. -/
def SizeLoop.number (s : SizeLoop) : List UInt8 :=
  if s.i = 0 ∨ s.rem = 0 then numeral 10 s.size.toNat
  else numeral 10 s.size.toNat ++ 46::numeral 10 (s.rem*100/1024).toNat

lemma SizeLoop.blank_notMem_number (s : SizeLoop) : ∀ c ∈ s.number, decide (c ≠ 32) = true := by
  have hnumeral (n : ℕ) : ∀ c ∈ numeral 10 n, decide (c ≠ 32) = true := fun c => ne_of_mem_numeral (by decide)
  intro c hc
  rw [SizeLoop.number] at hc
  split_ifs at hc
  · exact hnumeral _ c hc
  · rcases List.mem_append.mp hc with hwhole | hrest
    · exact hnumeral _ c hwhole
    · rcases List.mem_cons.mp hrest with rfl | hfraction
      · decide
      · exact hnumeral _ c hfraction

lemma printSize_eq {rounds : ℕ} {size : UInt64} {s : SizeLoop} (h : scaleSize rounds size = some s)
    (suffix : List UInt8) : printSize rounds size suffix = some (s.number ++ 32::(units s.i ++ suffix ++ [10])) := by
  rw [printSize,h,Option.bind_eq_bind,Option.bind_some,SizeLoop.number]
  split_ifs with hwhole <;> simp [pure]

lemma printedNumber_append {l : List UInt8} (hl : ∀ c ∈ l, decide (c ≠ 32) = true) (rest : List UInt8) :
    printedNumber (l ++ 32::rest) = decimalFraction l := by
  rw [printedNumber,List.takeWhile_append_of_pos hl,List.takeWhile_cons_of_neg (by decide),List.append_nil]

lemma printedUnit_append {l : List UInt8} (hl : ∀ c ∈ l, decide (c ≠ 32) = true) (rest : List UInt8) :
    printedUnit (l ++ 32::rest) = rest := by
  rw [printedUnit,List.dropWhile_append_of_pos hl,List.dropWhile_cons_of_neg (by decide),List.tail_cons]

lemma Scaled.accurate_iff {size : ℕ} {s : SizeLoop} (h : Scaled size s) :
    |decimalFraction s.number-size/1024^s.i| < 1/50 ↔ ∀ j, s.i = j+1 → size/1024^j%1024 ∉ Set.Icc 11 102 := by
  cases hi : s.i with
  | zero =>
    have hnumber : s.number = numeral 10 size := by
      rw [SizeLoop.number,if_pos (.inl hi),h.size_eq,hi,Nat.pow_zero,Nat.div_one]
    rw [hnumber,decimalFraction_numeral,pow_zero,div_one,sub_self,abs_zero]
    exact ⟨fun _ j hj => absurd hj (Nat.succ_ne_zero j).symm,fun _ => by norm_num⟩
  | succ j =>
    obtain ⟨hlow,hhigh⟩ := quotient_bounds size j
    have hrem := h.rem_eq j hi
    have hlt : s.rem.toNat < 1024 := hrem ▸ Nat.mod_lt _ (by decide)
    rw [← hi,← h.size_eq,← hrem,hi] at hlow hhigh
    have hsucc : (∀ k, j+1 = k+1 → size/1024^k%1024 ∉ Set.Icc 11 102) ↔ s.rem.toNat ∉ Set.Icc 11 102 := by
      rw [hrem]
      exact ⟨fun hall => hall j rfl,fun hj k hk => Nat.succ.inj hk ▸ hj⟩
    rw [hsucc]
    by_cases hzero : s.rem = 0
    · -- no fraction is printed, and what is cut off is less than 1/1024
      rw [SizeLoop.number,if_pos (.inr hzero),decimalFraction_numeral,abs_lt]
      rw [hzero] at hlow hhigh ⊢
      simp only [UInt64.toNat_zero,Nat.cast_zero] at hlow hhigh
      refine ⟨fun _ => by simp,fun _ => ?_⟩
      constructor <;> linarith
    · have hfraction : (s.rem*100/1024).toNat = s.rem.toNat*100/1024 := by
        rw [UInt64.toNat_div,UInt64.toNat_mul,Nat.mod_eq_of_lt]
        · rfl
        · change s.rem.toNat*100 < 2^64
          omega
      rw [SizeLoop.number,if_neg (not_or.mpr ⟨by omega,hzero⟩),hfraction]
      exact Kernel.accurate_iff hlt hlow hhigh

end Accuracy

/-- The unit is always right, and the number is off where a leading zero is lost. -/
theorem printSize_accurate_iff {rounds : ℕ} (hr : 5 ≤ rounds) (size : UInt64) (suffix : List UInt8) :
    ∃ text i, printSize rounds size suffix = some text ∧ printedUnit text = units i ++ suffix ++ [10] ∧
      IsLeast (unitIndices size.toNat) i ∧
      (|printedNumber text-size.toNat/1024^i| < 1/50 ↔ ∀ j, i = j+1 → size.toNat/1024^j%1024 ∉ Set.Icc 11 102) := by
  obtain ⟨s,hrun,hscaled,hstop⟩ := exists_scaleSize size
  refine ⟨_,s.i,printSize_eq (hrun rounds hr) suffix,printedUnit_append s.blank_notMem_number _,
    hscaled.isLeast hstop,?_⟩
  rw [printedNumber_append s.blank_notMem_number]
  exact hscaled.accurate_iff

theorem printSize_accurate_half : 5 ≤ 5 ∧ ∃ text i, printSize 5 1536 [] = some text ∧
    printedUnit text = units i ++ [] ++ [10] ∧ IsLeast (unitIndices 1536) i ∧
    (|printedNumber text-(1536 : ℕ)/1024^i| < 1/50 ↔ ∀ j, i = j+1 → 1536/1024^j%1024 ∉ Set.Icc 11 102) :=
  ⟨le_rfl,printSize_accurate_iff le_rfl 1536 []⟩

/-- 1075 bytes are 1.0498 KB and are printed as 1.4 KB. -/
theorem printSize_inaccurate : printSize 5 1075 [] = some [49,46,52,32,75,66,10] ∧
    printedUnit [49,46,52,32,75,66,10] = units 1 ++ [] ++ [10] ∧
    ¬ |printedNumber [49,46,52,32,75,66,10]-(1075 : ℕ)/1024^1| < 1/50 := by
  refine ⟨by decide +kernel,by decide,?_⟩
  have hnumber : printedNumber [49,46,52,32,75,66,10] = 14/10 := by decide +kernel
  rw [hnumber]
  norm_num [abs_lt]


end Linuxab.Kernel
