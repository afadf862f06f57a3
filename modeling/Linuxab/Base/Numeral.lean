import Mathlib.Data.List.TakeWhile
import Mathlib.Data.Nat.Digits.Lemmas
import Mathlib.Data.Rat.Defs

/-! Numerals: the digits of a number in a base, the lowest first and at least one, and their characters. A decimal
numeral with a point stands for a fraction. -/
namespace Linuxab.Base
variable {b n d : ℕ}

/-- The digits from ten on are small letters. -/
def digitChar (d : ℕ) : UInt8 := UInt8.ofNat (if d < 10 then 48+d else 97+d-10)

def digitsOf (b n : ℕ) : List ℕ := if n = 0 then [0] else Nat.digits b n

def numeral (b n : ℕ) : List UInt8 := (digitsOf b n).reverse.map digitChar

/-- The digits as they are split off one after the other. -/
theorem digitsOf_eq (hb : 1 < b) (n : ℕ) : digitsOf b n = n%b::if n/b = 0 then [] else digitsOf b (n/b) := by
  rcases Nat.eq_zero_or_pos n with rfl | hn
  · simp [digitsOf]
  · rw [digitsOf,if_neg (Nat.pos_iff_ne_zero.mp hn),Nat.digits_def' hb hn]
    congr 1
    split_ifs with hq
    · rw [hq,Nat.digits_zero]
    · rw [digitsOf,if_neg hq]

theorem digitsOf_ne_nil (b n : ℕ) : digitsOf b n ≠ [] := by
  rw [digitsOf]
  split_ifs with hn
  · exact List.cons_ne_nil _ _
  · exact Nat.digits_ne_nil_iff_ne_zero.mpr hn

theorem lt_of_mem_digitsOf (hb : 1 < b) (hd : d ∈ digitsOf b n) : d < b := by
  rw [digitsOf] at hd
  split_ifs at hd with hn
  · rw [List.mem_singleton.mp hd]
    omega
  · exact Nat.digits_lt_base hb hd

theorem length_digitsOf_le (hb : 1 < b) {k : ℕ} (hk : 0 < k) (hn : n < b^k) : (digitsOf b n).length ≤ k := by
  rw [digitsOf]
  split_ifs
  · exact hk
  · exact (Nat.digits_length_le_iff hb n).mpr hn

theorem length_numeral (b n : ℕ) : (numeral b n).length = (digitsOf b n).length := by
  rw [numeral,List.length_map,List.length_reverse]

/-- Reading the digits from the highest one on gives the number. -/
theorem foldl_digitsOf (b n : ℕ) : (digitsOf b n).reverse.foldl (fun r d => r*b+d) 0 = n := by
  have hvalue : Nat.ofDigits b (digitsOf b n) = n := by
    rw [digitsOf]
    split_ifs with hn
    · simp [hn]
    · exact Nat.ofDigits_digits b n
  rw [List.foldl_reverse]
  rw [Nat.ofDigits_eq_foldr] at hvalue
  simpa only [Nat.cast_id,Nat.add_comm,Nat.mul_comm] using hvalue

section Decimal

/-- The number that decimal digits stand for. -/
def decimalValue (l : List UInt8) : ℕ := l.foldl (fun r c => r*10+(c.toNat-48)) 0

/-- The number that decimal digits with a point stand for. -/
def decimalFraction (l : List UInt8) : ℚ :=
  decimalValue (l.takeWhile (· ≠ 46))+decimalValue (l.dropWhile (· ≠ 46)).tail/10^(l.dropWhile (· ≠ 46)).tail.length

theorem toNat_digitChar : ∀ d < 10, (digitChar d).toNat-48 = d := by decide

theorem decimalValue_numeral (n : ℕ) : decimalValue (numeral 10 n) = n := by
  have hdigits : ∀ ds : List ℕ, (∀ d ∈ ds, d < 10) → ∀ r,
      (ds.map digitChar).foldl (fun r c => r*10+(c.toNat-48)) r = ds.foldl (fun r d => r*10+d) r := by
    intro ds hds
    induction ds with
    | nil => exact fun _ => rfl
    | cons d ds ih =>
      intro r
      rw [List.map_cons,List.foldl_cons,List.foldl_cons,toNat_digitChar d (hds d List.mem_cons_self)]
      exact ih (fun d' hd => hds d' (List.mem_cons_of_mem d hd)) _
  rw [decimalValue,numeral,hdigits _ fun d hd => lt_of_mem_digitsOf (by decide) (List.mem_reverse.mp hd)]
  exact foldl_digitsOf 10 n

theorem le_of_mem_numeral {c : UInt8} (hc : c ∈ numeral 10 n) : 48 ≤ c := by
  have hdigit : ∀ d < 10, 48 ≤ digitChar d := by decide
  obtain ⟨d,hd,rfl⟩ := List.mem_map.mp hc
  exact hdigit d (lt_of_mem_digitsOf (by decide) (List.mem_reverse.mp hd))

/-- A character below the digits is not in a decimal numeral. -/
theorem ne_of_mem_numeral {a c : UInt8} (ha : a < 48) (hc : c ∈ numeral 10 n) : decide (c ≠ a) = true :=
  decide_eq_true fun heq => absurd (le_of_mem_numeral hc) (UInt8.not_le.mpr (heq ▸ ha))

theorem decimalFraction_numeral (n : ℕ) : decimalFraction (numeral 10 n) = n := by
  have hno : ∀ c ∈ numeral 10 n, decide (c ≠ 46) = true := fun c => ne_of_mem_numeral (by decide)
  rw [decimalFraction,List.takeWhile_eq_self_iff.mpr hno,List.dropWhile_eq_nil_iff.mpr hno,decimalValue_numeral]
  simp [decimalValue]

theorem decimalFraction_point (n k : ℕ) :
    decimalFraction (numeral 10 n ++ 46::numeral 10 k) = n+k/10^(numeral 10 k).length := by
  have hno : ∀ c ∈ numeral 10 n, decide (c ≠ 46) = true := fun c => ne_of_mem_numeral (by decide)
  rw [decimalFraction,List.takeWhile_append_of_pos hno,List.dropWhile_append_of_pos hno,
    List.takeWhile_cons_of_neg (by decide),List.dropWhile_cons_of_neg (by decide),List.append_nil,List.tail_cons,
    decimalValue_numeral,decimalValue_numeral]

theorem length_numeral_of_lt_ten (h : n < 10) : (numeral 10 n).length = 1 := by
  rw [length_numeral,digitsOf_eq (by decide),if_pos (Nat.div_eq_of_lt h),List.length_singleton]

theorem length_numeral_of_lt_hundred (h : 10 ≤ n) (h' : n < 100) : (numeral 10 n).length = 2 := by
  have hlow := length_numeral_of_lt_ten (n := n/10) (by omega)
  rw [length_numeral] at hlow ⊢
  rw [digitsOf_eq (by decide),if_neg (by omega),List.length_cons,hlow]

end Decimal

end Linuxab.Base
