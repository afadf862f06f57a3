import Mathlib.Data.Nat.Size
import Mathlib.Tactic.Ring
import Linuxab.Base.Integers
import Linuxab.Base.While

/-! The 64-by-32 division of types.c. After the high word is reduced, the divisor is doubled together
with a power of two until it is not below the remainder, or its top bit is set; then both are halved
again and the divisor is subtracted where it fits. -/
namespace Linuxab.Kernel
open Linuxab.Base

/-- The variables `rem`, `b`, `d` and `res`. -/
structure LongDivision where
  rem : UInt64
  b : UInt64
  d : UInt64
  res : UInt64

namespace LongDivision

/-- `(int64_t)b > 0 && b < rem` -/
def below (s : LongDivision) : Bool := decide (0 < s.b.toInt64) && decide (s.b < s.rem)

def double (s : LongDivision) : LongDivision := { s with b := s.b+s.b, d := s.d+s.d }

def subtract (s : LongDivision) : LongDivision :=
  if s.b ≤ s.rem then { s with rem := s.rem-s.b, res := s.res+s.d } else s

def halve (s : LongDivision) : LongDivision := { s with b := s.b >>> 1, d := s.d >>> 1 }

end LongDivision

/-- The part before the loops: the high word is divided first if it is not below the base. -/
def reduceHigh (n : UInt64) (base : UInt32) : LongDivision :=
  let high := (n >>> 32).toUInt32
  if base ≤ high then
    let high := high / base
    ⟨n-((high*base).toUInt64 <<< 32),base.toUInt64,1,high.toUInt64 <<< 32⟩
  else ⟨n,base.toUInt64,1,0⟩

/-- `__div64_32`: what is left in `*n`, and the return value. -/
def div64_32 (rounds : ℕ) (n : UInt64) (base : UInt32) : Option (UInt64 × UInt32) := do
  let s ← whileLoop LongDivision.below LongDivision.double rounds (reduceHigh n base)
  let s ← whileLoop (fun s => s.d ≠ 0) (fun s => s.subtract.halve) rounds s.subtract.halve
  return (s.res,s.rem.toUInt32)

namespace LongDivision
variable {s : LongDivision} {n base k : ℕ}

lemma toInt64_pos_iff (b : UInt64) : 0 < b.toInt64 ↔ 0 < b.toNat ∧ b.toNat < 2^63 := by
  have hlt := b.toNat_lt
  rw [Int64.lt_iff_toInt_lt,toInt_toInt64,Int64.toInt_zero]
  split <;> omega

/-- The divisor and the quotient bit are shifted by the same number of places. -/
structure Shifted (s : LongDivision) (base k : ℕ) : Prop where
  b : s.b.toNat = base*2^k
  d : s.d.toNat = 2^k

/-- What was divided so far and what is left make up the number. -/
def Splits (s : LongDivision) (n base : ℕ) : Prop := s.res.toNat*base+s.rem.toNat = n

lemma Shifted.lt (h : s.Shifted base k) (hbase : 0 < base) : k < 64 := by
  have hb := s.b.toNat_lt
  rw [h.b] at hb
  have hle : 2^k ≤ base*2^k := Nat.le_mul_of_pos_left _ hbase
  exact (Nat.pow_lt_pow_iff_right (by decide)).mp (hle.trans_lt hb)

lemma Shifted.double (h : s.Shifted base k) (hbase : 0 < base) (hbelow : s.below = true) :
    s.double.Shifted base (k+1) := by
  simp only [below,Bool.and_eq_true,decide_eq_true_eq,toInt64_pos_iff] at hbelow
  have hb : s.b.toNat+s.b.toNat < 2^64 := by omega
  have hd : s.d.toNat+s.d.toNat < 2^64 := by
    have hle : s.d.toNat ≤ s.b.toNat := by
      rw [h.b,h.d]
      exact Nat.le_mul_of_pos_left _ hbase
    omega
  constructor
  · rw [LongDivision.double,UInt64.toNat_add,Nat.mod_eq_of_lt hb,h.b,pow_succ]
    ring
  · rw [LongDivision.double,UInt64.toNat_add,Nat.mod_eq_of_lt hd,h.d,pow_succ]
    ring

/-- The remainder is less than two divisors when the doubling stops. -/
lemma Shifted.rem_lt (h : s.Shifted base k) (hbase : 0 < base) (hstop : s.below = false) :
    s.rem.toNat < 2*s.b.toNat := by
  have hpos : 0 < s.b.toNat := by
    rw [h.b]
    exact Nat.mul_pos hbase (Nat.pow_pos (by decide))
  have hlt := s.rem.toNat_lt
  simp only [below,Bool.and_eq_false_iff,decide_eq_false_iff_not,toInt64_pos_iff,UInt64.lt_iff_toNat_lt] at hstop
  omega

lemma Splits.subtract (h : s.Splits n base) (hn : n < 2^64) (hs : s.Shifted base k) (hbase : 0 < base) :
    s.subtract.Splits n base := by
  unfold LongDivision.subtract
  split
  · next hle =>
    have hle' : s.b.toNat ≤ s.rem.toNat := UInt64.le_iff_toNat_le.mp hle
    have hdb : s.d.toNat*base = s.b.toNat := by
      rw [hs.b,hs.d,Nat.mul_comm]
    -- the new quotient times the base is at most the number, so it does not overflow
    have heq : (s.res.toNat+s.d.toNat)*base+(s.rem.toNat-s.b.toNat) = n := by
      rw [Nat.add_mul,hdb,← h]
      omega
    have hres : s.res.toNat+s.d.toNat < 2^64 := by
      have : s.res.toNat+s.d.toNat ≤ (s.res.toNat+s.d.toNat)*base := Nat.le_mul_of_pos_right _ hbase
      omega
    rw [Splits,UInt64.toNat_add,Nat.mod_eq_of_lt hres,UInt64.toNat_sub_of_le _ _ hle]
    exact heq
  · exact h

lemma subtract_rem_lt (h : s.rem.toNat < 2*s.b.toNat) : s.subtract.rem.toNat < s.b.toNat := by
  unfold subtract
  split
  · next hle =>
    rw [UInt64.toNat_sub_of_le _ _ hle]
    have := UInt64.le_iff_toNat_le.mp hle
    omega
  · next hle =>
    rw [UInt64.le_iff_toNat_le] at hle
    omega

lemma subtract_b (s : LongDivision) : s.subtract.b = s.b := by
  unfold subtract
  split <;> rfl

lemma subtract_d (s : LongDivision) : s.subtract.d = s.d := by
  unfold subtract
  split <;> rfl

/-- The invariant of the second loop: behind the last round the remainder is below the base, before it
there are places left. -/
structure Halving (n base : ℕ) (s : LongDivision) : Prop where
  splits : s.Splits n base
  rest : s.d = 0 ∧ s.rem.toNat < base ∨ ∃ k, s.Shifted base k ∧ s.rem.toNat < 2*s.b.toNat

lemma toNat_halve (x : UInt64) : (x >>> 1).toNat = x.toNat/2 := by
  rw [UInt64.toNat_shiftRight]
  exact Nat.shiftRight_eq_div_pow x.toNat 1

/-- One round of the second loop. -/
lemma Halving.round (hsplit : s.Splits n base) (hn : n < 2^64) (hbase : 0 < base) (hs : s.Shifted base k)
    (hrem : s.rem.toNat < 2*s.b.toNat) :
    Halving n base s.subtract.halve ∧ s.subtract.halve.d.toNat.size < s.d.toNat.size := by
  have hlt := subtract_rem_lt hrem
  have hb : s.subtract.halve.b.toNat = s.b.toNat/2 := by
    rw [halve,toNat_halve,subtract_b]
  have hd : s.subtract.halve.d.toNat = s.d.toNat/2 := by
    rw [halve,toNat_halve,subtract_d]
  rw [hd,hs.d]
  cases k with
  | zero =>
    refine ⟨⟨hsplit.subtract hn hs hbase,.inl ⟨?_,?_⟩⟩,by decide⟩
    · rw [← UInt64.toNat_inj,hd,hs.d]
      rfl
    · rw [hs.b,pow_zero,Nat.mul_one] at hlt
      exact hlt
  | succ k =>
    have hhalf : ∀ a : ℕ, a*2^(k+1)/2 = a*2^k := by
      intro a
      rw [pow_succ,← Nat.mul_assoc,Nat.mul_div_cancel _ (by decide)]
    have hone : 2^(k+1)/2 = 2^k := by simpa using hhalf 1
    have hs' : s.subtract.halve.Shifted base k := by
      constructor
      · rw [hb,hs.b,hhalf]
      · rw [hd,hs.d,hone]
    refine ⟨⟨hsplit.subtract hn hs hbase,.inr ⟨k,hs',?_⟩⟩,?_⟩
    · rw [hb,hs.b,hhalf]
      rw [hs.b,pow_succ] at hlt
      change s.subtract.rem.toNat < _
      calc s.subtract.rem.toNat < base*(2^k*2) := hlt
        _ = 2*(base*2^k) := by ring
    · rw [hone,Nat.size_pow,Nat.size_pow]
      exact Nat.lt_succ_self _

end LongDivision

section Result
variable (n : UInt64) (base : UInt32)

/-- The first reduction splits the number; the product of the words does not overflow. -/
lemma reduceHigh_splits : (reduceHigh n base).Splits n.toNat base.toNat := by
  have hhigh : (n >>> 32).toUInt32.toNat = n.toNat/2^32 := by
    have hlt := n.toNat_lt
    rw [UInt64.toNat_toUInt32,UInt64.toNat_shiftRight]
    change n.toNat >>> 32 % 2^32 = _
    rw [Nat.shiftRight_eq_div_pow,Nat.mod_eq_of_lt (Nat.div_lt_of_lt_mul (by omega))]
  have hshift : ∀ x : UInt32, (x.toUInt64 <<< 32).toNat = x.toNat*2^32 := by
    intro x
    have hx := x.toNat_lt
    rw [UInt64.toNat_shiftLeft,UInt32.toNat_toUInt64]
    change x.toNat <<< 32 % 2^64 = _
    rw [Nat.shiftLeft_eq,Nat.mod_eq_of_lt (by omega)]
  unfold reduceHigh
  dsimp only
  split
  · next hle =>
    set high := (n >>> 32).toUInt32 with hh
    have hprod : high.toNat/base.toNat*base.toNat ≤ high.toNat := Nat.div_mul_le_self _ _
    have hmul : (high / base*base).toNat = high.toNat/base.toNat*base.toNat := by
      have := high.toNat_lt
      rw [UInt32.toNat_mul,UInt32.toNat_div,Nat.mod_eq_of_lt (by omega)]
    have hle' : high.toNat/base.toNat*base.toNat*2^32 ≤ n.toNat := by
      rw [hhigh] at hprod ⊢
      exact (Nat.mul_le_mul_right _ hprod).trans (Nat.div_mul_le_self _ _)
    have hsub : (n-(high / base*base).toUInt64 <<< 32).toNat
        = n.toNat-high.toNat/base.toNat*base.toNat*2^32 := by
      rw [UInt64.toNat_sub_of_le,hshift,hmul]
      rw [UInt64.le_iff_toNat_le,hshift,hmul]
      exact hle'
    rw [LongDivision.Splits,hsub,hshift,UInt32.toNat_div]
    have hcomm : high.toNat/base.toNat*2^32*base.toNat = high.toNat/base.toNat*base.toNat*2^32 := by ring
    omega
  · rw [LongDivision.Splits]
    change 0*base.toNat+n.toNat = n.toNat
    omega

lemma reduceHigh_shifted : (reduceHigh n base).Shifted base.toNat 0 := by
  have hb : (reduceHigh n base).b = base.toUInt64 := by
    unfold reduceHigh
    dsimp only
    split <;> rfl
  have hd : (reduceHigh n base).d = 1 := by
    unfold reduceHigh
    dsimp only
    split <;> rfl
  constructor
  · rw [hb,UInt32.toNat_toUInt64,pow_zero,Nat.mul_one]
  · rw [hd]
    rfl

open LongDivision

/-- Doubling keeps the remainder and the quotient, and stops within 64 rounds. -/
lemma exists_doubled (hbase : 0 < base) : ∃ s, (∀ rounds, 64 ≤ rounds →
      whileLoop below double rounds (reduceHigh n base) = some s) ∧
    s.Splits n.toNat base.toNat ∧ ∃ k, s.Shifted base.toNat k ∧ s.rem.toNat < 2*s.b.toNat := by
  have hpos : 0 < base.toNat := UInt32.lt_iff_toNat_lt.mp hbase
  have hround : ∀ s : LongDivision, (s.Splits n.toNat base.toNat ∧ ∃ k, s.Shifted base.toNat k) → s.below = true →
      (s.double.Splits n.toNat base.toNat ∧ ∃ k, s.double.Shifted base.toNat k) ∧
        65-s.double.d.toNat.size < 65-s.d.toNat.size := by
    intro s hs hbelow
    obtain ⟨hsplit,k,hs⟩ := hs
    have hs' := hs.double hpos hbelow
    have hk := hs'.lt hpos
    refine ⟨⟨hsplit,k+1,hs'⟩,?_⟩
    rw [hs.d,hs'.d,Nat.size_pow,Nat.size_pow]
    omega
  obtain ⟨s,hrun,⟨hsplit,k,hs⟩,hstop⟩ := exists_whileLoop _ (fun s : LongDivision => 65-s.d.toNat.size) hround
    ⟨reduceHigh_splits n base,0,reduceHigh_shifted n base⟩
  refine ⟨s,fun rounds hr => hrun rounds ?_,hsplit,k,hs,hs.rem_lt hpos hstop⟩
  rw [(reduceHigh_shifted n base).d,Nat.size_pow]
  omega

/-- The division comes to an end and computes quotient and remainder. -/
theorem div64_32_correct (hbase : 0 < base) : ∃ q r, (∀ rounds, 64 ≤ rounds → div64_32 rounds n base = some (q,r)) ∧
    n.toNat = q.toNat*base.toNat+r.toNat ∧ r.toNat < base.toNat := by
  have hpos : 0 < base.toNat := UInt32.lt_iff_toNat_lt.mp hbase
  have hn := n.toNat_lt
  obtain ⟨s,hrun,hsplit,k,hs,hrem⟩ := exists_doubled n base hbase
  have hfirst := (Halving.round hsplit hn hpos hs hrem).1
  have hround : ∀ s : LongDivision, Halving n.toNat base.toNat s → decide (s.d ≠ 0) = true →
      Halving n.toNat base.toNat s.subtract.halve ∧ s.subtract.halve.d.toNat.size < s.d.toNat.size := by
    intro s hs hd
    obtain ⟨hzero,-⟩ | ⟨k,hk,hrem⟩ := hs.rest
    · simp [hzero] at hd
    · exact Halving.round hs.splits hn hpos hk hrem
  obtain ⟨t,hrun',ht,hstop⟩ := exists_whileLoop _ (fun s : LongDivision => s.d.toNat.size) hround hfirst
  have hend : t.rem.toNat < base.toNat := by
    obtain ⟨-,hlt⟩ | ⟨k,hk,-⟩ := ht.rest
    · exact hlt
    · have hd := hk.d
      simp only [ne_eq,decide_not,Bool.not_eq_false',decide_eq_true_eq] at hstop
      rw [hstop] at hd
      exact absurd hd (Nat.pow_pos (by decide)).ne
  have hlow : t.rem.toUInt32.toNat = t.rem.toNat := by
    have := base.toNat_lt
    rw [UInt64.toNat_toUInt32,Nat.mod_eq_of_lt (by omega)]
  refine ⟨t.res,t.rem.toUInt32,fun rounds hr => ?_,?_,?_⟩
  · have hsize : s.subtract.halve.d.toNat.size ≤ rounds := by
      have := Nat.size_le.mpr s.subtract.halve.d.toNat_lt
      omega
    simp only [div64_32,hrun rounds hr,hrun' rounds hsize,Option.bind_eq_bind,Option.bind_some]
    rfl
  · rw [hlow]
    exact ht.splits.symm
  · rwa [hlow]

theorem div64_32_correct_large : ∃ q r,
    (∀ rounds, 64 ≤ rounds → div64_32 rounds 0xFFFFFFFFFFFFFFFF 0xFFFFFFFF = some (q,r)) ∧
      (0xFFFFFFFFFFFFFFFF : UInt64).toNat = q.toNat*(0xFFFFFFFF : UInt32).toNat+r.toNat ∧
      r.toNat < (0xFFFFFFFF : UInt32).toNat :=
  div64_32_correct 0xFFFFFFFFFFFFFFFF 0xFFFFFFFF (by decide)

end Result
end Linuxab.Kernel
