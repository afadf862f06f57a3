import Linuxab.Base.Strips
import Mathlib.Algebra.BigOperators.Group.Finset.Basic
import Mathlib.Algebra.BigOperators.Intervals
import Mathlib.Algebra.Ring.Int.Defs

/-! The matrix product of simd_accel.c over a commutative ring. A vector holds eight neighbours of a row, of both
matrices; its lanes are never added up, and the store of one column covers the next seven. -/
namespace Linuxab.Accel
open Linuxab.Base

section Source
variable {R : Type*} [CommRing R]

/-- The value of an `int` expression. -/
def int32 (x : ℤ) : ℤ := x.bmod (2^32)

/-- The values of a counter that starts at zero and goes up by eight below `n`. -/
def steps (n : ℕ) : List ℕ := (List.range ((n+7)/8)).map (8*·)

def fmadd (va vb sum : Fin 8 → R) (l : Fin 8) : R := va l*vb l+sum l

/-- `sum` after the loop over `k`; the pointers count elements. -/
def dotVec (a b : ℤ) (n i j : ℕ) (mem : ℤ → R) : Fin 8 → R :=
  (steps n).foldl (fun sum (k : ℕ) =>
    fmadd (loadStrip 8 mem (a+int32 (i*n+k : ℕ))) (loadStrip 8 mem (b+int32 (k*n+j : ℕ))) sum) fun _ => 0

/-- The loops over `i` and `j`. -/
def matmulAvx2 (a b c : ℤ) (n : ℕ) (mem : ℤ → R) : ℤ → R :=
  storeStrips (fun x : ℕ × ℕ => c+int32 (x.1*n+x.2 : ℕ)) (fun mem x => dotVec a b n x.1 x.2 mem)
    (steps n ×ˢ List.range n) mem

end Source

/-! ## Matrices in memory -/

section Cells
variable {R : Type*} [CommRing R]

/-- The entry of the row-major matrix at `p`. -/
def entry (mem : ℤ → R) (p : ℤ) (n i j : ℕ) : R := mem (p+(i*n+j : ℕ))

/-- No element of the one buffer is one of the other. -/
def BuffersDisjoint (p q : ℤ) (n : ℕ) : Prop := ∀ x < n*n, ∀ y < n*n, p+(x : ℤ) ≠ q+(y : ℤ)

/-- The matrix at `c` in the one memory is the product of those at `a` and `b` in the other one. -/
def IsProduct (a b c : ℤ) (n : ℕ) (mem result : ℤ → R) : Prop :=
  ∀ i < n, ∀ j < n, entry result c n i j = ∑ k ∈ Finset.range n, entry mem a n i k*entry mem b n k j

/-- What is in the cells of `c` in the end. In every eighth row it is a sum over every eighth product; seven cells of
the row behind get the other lanes of the last column; the rest is as it was. -/
def finalCell (mem : ℤ → R) (a b c : ℤ) (n i j : ℕ) : R :=
  if i%8 = 0 then ∑ t ∈ Finset.range (n/8), entry mem a n i (8*t)*entry mem b n (8*t) j
  else if i%8 = 1 ∧ j < 7 then
    ∑ t ∈ Finset.range (n/8), entry mem a n (i-1) (8*t+(j+1))*entry mem b n (8*t+1) j
  else entry mem c n i j

end Cells

section Indices
variable {n i j : ℕ}

theorem mem_steps (hn : 8 ∣ n) : i ∈ steps n ↔ i%8 = 0 ∧ i < n := by
  obtain ⟨m,rfl⟩ := hn
  rw [steps,List.mem_map]
  constructor
  · rintro ⟨t,ht,rfl⟩
    have := List.mem_range.mp ht
    omega
  · rintro ⟨hi,hlt⟩
    refine ⟨i/8,List.mem_range.mpr ?_,?_⟩ <;> omega

theorem pairwise_steps (n : ℕ) : (steps n).Pairwise (· < ·) :=
  List.pairwise_map.mpr (List.pairwise_lt_range.imp fun h => by omega)

theorem int32_natCast {x : ℕ} (h : x < 2^31) : int32 x = x := by
  rw [int32]
  exact Int.bmod_eq_of_le (by omega) (by omega)

/-- A row that a counter of eight reaches is eight rows away from the end. -/
theorem rows_fit (hn : 8 ∣ n) (hi : i%8 = 0) (hlt : i < n) : i*n+8*n ≤ n*n := by
  have hrow : i+8 ≤ n := by omega
  rw [← Nat.add_mul]
  exact Nat.mul_le_mul_right n hrow

/-- The eight elements behind the places that a round of the loop over `k` loads from. -/
theorem elements_fit (hn : 8 ∣ n) (hi : i%8 = 0) (hilt : i < n) (hj : j < n) {t : ℕ} (ht : t ∈ Finset.range (n/8))
    (l : Fin 8) : i*n+(8*t+l) < n*n ∧ 8*t*n+j+l < n*n := by
  have hk : 8*t < n := by
    have := Finset.mem_range.mp ht
    omega
  have hrowi := rows_fit hn hi hilt
  have hrowk := rows_fit hn (Nat.mul_mod_right 8 t) hk
  omega

end Indices

/-! ## The loop over `k` -/

section Sum
variable {R : Type*} [CommRing R] {a b : ℤ} {n i j : ℕ} {mem : ℤ → R}

/-- Every lane adds up its own products. -/
theorem dotVec_lane (a b : ℤ) (n i j : ℕ) (mem : ℤ → R) (l : Fin 8) :
    dotVec a b n i j mem l = ∑ t ∈ Finset.range ((n+7)/8),
      mem (a+int32 (i*n+8*t : ℕ)+l)*mem (b+int32 (8*t*n+j : ℕ)+l) := by
  rw [dotVec,steps,List.foldl_map]
  generalize (n+7)/8 = m
  induction m with
  | zero => rfl
  | succ m ih =>
    rw [List.range_succ,List.foldl_append,List.foldl_cons,List.foldl_nil,fmadd,ih,Finset.sum_range_succ,add_comm]
    rfl

/-- The elements that are read are elements of the two matrices. -/
theorem dotVec_eq_sum (hn : 8 ∣ n) (hfit : n*n ≤ 2^31) (hi : i%8 = 0) (hilt : i < n) (hj : j < n) (l : Fin 8) :
    dotVec a b n i j mem l = ∑ t ∈ Finset.range (n/8), mem (a+(i*n+(8*t+l) : ℕ))*mem (b+(8*t*n+j+l : ℕ)) := by
  have hrounds : (n+7)/8 = n/8 := by omega
  rw [dotVec_lane,hrounds]
  apply Finset.sum_congr rfl
  intro t ht
  have hfits := elements_fit hn hi hilt hj ht l
  rw [int32_natCast (by omega),int32_natCast (by omega)]
  congr 2 <;> omega

end Sum

/-! ## The cells of the result -/

section Result
variable {R : Type*} [CommRing R] {a b c : ℤ} {n : ℕ} {mem : ℤ → R}

/-- The places of the stores, in the order of the loops. -/
theorem pairwise_places (n : ℕ) :
    (steps n ×ˢ List.range n).Pairwise fun x y => x.1 < y.1 ∨ x.1 = y.1 ∧ x.2 < y.2 :=
  pairwise_product (pairwise_steps n) List.pairwise_lt_range

theorem mem_places (hn : 8 ∣ n) {x : ℕ × ℕ} : x ∈ steps n ×ˢ List.range n ↔ (x.1%8 = 0 ∧ x.1 < n) ∧ x.2 < n := by
  rw [List.mem_product,mem_steps hn,List.mem_range]

/-- The index of a store is that of an element, with the seven behind it. -/
theorem place_eq (hn : 8 ∣ n) (hfit : n*n ≤ 2^31) {x : ℕ × ℕ} (hx : x ∈ steps n ×ˢ List.range n) :
    int32 (x.1*n+x.2 : ℕ) = (x.1*n+x.2 : ℕ) ∧ x.1*n+x.2+8 ≤ n*n := by
  obtain ⟨⟨hi,hlt⟩,hj⟩ := (mem_places hn).mp hx
  have hrow := rows_fit hn hi hlt
  exact ⟨int32_natCast (by omega),by omega⟩

/-- The stores leave a buffer alone that is disjoint from `c`. -/
theorem buffer_kept (hn : 8 ∣ n) (hfit : n*n ≤ 2^31) {p : ℤ} (hdisj : BuffersDisjoint p c n) {l : List (ℕ × ℕ)}
    (hl : ∀ x ∈ l, x ∈ steps n ×ˢ List.range n) {y : ℕ} (hy : y < n*n) :
    storeStrips (fun x : ℕ × ℕ => c+int32 (x.1*n+x.2 : ℕ)) (fun mem x => dotVec a b n x.1 x.2 mem) l mem (p+y) =
      mem (p+y) := by
  apply storeStrips_of_outside
  intro x hx
  obtain ⟨hplace,hend⟩ := place_eq hn hfit (hl x hx)
  rw [hplace]
  by_contra hin
  push Not at hin
  -- the element would be one of the eight
  have hindex := hdisj y hy (p+y-c).toNat
  omega

/-- No store covers the other cells. -/
theorem matmulAvx2_kept (hn : 8 ∣ n) (hfit : n*n ≤ 2^31) {i j : ℕ} (hi : i%8 ≠ 0) (hspill : ¬(i%8 = 1 ∧ j < 7))
    (hilt : i < n) (hj : j < n) : entry (matmulAvx2 a b c n mem) c n i j = entry mem c n i j := by
  apply storeStrips_of_outside
  intro x hx
  obtain ⟨⟨hi',hilt'⟩,hj'⟩ := (mem_places hn).mp hx
  rw [(place_eq hn hfit hx).1]
  have hsize : 8 ≤ n := Nat.le_of_dvd (by omega) hn
  rcases Nat.lt_trichotomy x.1 i with hbefore | hsame | hbehind
  · right
    by_cases hnext : x.1+1 = i
    · have hrow : (x.1+1)*n = i*n := by rw [hnext]
      rw [Nat.add_mul] at hrow
      omega
    · have hrow : (x.1+2)*n ≤ i*n := Nat.mul_le_mul_right n (by omega)
      rw [Nat.add_mul] at hrow
      omega
  · exact absurd (hsame ▸ hi') hi
  · left
    have hrow : (i+1)*n ≤ x.1*n := Nat.mul_le_mul_right n hbehind
    rw [Nat.add_mul] at hrow
    omega

section Product
variable (hn : 8 ∣ n) (hfit : n*n ≤ 2^31) (hac : BuffersDisjoint a c n) (hbc : BuffersDisjoint b c n)
include hn hfit hac hbc

/-- What a store writes does not depend on the stores before it. -/
theorem dotVec_kept {l : List (ℕ × ℕ)} (hl : ∀ x ∈ l, x ∈ steps n ×ˢ List.range n) {x : ℕ × ℕ}
    (hx : x ∈ steps n ×ˢ List.range n) :
    dotVec a b n x.1 x.2 (storeStrips (fun x : ℕ × ℕ => c+int32 (x.1*n+x.2 : ℕ))
      (fun mem x => dotVec a b n x.1 x.2 mem) l mem) = dotVec a b n x.1 x.2 mem := by
  obtain ⟨⟨hi,hilt⟩,hj⟩ := (mem_places hn).mp hx
  funext lane
  rw [dotVec_eq_sum hn hfit hi hilt hj,dotVec_eq_sum hn hfit hi hilt hj]
  apply Finset.sum_congr rfl
  intro t ht
  obtain ⟨hfirst,hsecond⟩ := elements_fit hn hi hilt hj ht lane
  rw [buffer_kept hn hfit hac hl hfirst,buffer_kept hn hfit hbc hl hsecond]

/-- A lane of a store is in its cell in the end if the later stores are behind the cell. -/
theorem matmulAvx2_lane {i j : ℕ} (hi : i%8 = 0) (hilt : i < n) (hj : j < n) (lane : Fin 8)
    (hlater : ∀ i' j', i'%8 = 0 → j' < n → (i < i' ∨ i = i' ∧ j < j') → i*n+j+lane < i'*n+j') :
    matmulAvx2 a b c n mem (c+(i*n+j+lane : ℕ)) =
      ∑ t ∈ Finset.range (n/8), mem (a+(i*n+(8*t+lane) : ℕ))*mem (b+(8*t*n+j+lane : ℕ)) := by
  have hmem : (i,j) ∈ steps n ×ˢ List.range n := (mem_places hn).mpr ⟨⟨hi,hilt⟩,hj⟩
  have hplace : int32 (i*n+j : ℕ) = (i*n+j : ℕ) := (place_eq hn hfit hmem).1
  have hlast : matmulAvx2 a b c n mem (c+int32 (i*n+j : ℕ)+lane) = dotVec a b n i j mem lane := by
    refine @storeStrips_last R (ℕ × ℕ) 8 (fun x => c+int32 (x.1*n+x.2 : ℕ)) _ _ mem _ (pairwise_places n)
      (dotVec a b n i j mem) (i,j) hmem lane ?_ ?_
    · intro l₁ l₂ hsplit
      exact dotVec_kept hn hfit hac hbc (fun x hx => hsplit ▸ List.mem_append_left _ hx) hmem
    · intro x hx hrel
      obtain ⟨⟨hi',-⟩,hj'⟩ := (mem_places hn).mp hx
      have hbehind := hlater x.1 x.2 hi' hj' hrel
      left
      change c+int32 (i*n+j : ℕ)+lane < c+int32 (x.1*n+x.2 : ℕ)
      rw [hplace,(place_eq hn hfit hx).1]
      omega
  rw [hplace,dotVec_eq_sum hn hfit hi hilt hj] at hlast
  have hcell : c+((i*n+j : ℕ) : ℤ)+lane = c+(i*n+j+lane : ℕ) := by omega
  rw [← hcell]
  exact hlast

/-- The first lane of the store at the cell itself. -/
theorem matmulAvx2_first {i j : ℕ} (hi : i%8 = 0) (hilt : i < n) (hj : j < n) :
    entry (matmulAvx2 a b c n mem) c n i j =
      ∑ t ∈ Finset.range (n/8), entry mem a n i (8*t)*entry mem b n (8*t) j := by
  refine matmulAvx2_lane hn hfit hac hbc hi hilt hj 0 ?_
  intro i' j' _ _ hrel
  change i*n+j < i'*n+j'
  rcases hrel with hrow | ⟨rfl,hcolumn⟩
  · have hrows : (i+1)*n ≤ i'*n := Nat.mul_le_mul_right n hrow
    rw [Nat.add_mul] at hrows
    omega
  · omega

/-- The other lanes of the last store of the row before. -/
theorem matmulAvx2_spilled {i j : ℕ} (hi : i%8 = 1) (hilt : i < n) (hj : j < 7) :
    entry (matmulAvx2 a b c n mem) c n i j =
      ∑ t ∈ Finset.range (n/8), entry mem a n (i-1) (8*t+(j+1))*entry mem b n (8*t+1) j := by
  obtain ⟨i,rfl⟩ : ∃ k, i = k+1 := ⟨i-1,by omega⟩
  -- the store of the last column reaches over the end of its row
  have hlane : matmulAvx2 a b c n mem (c+(i*n+(n-1)+(j+1) : ℕ)) =
      ∑ t ∈ Finset.range (n/8), mem (a+(i*n+(8*t+(j+1)) : ℕ))*mem (b+(8*t*n+(n-1)+(j+1) : ℕ)) := by
    refine matmulAvx2_lane hn hfit hac hbc (by omega) (by omega) (by omega) ⟨j+1,by omega⟩ ?_
    intro i' j' hi' hj' hrel
    change i*n+(n-1)+(j+1) < i'*n+j'
    rcases hrel with hrow | ⟨rfl,hcolumn⟩
    · have hrows : (i+8)*n ≤ i'*n := Nat.mul_le_mul_right n (by omega)
      rw [Nat.add_mul] at hrows
      omega
    · omega
  have hcell : i*n+(n-1)+(j+1) = (i+1)*n+j := by
    rw [Nat.add_mul]
    omega
  rw [entry,← hcell,hlane]
  apply Finset.sum_congr rfl
  intro t _
  have hfactor : 8*t*n+(n-1)+(j+1) = (8*t+1)*n+j := by
    rw [Nat.add_mul]
    omega
  rw [entry,entry,hfactor]
  rfl

theorem matmulAvx2_cell {i j : ℕ} (hi : i < n) (hj : j < n) :
    entry (matmulAvx2 a b c n mem) c n i j = finalCell mem a b c n i j := by
  rw [finalCell]
  split
  · next hfirst => exact matmulAvx2_first hn hfit hac hbc hfirst hi hj
  · next hfirst =>
    split
    · next hspill => exact matmulAvx2_spilled hn hfit hac hbc hspill.1 hi hspill.2
    · next hspill => exact matmulAvx2_kept hn hfit hfirst hspill hi hj

end Product
end Result

section Main
variable {R : Type*} [CommRing R] {a b c : ℤ} {n : ℕ}

end Main

/-- Two identity matrices of eight rows at 0 and 64, and zeros behind them. -/
def identities (x : ℤ) : ℤ := if 0 ≤ x ∧ x < 128 ∧ x%64%9 = 0 then 1 else 0

end Linuxab.Accel
