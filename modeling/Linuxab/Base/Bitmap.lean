import Mathlib.Data.Nat.Notation
import Mathlib.Logic.Function.Basic

/-! Sets of numbers kept as the bits of an array of machine words: the bit of a number, what storing one
word does to all bits, and the search of a word for its lowest zero. -/
namespace Linuxab.Base
variable {w : ℕ} {words : ℕ → BitVec w} {v : BitVec w} {b i j k : ℕ}

/-- The bit of `k`, which lies in word `k/w`. -/
def bitAt (words : ℕ → BitVec w) (k : ℕ) : Bool := (words (k/w)).getLsbD (k%w)

theorem mod_two_lt_two (i : ℕ) : i%2 < 2 := Nat.mod_lt i (by decide)

/-- The word with number `i` of a set of two words. -/
def wordOf2 (i : ℕ) : Fin 2 := ⟨i%2,mod_two_lt_two i⟩

/-- How many ones a word has below its lowest zero. -/
def trailingOnes (v : BitVec w) : ℕ := (~~~v).ctz.toNat

theorem getLsbD_trailingOnes (h : v ≠ BitVec.allOnes w) :
    trailingOnes v < w ∧ v.getLsbD (trailingOnes v) = false := by
  have hne : ~~~v ≠ 0#w := by
    intro h0
    apply h
    rw [← BitVec.not_zero,← h0,BitVec.not_not]
  simpa [trailingOnes,BitVec.getLsbD_not] using BitVec.getLsbD_true_ctz_of_ne_zero hne

theorem getLsbD_of_lt_trailingOnes (hb : b < trailingOnes v) (hw : b < w) : v.getLsbD b = true := by
  simpa [BitVec.getLsbD_not,hw] using BitVec.getLsbD_false_of_lt_ctz hb

theorem bitAt_mul_add (hb : b < w) : bitAt words (i*w+b) = (words i).getLsbD b := by
  have hw : 0 < w := by omega
  rw [bitAt,Nat.mul_comm,Nat.mul_add_div hw,Nat.div_eq_of_lt hb,Nat.mul_add_mod,Nat.mod_eq_of_lt hb,Nat.add_zero]

theorem decide_eq_of_word (h : j/w = k/w) : decide (j = k) = decide (j%w = k%w) := by
  apply decide_eq_decide.mpr
  constructor
  · rintro rfl
    rfl
  · intro hm
    rw [← Nat.div_add_mod j w,h,hm,Nat.div_add_mod]

theorem getLsbD_one_shiftLeft (hb : b < w) : (1#w <<< i).getLsbD b = decide (b = i) := by
  rw [BitVec.getLsbD_shiftLeft,BitVec.getLsbD_one,Bool.eq_iff_iff]
  simp only [Bool.and_eq_true,Bool.not_eq_true',decide_eq_true_eq,decide_eq_false_iff_not]
  omega

/-- A word with the bit of `k` added, masked out or turned. -/
theorem getLsbD_or_mask (hb : b < w) (k : ℕ) : (v ||| 1#w <<< k).getLsbD b = (v.getLsbD b || decide (b = k)) := by
  rw [BitVec.getLsbD_or,getLsbD_one_shiftLeft hb]

theorem getLsbD_and_not_mask (hb : b < w) (k : ℕ) :
    (v &&& ~~~(1#w <<< k)).getLsbD b = (v.getLsbD b && !decide (b = k)) := by
  rw [BitVec.getLsbD_and,BitVec.getLsbD_not,getLsbD_one_shiftLeft hb]
  simp [hb]

theorem getLsbD_xor_mask (hb : b < w) (k : ℕ) : (v ^^^ 1#w <<< k).getLsbD b = (v.getLsbD b ^^ decide (b = k)) := by
  rw [BitVec.getLsbD_xor,getLsbD_one_shiftLeft hb]

/-- The test of a bit by a mask. -/
theorem and_mask_ne_zero_iff (hb : b < w) : v &&& 1#w <<< b ≠ 0 ↔ v.getLsbD b = true := by
  constructor
  · intro h
    by_contra hv
    apply h
    apply BitVec.eq_of_getLsbD_eq
    intro i hi
    by_cases hib : i = b
    · simp [hib,hv]
    · simp [BitVec.getLsbD_and,getLsbD_one_shiftLeft hi,hib]
  · intro hv h
    have hzero : (v &&& 1#w <<< b).getLsbD b = false := by rw [h]; simp
    simp [BitVec.getLsbD_and,hv,getLsbD_one_shiftLeft hb] at hzero

/-- Storing a word that differs in the bit of `k` changes that bit and no other. -/
theorem bitAt_update (hw : 0 < w) (k j : ℕ) {f : Bool → Bool → Bool} (hkeep : ∀ b, f b false = b)
    (hv : ∀ b < w, v.getLsbD b = f ((words (k/w)).getLsbD b) (decide (b = k%w))) :
    bitAt (Function.update words (k/w) v) j = f (bitAt words j) (decide (j = k)) := by
  by_cases hj : j/w = k/w
  · rw [decide_eq_of_word hj,bitAt,bitAt,hj,Function.update_self,hv _ (Nat.mod_lt j hw)]
  · have hne : j ≠ k := fun h => hj (by rw [h])
    rw [decide_eq_false hne,hkeep,bitAt,Function.update_of_ne hj,bitAt]

/-- Storing a word with the bit of `k` added sets that bit and no other. -/
theorem bitAt_set (hw : 0 < w) (k j : ℕ) :
    bitAt (Function.update words (k/w) (words (k/w) ||| 1#w <<< (k%w))) j = (bitAt words j || decide (j = k)) :=
  bitAt_update hw k j Bool.or_false fun _ hb => getLsbD_or_mask hb _

/-- Storing a word with the bit of `k` masked out clears that bit and no other. -/
theorem bitAt_clear (hw : 0 < w) (k j : ℕ) :
    bitAt (Function.update words (k/w) (words (k/w) &&& ~~~(1#w <<< (k%w)))) j =
      (bitAt words j && !decide (j = k)) :=
  bitAt_update (f := fun b c => b && !c) hw k j Bool.and_true fun _ hb => getLsbD_and_not_mask hb _

/-- Storing a word with the bit of `k` turned changes that bit and no other. -/
theorem bitAt_flip (hw : 0 < w) (k j : ℕ) :
    bitAt (Function.update words (k/w) (words (k/w) ^^^ 1#w <<< (k%w))) j = (bitAt words j ^^ decide (j = k)) :=
  bitAt_update hw k j Bool.xor_false fun _ hb => getLsbD_xor_mask hb _

section Promotion
variable {W : ℕ}

/-- The masks in a wider word, of which the low part is stored back. -/
theorem setWidth_or_mask (h : w ≤ W) (v : BitVec w) (k : ℕ) :
    (v.setWidth W ||| 1#W <<< k).setWidth w = v ||| 1#w <<< k := by
  apply BitVec.eq_of_getLsbD_eq
  intro i hi
  have hi' : i < W := Nat.lt_of_lt_of_le hi h
  rw [getLsbD_or_mask hi,BitVec.getLsbD_setWidth,getLsbD_or_mask hi',BitVec.getLsbD_setWidth]
  simp [hi,hi']

theorem setWidth_and_not_mask (h : w ≤ W) (v : BitVec w) (k : ℕ) :
    (v.setWidth W &&& ~~~(1#W <<< k)).setWidth w = v &&& ~~~(1#w <<< k) := by
  apply BitVec.eq_of_getLsbD_eq
  intro i hi
  have hi' : i < W := Nat.lt_of_lt_of_le hi h
  rw [getLsbD_and_not_mask hi,BitVec.getLsbD_setWidth,getLsbD_and_not_mask hi',BitVec.getLsbD_setWidth]
  simp [hi,hi']

theorem setWidth_and_mask_ne_zero_iff (h : w ≤ W) (hb : b < w) :
    v.setWidth W &&& 1#W <<< b ≠ 0 ↔ v.getLsbD b = true := by
  have hb' : b < W := Nat.lt_of_lt_of_le hb h
  rw [and_mask_ne_zero_iff hb',BitVec.getLsbD_setWidth]
  simp [hb']

end Promotion

/-- Every number below `n` has its bit set. -/
def FullBelow (words : ℕ → BitVec w) (n : ℕ) : Prop := ∀ k < n, bitAt words k = true

/-- A scan goes on in the next word, as far as its bits are set. -/
theorem FullBelow.extend {n m : ℕ} (h : FullBelow words (min (i*w) n)) (hn : m ≤ n) (hm : m ≤ i*w+w)
    (hword : ∀ b < w, i*w+b < m → (words i).getLsbD b = true) : FullBelow words m := by
  intro k hk
  by_cases hki : k < i*w
  · exact h k (by omega)
  · obtain ⟨b,rfl⟩ := Nat.exists_eq_add_of_le (Nat.le_of_not_lt hki)
    have hb : b < w := by omega
    rw [bitAt_mul_add hb]
    exact hword b hb hk

/-- A scan goes on behind a word that has no zero, or only at `n` or behind it. -/
theorem FullBelow.word {n : ℕ} (h : FullBelow words (min (i*w) n))
    (hv : words i = BitVec.allOnes w ∨ n ≤ i*w+trailingOnes (words i)) : FullBelow words (min ((i+1)*w) n) := by
  rw [Nat.succ_mul]
  refine h.extend (Nat.min_le_right _ _) (Nat.min_le_left _ _) fun b hb hk => ?_
  cases hv with
  | inl hall => simp [hall,hb]
  | inr hn => exact getLsbD_of_lt_trailingOnes (by omega) hb

/-- Otherwise the lowest zero of the word is the lowest zero of all. -/
theorem FullBelow.found {n : ℕ} (h : FullBelow words (min (i*w) n)) (hv : words i ≠ BitVec.allOnes w)
    (hn : i*w+trailingOnes (words i) < n) :
    FullBelow words (i*w+trailingOnes (words i)) ∧ bitAt words (i*w+trailingOnes (words i)) = false := by
  obtain ⟨hlt,hzero⟩ := getLsbD_trailingOnes hv
  constructor
  · refine h.extend (Nat.le_of_lt hn) (by omega) fun b hb hk => ?_
    exact getLsbD_of_lt_trailingOnes (by omega) hb
  · rw [bitAt_mul_add hlt,hzero]

end Linuxab.Base
