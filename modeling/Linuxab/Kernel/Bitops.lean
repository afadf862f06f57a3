import Linuxab.Base.Bitmap
import Linuxab.Base.Sweep

/-! The bit operations of bitops.h on a bitmap in memory. The instructions `bts`, `btr` and `btc` address
bit `nr` of the bit string that starts at the bitmap; `test_bit` takes a word and masks it. -/
namespace Linuxab.Kernel
open Linuxab.Base

def BITS_PER_LONG : ℕ := 64

def bitsToLongs (nr : ℕ) : ℕ := (nr+BITS_PER_LONG-1)/BITS_PER_LONG

section Source
variable (mem : ℕ → BitVec 8) (nr : ℕ)

/-- The carry flag and the bytes behind `addr` after the instruction. -/
def bts : Bool × (ℕ → BitVec 8) := (bitAt mem nr,Function.update mem (nr/8) (mem (nr/8) ||| 1#8 <<< (nr%8)))
def btr : Bool × (ℕ → BitVec 8) := (bitAt mem nr,Function.update mem (nr/8) (mem (nr/8) &&& ~~~(1#8 <<< (nr%8))))
def btc : Bool × (ℕ → BitVec 8) := (bitAt mem nr,Function.update mem (nr/8) (mem (nr/8) ^^^ 1#8 <<< (nr%8)))

def setBit : ℕ → BitVec 8 := (bts mem nr).2
def clearBit : ℕ → BitVec 8 := (btr mem nr).2
def changeBit : ℕ → BitVec 8 := (btc mem nr).2
def testAndSetBit : Bool × (ℕ → BitVec 8) := bts mem nr
def testAndClearBit : Bool × (ℕ → BitVec 8) := btr mem nr

/-- `addr[i]`, eight bytes with the lowest first. -/
def longAt (i : ℕ) : BitVec 64 :=
  mem (8*i+7) ++ mem (8*i+6) ++ mem (8*i+5) ++ mem (8*i+4) ++ mem (8*i+3) ++ mem (8*i+2) ++ mem (8*i+1) ++ mem (8*i)

/-- The index of the word that `test_bit` reads. -/
def testWord : ℕ := nr >>> 5

def testBit : Bool := 1#64 <<< (nr &&& 31) &&& longAt mem (testWord nr) ≠ 0

/-- `len` bytes are cleared one after the other. -/
def bitmapZero (nbits : ℕ) : ℕ → BitVec 8 := sweep id (fun _ _ => 0) (List.range (bitsToLongs nbits*8)) mem

end Source

inductive BitOp
  | setBit (nr : ℕ)
  | clearBit (nr : ℕ)
  | changeBit (nr : ℕ)
  | testAndSetBit (nr : ℕ)
  | testAndClearBit (nr : ℕ)

namespace BitOp

def nr : BitOp → ℕ
  | setBit nr | clearBit nr | changeBit nr | testAndSetBit nr | testAndClearBit nr => nr

def apply (mem : ℕ → BitVec 8) : BitOp → ℕ → BitVec 8
  | setBit nr => Kernel.setBit mem nr
  | clearBit nr => Kernel.clearBit mem nr
  | changeBit nr => Kernel.changeBit mem nr
  | testAndSetBit nr => (Kernel.testAndSetBit mem nr).2
  | testAndClearBit nr => (Kernel.testAndClearBit mem nr).2

/-- What the operation is for: a set of numbers in which one is put, taken out or turned. -/
def act (bits : ℕ → Bool) : BitOp → ℕ → Bool
  | setBit nr | testAndSetBit nr => Function.update bits nr true
  | clearBit nr | testAndClearBit nr => Function.update bits nr false
  | changeBit nr => Function.update bits nr (!bits nr)

end BitOp

/-- The state of every bit after the operations. -/
def bitStates (ops : List BitOp) : ℕ → Bool := ops.foldl BitOp.act fun _ => false

/-- The bytes of a bitmap that was cleared, after the operations. -/
def bitmapAfter (mem : ℕ → BitVec 8) (nbits : ℕ) (ops : List BitOp) : ℕ → BitVec 8 :=
  ops.foldl BitOp.apply (bitmapZero mem nbits)

section Bits
variable {mem : ℕ → BitVec 8} {nr nbits k : ℕ}

/-- The words of the bitmap are made of its bits in their order. -/
lemma getLsbD_longAt (i : ℕ) {b : ℕ} (hb : b < 64) : (longAt mem i).getLsbD b = bitAt mem (64*i+b) := by
  have hbyte : ∀ {j c : ℕ}, b = 8*j+c → c < 8 → (mem (8*i+j)).getLsbD c = bitAt mem (64*i+b) := by
    intro j c hsum hc
    have hdiv : (64*i+b)/8 = 8*i+j := by omega
    have hmod : (64*i+b)%8 = c := by omega
    rw [bitAt,hdiv,hmod]
  simp only [longAt,BitVec.getLsbD_append]
  split_ifs
  · exact hbyte (j := 0) (by omega) (by omega)
  all_goals exact hbyte (by omega) (by omega)

/-- `test_bit` looks at a bit of the string, but beyond the first 32 at another one. -/
lemma testBit_eq (mem : ℕ → BitVec 8) (nr : ℕ) : testBit mem nr = bitAt mem (64*(nr/32)+nr%32) := by
  have hmask : nr &&& 31 = nr%32 := Nat.and_two_pow_sub_one_eq_mod nr 5
  have hword : testWord nr = nr/32 := Nat.shiftRight_eq_div_pow nr 5
  have hlt : nr%32 < 64 := by omega
  rw [testBit,hmask,hword,← getLsbD_longAt _ hlt,Bool.eq_iff_iff,decide_eq_true_iff,BitVec.and_comm,
    and_mask_ne_zero_iff hlt]

lemma bitAt_apply (mem : ℕ → BitVec 8) (op : BitOp) : bitAt (op.apply mem) = op.act (bitAt mem) := by
  have hset : ∀ nr, bitAt (setBit mem nr) = Function.update (bitAt mem) nr true := by
    intro nr
    funext k
    rw [setBit,bts,bitAt_set (by decide),Function.update_apply]
    split_ifs with hk <;> simp [hk]
  have hclear : ∀ nr, bitAt (clearBit mem nr) = Function.update (bitAt mem) nr false := by
    intro nr
    funext k
    rw [clearBit,btr,bitAt_clear (by decide),Function.update_apply]
    split_ifs with hk <;> simp [hk]
  cases op with
  | setBit nr => exact hset nr
  | clearBit nr => exact hclear nr
  | changeBit nr =>
    funext k
    rw [BitOp.apply,BitOp.act,changeBit,btc,bitAt_flip (by decide),Function.update_apply]
    split_ifs with hk <;> simp [hk]
  | testAndSetBit nr => exact hset nr
  | testAndClearBit nr => exact hclear nr

/-- The operations act on the bits as on a set, from any memory. -/
lemma bitAt_foldl_apply (mem : ℕ → BitVec 8) (ops : List BitOp) :
    bitAt (ops.foldl BitOp.apply mem) = ops.foldl BitOp.act (bitAt mem) := by
  induction ops generalizing mem with
  | nil => rfl
  | cons op ops ih => rw [List.foldl_cons,ih,bitAt_apply,List.foldl_cons]

/-- What an operation makes of a number depends on that number only. -/
lemma act_congr {bits bits' : ℕ → Bool} (h : bits k = bits' k) (op : BitOp) : op.act bits k = op.act bits' k := by
  cases op with
  | setBit nr | testAndSetBit nr => simp only [BitOp.act,Function.update_apply,h]
  | clearBit nr | testAndClearBit nr => simp only [BitOp.act,Function.update_apply,h]
  | changeBit nr =>
    simp only [BitOp.act,Function.update_apply]
    split_ifs with hk
    · rw [← hk,h]
    · exact h

/-- Two sets that agree at a number agree there after the operations. -/
lemma foldl_act_congr {bits bits' : ℕ → Bool} (h : bits k = bits' k) (ops : List BitOp) :
    ops.foldl BitOp.act bits k = ops.foldl BitOp.act bits' k := by
  induction ops generalizing bits bits' with
  | nil => exact h
  | cons op ops ih => exact ih (act_congr h op)

lemma bitAt_bitmapZero (mem : ℕ → BitVec 8) (hk : k < 64*bitsToLongs nbits) :
    bitAt (bitmapZero mem nbits) k = false := by
  have hbyte : k/8 < bitsToLongs nbits*8 := by omega
  rw [bitAt,bitmapZero,sweep_fill,if_pos ⟨k/8,List.mem_range.mpr hbyte,rfl⟩]
  exact BitVec.getLsbD_zero

/-- Inside the bitmap the bits are those of the set. -/
lemma bitAt_bitmapAfter (mem : ℕ → BitVec 8) (ops : List BitOp) (hk : k < 64*bitsToLongs nbits) :
    bitAt (bitmapAfter mem nbits ops) k = bitStates ops k := by
  rw [bitmapAfter,bitAt_foldl_apply]
  exact foldl_act_congr (bitAt_bitmapZero mem hk) ops

lemma lt_bitsToLongs (h : nr < nbits) : nr < 64*bitsToLongs nbits := by
  rw [bitsToLongs,BITS_PER_LONG]
  omega

end Bits

/-- `test_bit` gives the state of every bit of a bitmap and stays inside of it exactly if the bitmap has at
most 32 bits: it takes the words for words of 32 bits. -/
theorem testBit_right_iff (bits : ℕ) :
    (∀ (mem : ℕ → BitVec 8) (ops : List BitOp), (∀ op ∈ ops, op.nr < bits) → ∀ nr < bits,
      testBit (bitmapAfter mem bits ops) nr = bitStates ops nr ∧ testWord nr < bitsToLongs bits) ↔ bits ≤ 32 := by
  constructor
  · intro h
    by_contra hbits
    -- bit 32 is set, and the lowest bit of the second word is looked at
    have hlt : 32 < bits := Nat.lt_of_not_le hbits
    obtain ⟨hvalue,hword⟩ := h (fun _ => 0) [.setBit 32] (by simpa [BitOp.nr] using hlt) 32 hlt
    have hinside : 64*(32/32)+32%32 < 64*bitsToLongs bits := Nat.mul_lt_mul_of_pos_left hword (by decide)
    rw [testBit_eq,bitAt_bitmapAfter _ _ hinside] at hvalue
    exact absurd hvalue (by decide)
  · intro hbits mem ops _ nr hnr
    have hlow : nr < 32 := by omega
    have hat : 64*(nr/32)+nr%32 = nr := by omega
    constructor
    · rw [testBit_eq,hat,bitAt_bitmapAfter _ _ (lt_bitsToLongs hnr)]
    · have hzero : testWord nr = 0 := by
        rw [testWord,Nat.shiftRight_eq_div_pow]
        omega
      rw [hzero,bitsToLongs,BITS_PER_LONG]
      omega

/-- In a bitmap of 64 bits, of one word, bit 40 is set and not seen: `test_bit` reads the word behind. -/
theorem testBit_misses : bitStates [.setBit 40] 40 = true ∧ bitsToLongs 64 = 1 ∧
    testBit (bitmapAfter (fun _ => 0) 64 [.setBit 40]) 40 = false ∧ testWord 40 = 1 := by
  decide

end Linuxab.Kernel
