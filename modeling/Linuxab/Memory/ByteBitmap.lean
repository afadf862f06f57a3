import Linuxab.Base.Bitmap
import Mathlib.Data.Finset.Erase
import Mathlib.Data.Finset.Insert

/-! The bit utilities and the bitmap allocator of rust/xarray.rs. The array of bytes is longer than the
allocator needs, so its search can find a zero behind the last index it may give out. -/
namespace Linuxab.Memory
open Linuxab.Base

/-- A byte slice; what is behind its length does not belong to it. -/
structure ByteSlice where
  len : ℕ
  byte : ℕ → BitVec 8

namespace ByteSlice

def setBit (bitmap : ByteSlice) (bit : ℕ) : ByteSlice :=
  if bit/8 < bitmap.len then
    { bitmap with byte := Function.update bitmap.byte (bit/8) (bitmap.byte (bit/8) ||| 1#8 <<< (bit%8)) }
  else bitmap

def clearBit (bitmap : ByteSlice) (bit : ℕ) : ByteSlice :=
  if bit/8 < bitmap.len then
    { bitmap with byte := Function.update bitmap.byte (bit/8) (bitmap.byte (bit/8) &&& ~~~(1#8 <<< (bit%8))) }
  else bitmap

def testBit (bitmap : ByteSlice) (bit : ℕ) : Bool :=
  decide (bit/8 < bitmap.len) && bitmap.byte (bit/8) &&& 1#8 <<< (bit%8) != 0

/-- A round of the outer loop: a byte without a zero is passed over, in the others the bits are tried in turn. -/
def zeroInByte (i : ℕ) (byte : BitVec 8) : Option ℕ :=
  if byte ≠ 0xFF#8 then ((List.range 8).find? fun j => byte &&& 1#8 <<< j == 0).map fun j => i*8+j else none

def findFirstZero (bitmap : ByteSlice) : Option ℕ :=
  (List.range bitmap.len).findSome? fun i => zeroInByte i (bitmap.byte i)

end ByteSlice

structure Bitmap where
  data : ByteSlice
  size : ℕ

namespace Bitmap

def alloc (b : Bitmap) : Option ℕ × Bitmap :=
  match b.data.findFirstZero.filter (· < b.size) with
  | some i => (some i,{ b with data := b.data.setBit i })
  | none => (none,b)

def free (b : Bitmap) (index : ℕ) : Bitmap :=
  if index < b.size then { b with data := b.data.clearBit index } else b

def isAllocated (b : Bitmap) (index : ℕ) : Bool := decide (index < b.size) && b.data.testBit index

end Bitmap

/-! ## The search -/

namespace ByteSlice
variable {bitmap : ByteSlice} {k : ℕ}

theorem testBit_eq (hk : k < bitmap.len*8) : bitmap.testBit k = bitAt bitmap.byte k := by
  have hmask := and_mask_ne_zero_iff (v := bitmap.byte (k/8)) (Nat.mod_lt k (by decide : 0 < 8))
  rw [testBit,decide_eq_true (by omega : k/8 < bitmap.len),Bool.true_and,Bool.eq_iff_iff,bne_iff_ne]
  exact hmask

theorem bitAt_setBit (hk : k < bitmap.len*8) (j : ℕ) :
    bitAt (bitmap.setBit k).byte j = (bitAt bitmap.byte j || decide (j = k)) := by
  rw [setBit,if_pos (by omega)]
  exact bitAt_set (by decide) k j

theorem bitAt_clearBit (hk : k < bitmap.len*8) (j : ℕ) :
    bitAt (bitmap.clearBit k).byte j = (bitAt bitmap.byte j && !decide (j = k)) := by
  rw [clearBit,if_pos (by omega)]
  exact bitAt_clear (by decide) k j

@[simp] theorem setBit_len : (bitmap.setBit k).len = bitmap.len := by
  rw [setBit]
  split <;> rfl

@[simp] theorem clearBit_len : (bitmap.clearBit k).len = bitmap.len := by
  rw [clearBit]
  split <;> rfl

/-- In a byte with a zero, the inner loop finds the lowest one. -/
theorem zeroInByte_of_ne {v : BitVec 8} (hv : v ≠ 0xFF#8) (i : ℕ) : zeroInByte i v = some (i*8+trailingOnes v) := by
  obtain ⟨hlt,hzero⟩ := getLsbD_trailingOnes hv
  have hfind : ((List.range 8).find? fun j => v &&& 1#8 <<< j == 0) = some (trailingOnes v) := by
    rw [List.find?_range_eq_some]
    refine ⟨?_,List.mem_range.mpr hlt,fun j hj => ?_⟩
    · rw [beq_iff_eq]
      by_contra hne
      rw [(and_mask_ne_zero_iff hlt).mp hne] at hzero
      cases hzero
    · rw [Bool.not_eq_true',beq_eq_false_iff_ne]
      exact (and_mask_ne_zero_iff (by omega)).mpr (getLsbD_of_lt_trailingOnes hj (by omega))
  rw [zeroInByte,if_pos hv,hfind]
  rfl

/-- The search over the first `n` bytes finds the lowest zero of all, if there is one. -/
theorem findSome?_zeroInByte (byte : ℕ → BitVec 8) (n : ℕ) :
    (∃ k < n*8, FullBelow byte k ∧ bitAt byte k = false ∧
      (List.range n).findSome? (fun i => zeroInByte i (byte i)) = some k) ∨
    (FullBelow byte (n*8) ∧ (List.range n).findSome? (fun i => zeroInByte i (byte i)) = none) := by
  induction n with
  | zero => exact .inr ⟨fun k hk => by omega,rfl⟩
  | succ n ih =>
    rw [List.range_succ,List.findSome?_append]
    obtain ⟨k,hk,hfull,hzero,heq⟩ | ⟨hfull,heq⟩ := ih
    · exact .inl ⟨k,by omega,hfull,hzero,by rw [heq]; rfl⟩
    · have hfull' : FullBelow byte (min (n*8) ((n+1)*8)) := by rwa [Nat.min_eq_left (by omega)]
      rw [heq,Option.none_or,List.findSome?_singleton]
      by_cases hv : byte n = 0xFF#8
      · refine .inr ⟨?_,by rw [zeroInByte,if_neg (not_not.mpr hv)]⟩
        have hnext := hfull'.word (.inl hv)
        rwa [Nat.min_self] at hnext
      · obtain ⟨hlt,-⟩ := getLsbD_trailingOnes hv
        obtain ⟨hbelow,hzero⟩ := hfull'.found hv (by omega)
        exact .inl ⟨n*8+trailingOnes (byte n),by omega,hbelow,hzero,zeroInByte_of_ne hv n⟩

theorem findFirstZero_spec (bitmap : ByteSlice) :
    (∃ k < bitmap.len*8, FullBelow bitmap.byte k ∧ bitAt bitmap.byte k = false ∧ bitmap.findFirstZero = some k) ∨
    (FullBelow bitmap.byte (bitmap.len*8) ∧ bitmap.findFirstZero = none) :=
  findSome?_zeroInByte bitmap.byte bitmap.len

end ByteSlice

/-! ## The allocator as a set -/

namespace Bitmap

/-- The bits of the indices below `size` are the set, and the bits behind them are clear. -/
structure Holds (b : Bitmap) (held : Finset ℕ) : Prop where
  size_le : b.size ≤ b.data.len*8
  lt_size : ∀ k ∈ held, k < b.size
  bits : ∀ k < b.data.len*8, bitAt b.data.byte k = decide (k ∈ held)

variable {b : Bitmap} {held : Finset ℕ} {i k : ℕ}

theorem Holds.isAllocated (h : b.Holds held) (k : ℕ) : b.isAllocated k = decide (k ∈ held) := by
  have hsize := h.size_le
  rw [Bitmap.isAllocated]
  by_cases hk : k < b.size
  · rw [decide_eq_true hk,Bool.true_and,ByteSlice.testBit_eq (by omega),h.bits k (by omega)]
  · have hout : k ∉ held := fun hmem => hk (h.lt_size k hmem)
    rw [decide_eq_false hk,Bool.false_and,decide_eq_false hout]

theorem Holds.fullBelow_iff (h : b.Holds held) {n : ℕ} (hn : n ≤ b.data.len*8) :
    FullBelow b.data.byte n ↔ ∀ k < n, k ∈ held := by
  apply forall₂_congr
  intro k hk
  rw [h.bits k (by omega),decide_eq_true_eq]

/-- A zero at `size` or behind it is not given out; all indices are then taken. -/
theorem Holds.alloc_cases (h : b.Holds held) :
    (∃ i < b.size, i ∉ held ∧ (∀ j < i, j ∈ held) ∧ b.alloc = (some i,{ b with data := b.data.setBit i })) ∨
    ((∀ i < b.size, i ∈ held) ∧ b.alloc = (none,b)) := by
  have hsize := h.size_le
  rw [Bitmap.alloc]
  obtain ⟨k,hk,hfull,hzero,heq⟩ | ⟨hfull,heq⟩ := b.data.findFirstZero_spec
  · rw [h.fullBelow_iff (by omega)] at hfull
    rw [h.bits k hk,decide_eq_false_iff_not] at hzero
    by_cases hin : k < b.size
    · exact .inl ⟨k,hin,hzero,hfull,by rw [heq,Option.filter_some,if_pos (decide_eq_true hin)]⟩
    · refine .inr ⟨fun i hi => hfull i (by omega),?_⟩
      rw [heq,Option.filter_some,if_neg (by simpa using hin)]
  · rw [h.fullBelow_iff (Nat.le_refl _)] at hfull
    exact .inr ⟨fun i hi => hfull i (by omega),by rw [heq]; rfl⟩

theorem Holds.setBit (h : b.Holds held) (hi : i < b.size) :
    Holds { b with data := b.data.setBit i } (insert i held) := by
  have hsize := h.size_le
  refine ⟨by simpa using hsize,?_,?_⟩
  · intro k hk
    rcases Finset.mem_insert.mp hk with rfl | hmem
    · exact hi
    · exact h.lt_size k hmem
  · intro k hk
    rw [ByteSlice.setBit_len] at hk
    rw [ByteSlice.bitAt_setBit (by omega),h.bits k hk]
    simp [Bool.or_comm]

theorem Holds.free (h : b.Holds held) (i : ℕ) : (b.free i).Holds (held.erase i) := by
  have hsize := h.size_le
  rw [Bitmap.free]
  split_ifs with hi
  · refine ⟨by simpa using hsize,fun k hk => h.lt_size k (Finset.mem_of_mem_erase hk),?_⟩
    intro k hk
    rw [ByteSlice.clearBit_len] at hk
    rw [ByteSlice.bitAt_clearBit (by omega),h.bits k hk]
    simp [Bool.and_comm]
  · have hout : i ∉ held := fun hmem => hi (h.lt_size i hmem)
    rwa [Finset.erase_eq_of_notMem hout]

inductive Call where
  | alloc
  | free (index : ℕ)

/-- A call, with the set of indices that have been returned and not released since. -/
def Call.run : Call → Bitmap × Finset ℕ → Bitmap × Finset ℕ
  | alloc, (b,held) => (b.alloc.2,match b.alloc.1 with
    | some i => insert i held
    | none => held)
  | free i, (b,held) => (b.free i,held.erase i)

def runCalls (b : Bitmap) (calls : List Call) : Bitmap × Finset ℕ := calls.foldl (fun s c => c.run s) (b,∅)

theorem Holds.run (h : b.Holds held) (c : Call) : (c.run (b,held)).1.Holds (c.run (b,held)).2 := by
  cases c with
  | alloc =>
    rw [Call.run]
    obtain ⟨i,hi,-,-,heq⟩ | ⟨-,heq⟩ := h.alloc_cases
    · rw [heq]
      exact h.setBit hi
    · rw [heq]
      exact h
  | free i => exact h.free i

theorem Call.run_size (c : Call) (s : Bitmap × Finset ℕ) : (c.run s).1.size = s.1.size := by
  cases c with
  | alloc =>
    change s.1.alloc.2.size = s.1.size
    rw [Bitmap.alloc]
    split <;> rfl
  | free i =>
    change (s.1.free i).size = s.1.size
    rw [Bitmap.free]
    split <;> rfl

theorem runCalls_size (b : Bitmap) (calls : List Call) : (b.runCalls calls).1.size = b.size := by
  induction calls using List.reverseRecOn with
  | nil => rfl
  | append_singleton calls c ih =>
    rw [runCalls,List.foldl_append]
    exact (c.run_size _).trans ih

theorem holds_runCalls (hzero : ∀ i < b.data.len, b.data.byte i = 0) (hsize : b.size ≤ 8*b.data.len)
    (calls : List Call) : (b.runCalls calls).1.Holds (b.runCalls calls).2 := by
  induction calls using List.reverseRecOn with
  | nil =>
    refine ⟨by change b.size ≤ b.data.len*8; omega,fun k hk => absurd hk (Finset.notMem_empty k),fun k hk => ?_⟩
    change bitAt b.data.byte k = decide (k ∈ ∅)
    have hk : k < b.data.len*8 := hk
    rw [bitAt,hzero _ (by omega)]
    simp
  | append_singleton calls c ih =>
    rw [runCalls,List.foldl_append]
    exact ih.run c

/-- What the calls on an allocator do, for the set of indices that are allocated. -/
structure Allocates (b : Bitmap) (held : Finset ℕ) : Prop where
  isAllocated : ∀ i, b.isAllocated i = decide (i ∈ held)
  alloc_some : ∀ i, b.alloc.1 = some i ↔ i < b.size ∧ i ∉ held ∧ ∀ j < i, j ∈ held
  alloc_none : b.alloc.1 = none ↔ ∀ i < b.size, i ∈ held
  alloc_marks : ∀ i j, b.alloc.1 = some i → b.alloc.2.isAllocated j = decide (j = i ∨ j ∈ held)
  free_exactly : ∀ i j, (b.free i).isAllocated j = decide (¬(j = i ∧ i < b.size) ∧ j ∈ held)

theorem Holds.allocates (h : b.Holds held) : b.Allocates held where
  isAllocated := h.isAllocated
  alloc_some i := by
    obtain ⟨k,hk,hfree,hbelow,heq⟩ | ⟨hall,heq⟩ := h.alloc_cases
    · rw [heq,Option.some_inj]
      constructor
      · rintro rfl
        exact ⟨hk,hfree,hbelow⟩
      · rintro ⟨-,hi,hbelow'⟩
        rcases Nat.lt_trichotomy k i with hlt | heq | hgt
        · exact absurd (hbelow' k hlt) hfree
        · exact heq
        · exact absurd (hbelow i hgt) hi
    · rw [heq]
      constructor
      · intro hnone
        cases hnone
      · rintro ⟨hi,hfree,-⟩
        exact absurd (hall i hi) hfree
  alloc_none := by
    obtain ⟨k,hk,hfree,-,heq⟩ | ⟨hall,heq⟩ := h.alloc_cases
    · rw [heq]
      constructor
      · intro hsome
        cases hsome
      · intro hall
        exact absurd (hall k hk) hfree
    · rw [heq]
      exact iff_of_true rfl hall
  alloc_marks i j hi := by
    obtain ⟨k,hk,-,-,heq⟩ | ⟨-,heq⟩ := h.alloc_cases
    · rw [heq] at hi ⊢
      obtain rfl := Option.some_inj.mp hi
      rw [(h.setBit hk).isAllocated]
      simp
    · rw [heq] at hi
      cases hi
  free_exactly i j := by
    rw [(h.free i).isAllocated,decide_eq_decide,Finset.mem_erase]
    constructor
    · rintro ⟨hne,hj⟩
      exact ⟨fun hji => hne hji.1,hj⟩
    · rintro ⟨hkept,hj⟩
      refine ⟨?_,hj⟩
      rintro rfl
      exact hkept ⟨rfl,h.lt_size j hj⟩

/-- On a zeroed array the allocator gives out the least free index after any calls. -/
theorem bitmap_allocates {b : Bitmap} (hzero : ∀ i < b.data.len, b.data.byte i = 0) (hsize : b.size ≤ 8*b.data.len)
    (calls : List Call) : (b.runCalls calls).1.size = b.size ∧ (b.runCalls calls).1.Allocates (b.runCalls calls).2 :=
  ⟨runCalls_size b calls,(holds_runCalls hzero hsize calls).allocates⟩

/-- Three indices in one byte. -/
theorem bitmap_allocates_byte :
    (runCalls ⟨⟨1,fun _ => 0⟩,3⟩ [.alloc,.alloc,.free 0]).1.Allocates
      (runCalls ⟨⟨1,fun _ => 0⟩,3⟩ [.alloc,.alloc,.free 0]).2 :=
  (bitmap_allocates (fun _ _ => rfl) (by decide) _).2

end Bitmap
end Linuxab.Memory
