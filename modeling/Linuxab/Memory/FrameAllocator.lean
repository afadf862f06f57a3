import Linuxab.Base.Bitmap
import Mathlib.Algebra.Group.Nat.Defs
import Mathlib.Data.Finset.Card
import Mathlib.Order.Bounds.Basic

/-! The physical frame allocator of rust/modules/bitmap.rs. Its bitmap lies at the start of the region it
is given, one bit for each frame of 4096 bytes. No sum or product of the source passes the range of
`usize`, since `total_frames` is a quotient by 4096; the counter wraps around as `AtomicUsize` does. -/
namespace Linuxab.Memory
open Linuxab.Base

/-- The allocator, with the 64-bit words of the memory by their addresses. -/
structure BitmapAllocator where
  bitmap : ℕ
  totalFrames : ℕ
  usedFrames : ℕ
  memory : ℕ → BitVec 64

def fetchAdd (x n : ℕ) : ℕ := (x+n)%2^64
def fetchSub (x n : ℕ) : ℕ := (x+(2^64-n))%2^64

namespace BitmapAllocator

def new (memory : ℕ → BitVec 64) : BitmapAllocator := ⟨0,0,0,memory⟩

/-- `core::ptr::read(self.bitmap.add(i))`. -/
def read (s : BitmapAllocator) (i : ℕ) : BitVec 64 := s.memory (s.bitmap+8*i)

/-- `core::ptr::write(self.bitmap.add(i), val)`. -/
def write (s : BitmapAllocator) (i : ℕ) (val : BitVec 64) : BitmapAllocator :=
  { s with memory := Function.update s.memory (s.bitmap+8*i) val }

def numU64s (s : BitmapAllocator) : ℕ := (s.totalFrames+63)/64

/-- The counter of used frames is not touched. -/
def init (s : BitmapAllocator) (start size : ℕ) : BitmapAllocator :=
  let t := { s with bitmap := start, totalFrames := size/4096 }
  (List.range t.numU64s).foldl (fun t i => t.write i 0) t

/-- The rounds of `alloc_frame` from word `i` on, of which `n` are left. -/
def allocLoop (s : BitmapAllocator) : (n i : ℕ) → Option ℕ × BitmapAllocator
  | 0,_ => (none,s)
  | n+1,i =>
    let val := s.read i
    if val ≠ BitVec.allOnes 64 then
      let bit := trailingOnes val
      if bit < 64 ∧ i*64+bit < s.totalFrames then
        let frame := i*64+bit
        let mask := 1#64 <<< bit
        (some (frame*4096),{ s.write i (val ||| mask) with usedFrames := fetchAdd s.usedFrames 1 })
      else allocLoop s n (i+1)
    else allocLoop s n (i+1)

def allocFrame (s : BitmapAllocator) : Option ℕ × BitmapAllocator := allocLoop s s.numU64s 0

def freeFrame (s : BitmapAllocator) (addr : ℕ) : BitmapAllocator :=
  let frame := addr/4096
  let idx := frame/64
  let bit := frame%64
  { s.write idx (s.read idx &&& ~~~(1#64 <<< bit)) with usedFrames := fetchSub s.usedFrames 1 }

section Words
variable (s : BitmapAllocator) (i : ℕ) (val : BitVec 64)

@[simp] theorem write_bitmap : (s.write i val).bitmap = s.bitmap := rfl
@[simp] theorem write_totalFrames : (s.write i val).totalFrames = s.totalFrames := rfl
@[simp] theorem write_usedFrames : (s.write i val).usedFrames = s.usedFrames := rfl

@[simp] theorem read_counter (n : ℕ) : ({ s with usedFrames := n } : BitmapAllocator).read = s.read := rfl

@[simp] theorem read_write : (s.write i val).read = Function.update s.read i val := by
  funext j
  by_cases hj : j = i
  · simp [read,write,hj]
  · have hne : s.bitmap+8*j ≠ s.bitmap+8*i := by omega
    rw [Function.update_of_ne hj]
    exact Function.update_of_ne hne _ _

/-- The state in which `alloc_frame` leaves with `frame`. -/
def take (s : BitmapAllocator) (frame : ℕ) : BitmapAllocator :=
  { s.write (frame/64) (s.read (frame/64) ||| 1#64 <<< (frame%64)) with usedFrames := fetchAdd s.usedFrames 1 }

@[simp] theorem take_usedFrames (frame : ℕ) : (s.take frame).usedFrames = fetchAdd s.usedFrames 1 := rfl
@[simp] theorem freeFrame_totalFrames (addr : ℕ) : (s.freeFrame addr).totalFrames = s.totalFrames := by
  rw [freeFrame,write_totalFrames]
@[simp] theorem freeFrame_usedFrames (addr : ℕ) : (s.freeFrame addr).usedFrames = fetchSub s.usedFrames 1 := by
  rw [freeFrame]

end Words

section Loop
variable {s : BitmapAllocator}

/-- The loop of `alloc_frame` takes the lowest clear bit, if there is one below `total_frames`. -/
theorem allocLoop_spec {n i : ℕ} (hn : s.totalFrames ≤ (i+n)*64)
    (h : FullBelow s.read (min (i*64) s.totalFrames)) :
    (∃ frame < s.totalFrames, FullBelow s.read frame ∧ bitAt s.read frame = false ∧
      s.allocLoop n i = (some (frame*4096),s.take frame)) ∨
    (FullBelow s.read s.totalFrames ∧ s.allocLoop n i = (none,s)) := by
  induction n generalizing i with
  | zero => exact .inr ⟨by rwa [Nat.min_eq_right (by omega)] at h,rfl⟩
  | succ n ih =>
    -- the next round starts with everything in front of it taken
    have hnext := fun hv => ih (i := i+1) (by omega) (h.word hv)
    rw [allocLoop]
    by_cases hv : s.read i = BitVec.allOnes 64
    · simpa [hv] using hnext (.inl hv)
    · obtain ⟨hbit,-⟩ := getLsbD_trailingOnes hv
      by_cases hf : i*64+trailingOnes (s.read i) < s.totalFrames
      · obtain ⟨hfull,hfree⟩ := h.found hv hf
        refine .inl ⟨_,hf,hfull,hfree,?_⟩
        have hword : (i*64+trailingOnes (s.read i))/64 = i := by omega
        have hrest : (i*64+trailingOnes (s.read i))%64 = trailingOnes (s.read i) := by omega
        rw [if_pos hv,if_pos ⟨hbit,hf⟩,take,hword,hrest]
      · simpa [hv,hf] using hnext (.inr (by omega))

theorem allocFrame_spec (s : BitmapAllocator) :
    (∃ frame < s.totalFrames, FullBelow s.read frame ∧ bitAt s.read frame = false ∧
      s.allocFrame = (some (frame*4096),s.take frame)) ∨
    (FullBelow s.read s.totalFrames ∧ s.allocFrame = (none,s)) := by
  apply allocLoop_spec
  · rw [numU64s]
    omega
  · intro k hk
    omega

theorem bitAt_take (frame k : ℕ) :
    bitAt (s.take frame).read k = (bitAt s.read k || decide (k = frame)) := by
  rw [take,read_counter,read_write,bitAt_set (by decide)]

theorem bitAt_freeFrame (addr k : ℕ) :
    bitAt (s.freeFrame addr).read k = (bitAt s.read k && !decide (k = addr/4096)) := by
  rw [freeFrame,read_counter,read_write,bitAt_clear (by decide)]

/-- Storing zeros in the first `n` words. -/
theorem foldl_write_zero (n : ℕ) :
    ((List.range n).foldl (fun t i => t.write i 0) s).bitmap = s.bitmap ∧
    ((List.range n).foldl (fun t i => t.write i 0) s).totalFrames = s.totalFrames ∧
    ((List.range n).foldl (fun t i => t.write i 0) s).usedFrames = s.usedFrames ∧
    ∀ i < n, ((List.range n).foldl (fun t i => t.write i 0) s).read i = 0 := by
  induction n with
  | zero => simp
  | succ n ih =>
    obtain ⟨hb,ht,hu,hr⟩ := ih
    simp only [List.range_succ,List.foldl_append,List.foldl_cons,List.foldl_nil,write_bitmap,write_totalFrames,
      write_usedFrames,read_write]
    refine ⟨hb,ht,hu,fun i hi => ?_⟩
    by_cases hin : i = n
    · simp [hin]
    · rw [Function.update_of_ne hin]
      exact hr i (by omega)

theorem bitAt_init (start size k : ℕ) (hk : k < size/4096) : bitAt (s.init start size).read k = false := by
  have hzero := (foldl_write_zero (s := { s with bitmap := start, totalFrames := size/4096 })
    ((size/4096+63)/64)).2.2.2 (k/64) (by omega)
  have hread : (s.init start size).read (k/64) = 0 := hzero
  simp [bitAt,hread]

end Loop
end BitmapAllocator
end Linuxab.Memory
