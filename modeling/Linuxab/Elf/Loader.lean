import Linuxab.Base.Sweep
import Mathlib.Algebra.Group.Nat.Defs
import Mathlib.Data.Int.Notation
import Mathlib.Data.Nat.Init
import Mathlib.Tactic.SplitIfs

/-! The segment loader of kernel/drivers/elf.c. One memory of bytes holds the file at `ehdr` and the
segments that are mapped; addresses wrap around at 2^64. -/
namespace Linuxab.Elf
open Linuxab.Base

def PT_LOAD : UInt32 := 1
def PF_X : UInt32 := 1
def PF_W : UInt32 := 2
def PF_R : UInt32 := 4

/-- The little-endian number in `n` bytes. -/
def readLe (m : UInt64 → UInt8) (a : UInt64) : ℕ → ℕ
  | 0 => 0
  | n+1 => readLe m a n+256^n*(m (a+UInt64.ofNat n)).toNat

/-- The fields of `Elf64_Ehdr` that the loader reads. -/
def ePhoff (m : UInt64 → UInt8) (ehdr : UInt64) : UInt64 := UInt64.ofNat (readLe m (ehdr+32) 8)
def ePhnum (m : UInt64 → UInt8) (ehdr : UInt64) : ℕ := readLe m (ehdr+56) 2

/-- The fields of `Elf64_Phdr` up to `p_memsz`, without `p_paddr`. -/
structure Phdr where
  pType : UInt32
  pFlags : UInt32
  pOffset : UInt64
  pVaddr : UInt64
  pFilesz : UInt64
  pMemsz : UInt64
  deriving DecidableEq, Repr

def readPhdr (m : UInt64 → UInt8) (a : UInt64) : Phdr where
  pType := UInt32.ofNat (readLe m a 4)
  pFlags := UInt32.ofNat (readLe m (a+4) 4)
  pOffset := UInt64.ofNat (readLe m (a+8) 8)
  pVaddr := UInt64.ofNat (readLe m (a+16) 8)
  pFilesz := UInt64.ofNat (readLe m (a+32) 8)
  pMemsz := UInt64.ofNat (readLe m (a+40) 8)

/-- The address of `phdr[i]`. -/
def phdrAddr (phdr : UInt64) (i : ℕ) : UInt64 := phdr+56*UInt64.ofNat i

def prot (ph : Phdr) : UInt32 :=
  (if ph.pFlags &&& PF_R ≠ 0 then 1 else 0) ||| (if ph.pFlags &&& PF_W ≠ 0 then 2 else 0) |||
    (if ph.pFlags &&& PF_X ≠ 0 then 4 else 0)

/-- `for (j = 0; j < n; j++) p[j] = 0;` -/
def zeroFill (p n : UInt64) (m : UInt64 → UInt8) : UInt64 → UInt8 :=
  sweep (fun j => p+UInt64.ofNat j) (fun _ _ => 0) (List.range n.toNat) m

/-- `map_fn(addr, len, prot)`: its return value and the memory it leaves. -/
abbrev MapFn := UInt64 → UInt64 → UInt32 → (UInt64 → UInt8) → ℤ × (UInt64 → UInt8)

/-- What is done behind the call of `map_fn`; the header is read again from the memory it has left. -/
def zeroBss (phdr vaddr : UInt64) (m : UInt64 → UInt8) : UInt64 → UInt8 :=
  let ph := readPhdr m phdr
  if ph.pMemsz > ph.pFilesz then zeroFill (vaddr+ph.pFilesz) (ph.pMemsz-ph.pFilesz) m else m

/-- The loop of `elf64_load_segments` from header `i` on, for at most `n` rounds. -/
def loadLoop (ehdr phdr base : UInt64) (mapFn : MapFn) : (n i : ℕ) → (UInt64 → UInt8) → ℤ × (UInt64 → UInt8)
  | 0,_,m => (0,m)
  | n+1,i,m =>
    if i < ePhnum m ehdr then
      let ph := readPhdr m (phdrAddr phdr i)
      if ph.pType ≠ PT_LOAD then loadLoop ehdr phdr base mapFn n (i+1) m
      else
        let r := mapFn (base+ph.pVaddr) ph.pMemsz (prot ph) m
        if r.1 ≠ 0 then (-1,r.2)
        else loadLoop ehdr phdr base mapFn n (i+1) (zeroBss (phdrAddr phdr i) (base+ph.pVaddr) r.2)
    else (0,m)

/-- `e_phnum` has 16 bits, so 2^16 rounds are enough. -/
def elf64LoadSegments (ehdr base : UInt64) (mapFn : MapFn) (m : UInt64 → UInt8) : ℤ × (UInt64 → UInt8) :=
  loadLoop ehdr (ehdr+ePhoff m ehdr) base mapFn 65536 0 m

section Ranges
variable {p n a x : UInt64} {m m' : UInt64 → UInt8}

/-- The address is one of the `n` from `p` on. -/
def InRange (p n a : UInt64) : Prop := a-p < n

theorem add_sub_self (p x : UInt64) : p+x-p = x := by
  rw [UInt64.add_comm,UInt64.add_sub_cancel]

theorem inRange_add_iff : InRange p n (p+x) ↔ x < n := by
  rw [InRange,add_sub_self]

theorem zeroFill_apply (p n : UInt64) (m : UInt64 → UInt8) (a : UInt64) :
    zeroFill p n m a = if a-p < n then 0 else m a := by
  have hexists : (∃ j ∈ List.range n.toNat, p+UInt64.ofNat j = a) ↔ a-p < n := by
    constructor
    · rintro ⟨j,hj,rfl⟩
      have hsize : j < UInt64.size := Nat.lt_trans (List.mem_range.mp hj) n.toNat_lt
      rw [add_sub_self,UInt64.lt_iff_toNat_lt,UInt64.toNat_ofNat_of_lt' hsize]
      exact List.mem_range.mp hj
    · intro h
      refine ⟨(a-p).toNat,List.mem_range.mpr (UInt64.lt_iff_toNat_lt.mp h),?_⟩
      rw [UInt64.ofNat_toNat,UInt64.add_comm,UInt64.sub_add_cancel]
  rw [zeroFill,sweep_fill]
  simp only [hexists]

theorem readLe_congr {n : ℕ} (h : ∀ j < n, m' (a+UInt64.ofNat j) = m (a+UInt64.ofNat j)) :
    readLe m' a n = readLe m a n := by
  induction n with
  | zero => rfl
  | succ n ih =>
    rw [readLe,readLe,ih fun j hj => h j (Nat.lt_succ_of_lt hj),h n (Nat.lt_succ_self n)]

/-- A field of a record depends on the bytes of the record only. -/
theorem readLe_field {size k : UInt64} {n : ℕ} (h : ∀ x < size, m' (a+x) = m (a+x))
    (hk : ∀ j < n, k+UInt64.ofNat j < size) : readLe m' (a+k) n = readLe m (a+k) n := by
  apply readLe_congr
  intro j hj
  rw [UInt64.add_assoc]
  exact h _ (hk j hj)

theorem ePhnum_congr (h : ∀ x < 64, m' (a+x) = m (a+x)) : ePhnum m' a = ePhnum m a :=
  readLe_field h (by decide)

theorem readPhdr_congr (h : ∀ x < 56, m' (a+x) = m (a+x)) : readPhdr m' a = readPhdr m a := by
  have htype : readLe m' a 4 = readLe m a 4 := by
    have h0 := readLe_field (k := 0) (n := 4) h (by decide)
    rwa [UInt64.add_zero] at h0
  have hflags := readLe_field (k := 4) (n := 4) h (by decide)
  have hoffset := readLe_field (k := 8) (n := 8) h (by decide)
  have hvaddr := readLe_field (k := 16) (n := 8) h (by decide)
  have hfilesz := readLe_field (k := 32) (n := 8) h (by decide)
  have hmemsz := readLe_field (k := 40) (n := 8) h (by decide)
  simp only [readPhdr,htype,hflags,hoffset,hvaddr,hfilesz,hmemsz]

end Ranges

section Segment
variable (base : UInt64) (mapFn : MapFn) (ph : Phdr) (m : UInt64 → UInt8)

/-- `map_fn` returns 0 and leaves anything in the range it maps, and the rest of the memory as it is. -/
def Maps (mapFn : MapFn) : Prop :=
  ∀ addr len prot m, (mapFn addr len prot m).1 = 0 ∧ ∀ a, ¬InRange addr len a → (mapFn addr len prot m).2 a = m a

/-- The memory after `map_fn` has been called for a segment. -/
def mapped : UInt64 → UInt8 := (mapFn (base+ph.pVaddr) ph.pMemsz (prot ph) m).2

/-- The memory after a segment has been loaded. -/
def loadOne : UInt64 → UInt8 :=
  if ph.pMemsz > ph.pFilesz then
    zeroFill (base+ph.pVaddr+ph.pFilesz) (ph.pMemsz-ph.pFilesz) (mapped base mapFn ph m)
  else mapped base mapFn ph m

variable {base mapFn ph m}

theorem loadOne_outside (hmap : Maps mapFn) {a : UInt64} (ha : ¬InRange (base+ph.pVaddr) ph.pMemsz a) :
    loadOne base mapFn ph m a = m a := by
  have hmapped : mapped base mapFn ph m a = m a := (hmap _ _ _ m).2 a ha
  rw [loadOne]
  split_ifs
  · have hbss : ¬a-(base+ph.pVaddr+ph.pFilesz) < ph.pMemsz-ph.pFilesz := by
      rw [InRange] at ha
      grind
    rw [zeroFill_apply,if_neg hbss,hmapped]
  · exact hmapped

/-- The file bytes of the segment are what `map_fn` has left there. -/
theorem loadOne_head {x : UInt64} (hx : x < ph.pFilesz) :
    loadOne base mapFn ph m (base+ph.pVaddr+x) = mapped base mapFn ph m (base+ph.pVaddr+x) := by
  rw [loadOne]
  split_ifs
  · have hbss : ¬base+ph.pVaddr+x-(base+ph.pVaddr+ph.pFilesz) < ph.pMemsz-ph.pFilesz := by grind
    rw [zeroFill_apply,if_neg hbss]
  · rfl

theorem loadOne_tail {x : UInt64} (hf : ph.pFilesz ≤ x) (hx : x < ph.pMemsz) :
    loadOne base mapFn ph m (base+ph.pVaddr+x) = 0 := by
  have hmem : ph.pMemsz > ph.pFilesz := UInt64.lt_of_le_of_lt hf hx
  have hbss : base+ph.pVaddr+x-(base+ph.pVaddr+ph.pFilesz) < ph.pMemsz-ph.pFilesz := by grind
  rw [loadOne,if_pos hmem,zeroFill_apply,if_pos hbss]

end Segment

section File
variable (m : UInt64 → UInt8) (ehdr base : UInt64)

/-- The program header `i` of the file. -/
def segment (i : ℕ) : Phdr := readPhdr m (phdrAddr (ehdr+ePhoff m ehdr) i)

def IsLoad (i : ℕ) : Prop := i < ePhnum m ehdr ∧ (segment m ehdr i).pType = PT_LOAD

/-- The address belongs to segment `i` in memory. -/
def Covers (i : ℕ) (a : UInt64) : Prop := InRange (base+(segment m ehdr i).pVaddr) (segment m ehdr i).pMemsz a

/-- The address is one of the file header or of the program headers. -/
def InHeaders (a : UInt64) : Prop :=
  InRange ehdr 64 a ∨ ∃ i < ePhnum m ehdr, InRange (phdrAddr (ehdr+ePhoff m ehdr) i) 56 a

/-- The segments to load have room for their file bytes, do not overlap, and are not mapped over the
headers that describe them. -/
structure Loadable : Prop where
  sizes : ∀ i, IsLoad m ehdr i → (segment m ehdr i).pFilesz ≤ (segment m ehdr i).pMemsz
  disjoint : ∀ i j, IsLoad m ehdr i → IsLoad m ehdr j → i ≠ j → ∀ a, Covers m ehdr base i a → ¬Covers m ehdr base j a
  apart : ∀ i, IsLoad m ehdr i → ∀ a, InHeaders m ehdr a → ¬Covers m ehdr base i a

/-- Segment `i` of the file in `m` is in the memory `m'` as the file describes it. -/
structure HasImage (i : ℕ) (m' : UInt64 → UInt8) : Prop where
  head : ∀ x < (segment m ehdr i).pFilesz,
    m' (base+(segment m ehdr i).pVaddr+x) = m (ehdr+(segment m ehdr i).pOffset+x)
  tail : ∀ x, (segment m ehdr i).pFilesz ≤ x → x < (segment m ehdr i).pMemsz →
    m' (base+(segment m ehdr i).pVaddr+x) = 0

variable (mapFn : MapFn)

/-- The memory when the first `k` headers have been treated. -/
def loaded : ℕ → UInt64 → UInt8
  | 0 => m
  | k+1 => if (segment m ehdr k).pType = PT_LOAD then loadOne base mapFn (segment m ehdr k) (loaded k) else loaded k

variable {m ehdr base mapFn} (hmap : Maps mapFn) (hfile : Loadable m ehdr base)
include hmap hfile

omit hfile in
/-- A header changes the memory at most at the addresses of its own segment. -/
theorem loaded_succ {k : ℕ} (hk : k < ePhnum m ehdr) {a : UInt64} (ha : IsLoad m ehdr k → ¬Covers m ehdr base k a) :
    loaded m ehdr base mapFn (k+1) a = loaded m ehdr base mapFn k a := by
  rw [loaded]
  split_ifs with htype
  · exact loadOne_outside hmap (ha ⟨hk,htype⟩)
  · rfl

theorem loaded_headers {k : ℕ} (hk : k ≤ ePhnum m ehdr) {a : UInt64} (ha : InHeaders m ehdr a) :
    loaded m ehdr base mapFn k a = m a := by
  induction k with
  | zero => rfl
  | succ k ih =>
    rw [loaded_succ hmap hk fun hload => hfile.apart k hload a ha]
    exact ih (Nat.le_of_succ_le hk)

/-- A segment stays as it was loaded. -/
theorem loaded_segment {i k : ℕ} (hi : IsLoad m ehdr i) (hik : i+1 ≤ k) (hk : k ≤ ePhnum m ehdr) {a : UInt64}
    (ha : Covers m ehdr base i a) : loaded m ehdr base mapFn k a = loaded m ehdr base mapFn (i+1) a := by
  induction k,hik using Nat.le_induction with
  | base => rfl
  | succ k hik ih =>
    rw [loaded_succ hmap hk fun hload => hfile.disjoint i k hi hload (by omega) a ha]
    exact ih (Nat.le_of_succ_le hk)

theorem zeroBss_eq {i : ℕ} (hi : IsLoad m ehdr i) :
    zeroBss (phdrAddr (ehdr+ePhoff m ehdr) i) (base+(segment m ehdr i).pVaddr)
        (mapped base mapFn (segment m ehdr i) (loaded m ehdr base mapFn i)) =
      loadOne base mapFn (segment m ehdr i) (loaded m ehdr base mapFn i) := by
  have hph : readPhdr (mapped base mapFn (segment m ehdr i) (loaded m ehdr base mapFn i))
      (phdrAddr (ehdr+ePhoff m ehdr) i) = segment m ehdr i := by
    apply readPhdr_congr
    intro x hx
    have hx : InHeaders m ehdr (phdrAddr (ehdr+ePhoff m ehdr) i+x) := .inr ⟨i,hi.1,inRange_add_iff.mpr hx⟩
    exact ((hmap _ _ _ _).2 _ (hfile.apart i hi _ hx)).trans (loaded_headers hmap hfile (Nat.le_of_lt hi.1) hx)
  rw [zeroBss,hph,loadOne]

/-- The loop treats the headers one after the other, as they are in the file. -/
theorem loadLoop_eq (n : ℕ) {i : ℕ} (hi : i ≤ ePhnum m ehdr) :
    loadLoop ehdr (ehdr+ePhoff m ehdr) base mapFn n i (loaded m ehdr base mapFn i) =
      (0,loaded m ehdr base mapFn (min (i+n) (ePhnum m ehdr))) := by
  induction n generalizing i with
  | zero =>
    rw [Nat.add_zero,Nat.min_eq_left hi]
    rfl
  | succ n ih =>
    have hnum : ePhnum (loaded m ehdr base mapFn i) ehdr = ePhnum m ehdr :=
      ePhnum_congr fun x hx => loaded_headers hmap hfile hi (.inl (inRange_add_iff.mpr hx))
    rw [loadLoop,hnum]
    by_cases hlt : i < ePhnum m ehdr
    · have hph : readPhdr (loaded m ehdr base mapFn i) (phdrAddr (ehdr+ePhoff m ehdr) i) = segment m ehdr i :=
        readPhdr_congr fun x hx => loaded_headers hmap hfile hi (.inr ⟨i,hlt,inRange_add_iff.mpr hx⟩)
      have hnext := ih hlt
      rw [if_pos hlt,hph,Nat.add_comm n,← Nat.add_assoc,← hnext]
      by_cases htype : (segment m ehdr i).pType = PT_LOAD
      · have hret := (hmap (base+(segment m ehdr i).pVaddr) (segment m ehdr i).pMemsz (prot (segment m ehdr i))
          (loaded m ehdr base mapFn i)).1
        have hload : loaded m ehdr base mapFn (i+1) = loadOne base mapFn (segment m ehdr i)
          (loaded m ehdr base mapFn i) := by rw [loaded,if_pos htype]
        rw [if_neg (not_not.mpr htype),if_neg (not_not.mpr hret),hload,← zeroBss_eq hmap hfile ⟨hlt,htype⟩]
        rfl
      · have hskip : loaded m ehdr base mapFn (i+1) = loaded m ehdr base mapFn i := by rw [loaded,if_neg htype]
        rw [if_pos htype,hskip]
    · rw [if_neg hlt,Nat.min_eq_right (by omega),Nat.le_antisymm hi (Nat.le_of_not_lt hlt)]

omit hmap hfile in
theorem ePhnum_lt (m : UInt64 → UInt8) (ehdr : UInt64) : ePhnum m ehdr < 65536 := by
  have hlow := (m (ehdr+56+UInt64.ofNat 0)).toNat_lt
  have hhigh := (m (ehdr+56+UInt64.ofNat 1)).toNat_lt
  simp only [ePhnum,readLe]
  omega

theorem elf64LoadSegments_eq :
    elf64LoadSegments ehdr base mapFn m = (0,loaded m ehdr base mapFn (ePhnum m ehdr)) := by
  have hloop := loadLoop_eq hmap hfile 65536 (Nat.zero_le _)
  rwa [Nat.zero_add,Nat.min_eq_right (Nat.le_of_lt (ePhnum_lt m ehdr))] at hloop

theorem loaded_final {i : ℕ} (hi : IsLoad m ehdr i) {x : UInt64} (hx : x < (segment m ehdr i).pMemsz) :
    loaded m ehdr base mapFn (ePhnum m ehdr) (base+(segment m ehdr i).pVaddr+x) =
      loadOne base mapFn (segment m ehdr i) (loaded m ehdr base mapFn i) (base+(segment m ehdr i).pVaddr+x) := by
  rw [loaded_segment hmap hfile hi hi.1 (Nat.le_refl _) (inRange_add_iff.mpr hx),loaded,if_pos hi.2]

theorem hasImage_iff {i : ℕ} (hi : IsLoad m ehdr i) :
    HasImage m ehdr base i (loaded m ehdr base mapFn (ePhnum m ehdr)) ↔
      ∀ x < (segment m ehdr i).pFilesz,
        mapped base mapFn (segment m ehdr i) (loaded m ehdr base mapFn i) (base+(segment m ehdr i).pVaddr+x) =
          m (ehdr+(segment m ehdr i).pOffset+x) := by
  have hhead : ∀ x < (segment m ehdr i).pFilesz,
      loaded m ehdr base mapFn (ePhnum m ehdr) (base+(segment m ehdr i).pVaddr+x) =
        mapped base mapFn (segment m ehdr i) (loaded m ehdr base mapFn i) (base+(segment m ehdr i).pVaddr+x) := by
    intro x hx
    rw [loaded_final hmap hfile hi (UInt64.lt_of_lt_of_le hx (hfile.sizes i hi)),loadOne_head hx]
  constructor
  · intro h x hx
    rw [← hhead x hx,h.head x hx]
  · intro h
    refine ⟨fun x hx => ?_,fun x hf hx => ?_⟩
    · rw [hhead x hx,h x hx]
    · rw [loaded_final hmap hfile hi hx,loadOne_tail hf hx]

end File

/-- A file at address 0 with one segment to load at 0x1000, of two bytes of which the first is in the file,
at offset 120. -/
def smallFile (a : UInt64) : UInt8 :=
  if a = 32 then 64 else if a = 56 then 1 else if a = 64 then 1 else if a = 72 then 120 else if a = 81 then 16
  else if a = 96 then 1 else if a = 104 then 2 else if a = 120 then 0x90 else 0

theorem smallFile_headers : ePhnum smallFile 0 = 1 ∧ phdrAddr (0+ePhoff smallFile 0) 0 = 64 ∧
    segment smallFile 0 0 = ⟨1,0,120,0x1000,1,2⟩ := by
  decide +kernel

theorem smallFile_isLoad_iff (i : ℕ) : IsLoad smallFile 0 i ↔ i = 0 := by
  obtain ⟨hnum,-,hseg⟩ := smallFile_headers
  rw [IsLoad,hnum,Nat.lt_one_iff]
  constructor
  · exact fun h => h.1
  · rintro rfl
    rw [hseg]
    exact ⟨rfl,rfl⟩

theorem smallFile_loadable : Loadable smallFile 0 0 := by
  obtain ⟨hnum,haddr,hseg⟩ := smallFile_headers
  refine ⟨fun i hi => ?_,fun i j hi hj hne => ?_,fun i hi a ha hc => ?_⟩
  · rw [(smallFile_isLoad_iff i).mp hi,hseg]
    decide
  · exact absurd (((smallFile_isLoad_iff i).mp hi).trans ((smallFile_isLoad_iff j).mp hj).symm) hne
  · rw [(smallFile_isLoad_iff i).mp hi,Covers,hseg,InRange] at hc
    obtain ha | ⟨k,hk,ha⟩ := ha
    · rw [InRange] at ha
      grind
    · rw [hnum,Nat.lt_one_iff] at hk
      rw [hk,haddr,InRange] at ha
      grind

/-- A `map_fn` that maps the pages of the file. -/
def fileMap : MapFn := fun addr len _ m => (0,fun a => if a-addr < len then m (120+(a-addr)) else m a)

/-- A `map_fn` that leaves the memory as it is. -/
def keepMap : MapFn := fun _ _ _ m => (0,m)

end Linuxab.Elf
