import Linuxab.Kasan.Shadow
import Mathlib.Logic.Pairwise

/-! Histories of allocations on disjoint blocks. The shadow marks exactly the granules with a byte that
must not be touched; the check then compares an offset of at most 7 with marks of at least 0xF6. -/
namespace Linuxab.Kasan

/-- A block of whole granules. -/
structure Block where
  addr : UInt64
  allocSize : UInt64
  addr_ne : addr ≠ 0
  addr_mod : addr.toNat % 8 = 0
  size_mod : allocSize.toNat % 8 = 0
  fits : addr.toNat+allocSize.toNat ≤ 2^64

def Block.start (b : Block) : ℕ := b.addr.toNat
def Block.stop (b : Block) : ℕ := b.addr.toNat+b.allocSize.toNat

structure Heap (ι : Type*) where
  block : ι → Block
  disjoint : Pairwise fun i j => (block i).stop ≤ (block j).start ∨ (block j).stop ≤ (block i).start

inductive HeapCall {ι : Type*} (heap : Heap ι)
  | kmalloc (i : ι) (size : UInt64) (hpos : 0 < size) (hle : size ≤ (heap.block i).allocSize)
  | kfree (i : ι)

namespace Heap
variable {ι : Type*} {heap : Heap ι}

def call (s : Sanitizer) : HeapCall heap → Sanitizer
  | .kmalloc i size _ _ => kasanKmalloc s (heap.block i).addr size (heap.block i).allocSize
  | .kfree i => kasanKfree s (heap.block i).addr (heap.block i).allocSize

def run (s : Sanitizer) (calls : List (HeapCall heap)) : Sanitizer := calls.foldl call s

section Granules
variable {s : Sanitizer} {b : Block} {g : ℕ}

@[simp] lemma call_enabled (c : HeapCall heap) : (call s c).enabled = s.enabled := by
  cases c <;> simp only [call,kasanKmalloc,kasanKfree,kasanPoisonShadow,kasanUnpoisonShadow] <;> split <;> simp

@[simp] lemma run_enabled (calls : List (HeapCall heap)) : (run s calls).enabled = s.enabled := by
  induction calls generalizing s with
  | nil => rfl
  | cons c calls ih => rw [run,List.foldl_cons,← run,ih,call_enabled]

lemma granule_kfree (hs : s.enabled) (hg : g < 2^61) : granule (kasanKfree s b.addr b.allocSize) g
    = if b.start ≤ 8*g ∧ 8*g < b.stop then slabFree else granule s g := by
  have hmod := b.addr_mod
  simp only [kasanKfree,hs,Bool.not_true,Bool.false_eq_true,if_false,kasanPoisonShadow]
  rw [granule_setShadow hs b.addr_ne b.fits hg]
  simp only [Block.start,Block.stop]
  congr 1
  simp only [eq_iff_iff]
  omega

/-- The redzone overwrites the granule in which the object ends. -/
lemma granule_kmalloc {size : UInt64} (hle : size ≤ b.allocSize) (hs : s.enabled) (hg : g < 2^61) :
    granule (kasanKmalloc s b.addr size b.allocSize) g
      = if b.start ≤ 8*g ∧ 8*g < b.stop then (if b.start+size.toNat < 8*g+8 then kmallocRedzone else 0)
        else granule s g := by
  have hmod := b.addr_mod
  have hsize := b.size_mod
  have hfits := b.fits
  have hle' := UInt64.le_iff_toNat_le.mp hle
  have hrest : (b.allocSize-size).toNat = b.allocSize.toNat-size.toNat := UInt64.toNat_sub_of_le _ _ hle
  have hun := @granule_setShadow 0 s b.addr size g hs b.addr_ne (by omega) hg
  have hstart : b.start = b.addr.toNat := rfl
  have hstop : b.stop = b.addr.toNat+b.allocSize.toNat := rfl
  simp only [kasanKmalloc,hs,Bool.not_true,Bool.false_eq_true,if_false,kasanPoisonShadow,kasanUnpoisonShadow]
  by_cases hend : b.addr.toNat+size.toNat = 2^64
  · -- an object that ends with the address space has no redzone
    have hzero : b.addr+size = 0 := by
      rw [← UInt64.toNat_inj,UInt64.toNat_add,hend]
      rfl
    have hnone : setShadow (setShadow s b.addr size 0) (b.addr+size) (b.allocSize-size) kmallocRedzone
        = setShadow s b.addr size 0 := by
      simp [setShadow,hzero]
    rw [hnone,hun]
    split_ifs <;> first | rfl | omega
  · have hsum : (b.addr+size).toNat = b.addr.toNat+size.toNat := by
      rw [UInt64.toNat_add]
      omega
    have hne : b.addr+size ≠ 0 := by
      intro hz
      have := congrArg UInt64.toNat hz
      rw [hsum] at this
      exact b.addr_ne (UInt64.toNat_inj.mp (by simpa using (Nat.add_eq_zero_iff.mp this).1))
    rw [granule_setShadow (by simpa using hs) hne (by omega) hg,hun,hsum,hrest]
    split_ifs <;> first | rfl | omega

/-- A granule of one block is in no other one. -/
lemma not_in_other {i j : ι} (hij : j ≠ i) {g : ℕ} (hstart : (heap.block i).start ≤ 8*g)
    (hstop : 8*g < (heap.block i).stop) : ¬ ((heap.block j).start ≤ 8*g ∧ 8*g < (heap.block j).stop) := by
  have := heap.disjoint hij
  omega

end Granules

section Status
variable [DecidableEq ι]

inductive BlockState
  | untouched
  | live (size : UInt64)
  | freed

def BlockState.after (i : ι) (st : BlockState) : HeapCall heap → BlockState
  | .kmalloc j size _ _ => if j = i then .live size else st
  | .kfree j => if j = i then .freed else st

/-- What the calls have made of the block. -/
def status (calls : List (HeapCall heap)) (i : ι) : BlockState := calls.foldl (BlockState.after i) .untouched

/-- The bytes of the block that must not be touched. -/
def Bad (b : Block) (x : ℕ) : BlockState → Prop
  | .untouched => False
  | .live size => b.start+size.toNat ≤ x
  | .freed => True

/-- The mark of the granule `g` of the block, if there is one. -/
def mark (b : Block) (g : ℕ) : BlockState → Option UInt8
  | .untouched => none
  | .live size => some (if b.start+size.toNat < 8*g+8 then kmallocRedzone else 0)
  | .freed => some slabFree

def Allocated (calls : List (HeapCall heap)) (i : ι) : Prop := ∃ size hpos hle, .kmalloc i size hpos hle ∈ calls

lemma block_granule_lt {b : Block} {g : ℕ} (hg : 8*g < b.stop) : g < 2^61 := by
  have hfits := b.fits
  simp only [Block.stop] at hg
  omega

lemma granule_call {s : Sanitizer} (hs : s.enabled) (c : HeapCall heap) (i : ι) {g : ℕ}
    (hstart : (heap.block i).start ≤ 8*g) (hstop : 8*g < (heap.block i).stop) (st : BlockState) (old : UInt8)
    (hold : granule s g = (mark (heap.block i) g st).getD old) :
    granule (call s c) g = (mark (heap.block i) g (st.after i c)).getD old := by
  have hg := block_granule_lt hstop
  cases c with
  | kmalloc j size hpos hle =>
    rw [call,granule_kmalloc hle hs hg]
    by_cases hij : j = i
    · subst hij
      simp [hstart,hstop,BlockState.after,mark]
    · simpa [not_in_other hij hstart hstop,BlockState.after,hij] using hold
  | kfree j =>
    rw [call,granule_kfree hs hg]
    by_cases hij : j = i
    · subst hij
      simp [hstart,hstop,BlockState.after,mark]
    · simpa [not_in_other hij hstart hstop,BlockState.after,hij] using hold

/-- The shadow of a block is what its last call made it. -/
lemma granule_run {s : Sanitizer} (hs : s.enabled) (calls : List (HeapCall heap)) (i : ι) {g : ℕ}
    (hstart : (heap.block i).start ≤ 8*g) (hstop : 8*g < (heap.block i).stop) :
    granule (run s calls) g = (mark (heap.block i) g (status calls i)).getD (granule s g) := by
  induction calls using List.reverseRecOn with
  | nil => rfl
  | append_singleton calls c ih =>
    simp only [run,status,List.foldl_append,List.foldl_cons,List.foldl_nil] at ih ⊢
    exact granule_call (by simpa [run] using run_enabled (s := s) calls ▸ hs) c i hstart hstop _ _ ih

lemma status_ne_untouched {calls : List (HeapCall heap)} {i : ι} (h : Allocated calls i) :
    status calls i ≠ .untouched := by
  obtain ⟨size,hpos,hle,hmem⟩ := h
  induction calls using List.reverseRecOn with
  | nil => simp at hmem
  | append_singleton calls c ih =>
    simp only [status,List.foldl_append,List.foldl_cons,List.foldl_nil] at ih ⊢
    rcases List.mem_append.mp hmem with hmem | hmem
    · have hst := ih hmem
      cases c <;> simp only [BlockState.after] <;> split <;> simp [hst]
    · rw [← List.mem_singleton.mp hmem]
      simp [BlockState.after]

/-- The marks are right: a granule of a block that has been allocated is marked if and only if it has a
byte that must not be touched. -/
theorem marked_iff_bad {s : Sanitizer} (hs : s.enabled) {calls : List (HeapCall heap)} {i : ι}
    (h : Allocated calls i) {g : ℕ} (hstart : (heap.block i).start ≤ 8*g) (hstop : 8*g < (heap.block i).stop) :
    granule (run s calls) g ≠ 0 ↔ ∃ x, 8*g ≤ x ∧ x < 8*g+8 ∧ Bad (heap.block i) x (status calls i) := by
  rw [granule_run hs calls i hstart hstop]
  cases hst : status calls i with
  | untouched => exact absurd hst (status_ne_untouched h)
  | live size =>
    simp only [mark,Option.getD_some,Bad]
    constructor
    · intro hmark
      refine ⟨8*g+7,by omega,by omega,?_⟩
      by_contra hlt
      exact hmark (if_neg (by omega))
    · rintro ⟨x,hle,hlt,hbad⟩
      rw [if_pos (by omega)]
      decide
  | freed => exact ⟨fun _ => ⟨8*g,Nat.le_refl _,by omega,trivial⟩,fun _ => by simp [mark,slabFree]⟩

/-- The access of `n` bytes touches a byte of the block that must not be touched. -/
def TouchesBad (calls : List (HeapCall heap)) (i : ι) (addr n : UInt64) : Prop :=
  ∃ x, addr.toNat ≤ x ∧ x < addr.toNat+n.toNat ∧ Bad (heap.block i) x (status calls i)

/-- The offset in the granule is below every mark. -/
lemma kasanCheck_eq_none {s : Sanitizer} {addr n : UInt64} (write : Bool)
    (hmark : granule s (addr.toNat/8) = 0 ∨ 8 ≤ (granule s (addr.toNat/8)).toNat) :
    kasanCheck s addr n write = none := by
  have hlast : ((addr+n-1) &&& shadowMask).toNat < 8 := by
    rw [toNat_and_mask]
    omega
  simp only [granule,← memToShadow_eq] at hmark
  simp only [kasanCheck,ge_iff_le,UInt64.le_iff_toNat_le,UInt8.toNat_toUInt64]
  split_ifs with h₁ h₂ h₃ h₄
  · rfl
  · rfl
  · rfl
  · rcases hmark with hmark | hmark
    · exact absurd hmark h₃
    · omega
  · rfl

lemma mark_large (b : Block) (g : ℕ) {st : BlockState} (hst : st ≠ .untouched) (old : UInt8) :
    (mark b g st).getD old = 0 ∨ 8 ≤ ((mark b g st).getD old).toNat := by
  cases st with
  | untouched => exact absurd rfl hst
  | live size =>
    simp only [mark,Option.getD_some]
    split
    · exact .inr (by decide)
    · exact .inl rfl
  | freed => exact .inr (show 8 ≤ slabFree.toNat by decide)

/-- Since nothing is ever reported, the check is right about an access exactly if the access is. -/
theorem kasanCheck_exact_iff (memory : UInt64 → UInt8) (shadowBase shadowSize : UInt64)
    (calls : List (HeapCall heap)) (i : ι) (halloc : Allocated calls i) (addr n : UInt64) (write : Bool)
    (hn : 1 ≤ n.toNat) (hstart : (heap.block i).start ≤ addr.toNat)
    (hstop : addr.toNat+n.toNat ≤ (heap.block i).stop) :
    ((kasanCheck (run (kasanInit memory shadowBase shadowSize) calls) addr n write).isSome ↔
      TouchesBad calls i addr n) ↔ ¬ TouchesBad calls i addr n := by
  have hmod := (heap.block i).addr_mod
  have hmark : kasanCheck (run (kasanInit memory shadowBase shadowSize) calls) addr n write = none := by
    apply kasanCheck_eq_none
    rw [granule_run rfl calls i (by simp only [Block.start] at *; omega) (by omega)]
    exact mark_large _ _ (status_ne_untouched halloc) _
  simp [hmark]

end Status

/-- Sixteen bytes at address 64. -/
def smallHeap : Heap Unit where
  block _ := ⟨64,16,by decide,by decide,by decide,by decide⟩
  disjoint := fun _ _ h => absurd rfl h

def mallocSmall : HeapCall smallHeap := .kmalloc () 5 (by decide) (by decide)

/-- The five bytes of the object may be read. -/
theorem kasanCheck_exact_iff_object :
    (kasanCheck (run (kasanInit (fun _ => 0) 4096 64) [mallocSmall]) 64 5 false).isSome ↔
      TouchesBad [mallocSmall] () 64 5 := by
  refine (kasanCheck_exact_iff (fun _ => 0) 4096 64 [mallocSmall] () ⟨5,_,_,List.mem_singleton_self _⟩ 64 5 false
    (by decide) (by decide) (by decide)).mpr ?_
  rintro ⟨x,-,hlt,hbad⟩
  have hx : x < 69 := hlt
  have hbad : 69 ≤ x := hbad
  omega

/-- A read of the freed object and a write behind the live one go unnoticed. -/
theorem kasanCheck_misses :
    kasanCheck (run (kasanInit (fun _ => 0) 4096 64) [mallocSmall,.kfree ()]) 64 1 false = none ∧
      TouchesBad [mallocSmall,.kfree ()] () 64 1 ∧
      kasanCheck (run (kasanInit (fun _ => 0) 4096 64) [mallocSmall]) 72 1 true = none ∧
      TouchesBad [mallocSmall] () 72 1 :=
  ⟨by decide,⟨64,by decide,by decide,trivial⟩,by decide,⟨72,by decide,by decide,show (69 : ℕ) ≤ 72 by decide⟩⟩

end Heap
end Linuxab.Kasan
