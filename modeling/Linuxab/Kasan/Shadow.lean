import Linuxab.Base.Sweep
import Mathlib.Algebra.Group.Nat.Defs

/-! The address sanitizer of `rust/kasan.c`: one shadow byte tells about each granule of eight bytes. -/
namespace Linuxab.Kasan
open Linuxab.Base

def shadowScaleShift : UInt64 := 3
def shadowScaleSize : UInt64 := 1 <<< shadowScaleShift
def shadowMask : UInt64 := shadowScaleSize-1

def slabFree : UInt8 := 0xFC
def kmallocRedzone : UInt8 := 0xF6

/-- `kasan_shadow_base`, `kasan_enabled` and the memory that the shadow pointers reach. -/
structure Sanitizer where
  base : UInt64
  enabled : Bool
  memory : UInt64 → UInt8

def memToShadow (s : Sanitizer) (addr : UInt64) : UInt64 := s.base+(addr >>> shadowScaleShift)

def addrValid (addr : UInt64) : Bool := addr != 0

/-- `for (i = 0; i < n; i++) p[i] = value;` -/
def fill (p n : UInt64) (value : UInt8) (memory : UInt64 → UInt8) : UInt64 → UInt8 :=
  sweep (fun i => p+UInt64.ofNat i) (fun _ _ => value) (List.range n.toNat) memory

def kasanInit (memory : UInt64 → UInt8) (shadowBase shadowSize : UInt64) : Sanitizer :=
  ⟨shadowBase,true,fill shadowBase shadowSize 0 memory⟩

/-- The whole granules and the partial last one. -/
def setWhole (p size : UInt64) (value : UInt8) (memory : UInt64 → UInt8) : UInt64 → UInt8 :=
  let memory := fill p (size >>> shadowScaleShift) value memory
  if size &&& shadowMask ≠ 0 then Function.update memory (p+(size >>> shadowScaleShift)) value else memory

/-- The common body of `kasan_poison_shadow` and `kasan_unpoison_shadow`. -/
def setShadow (s : Sanitizer) (addr size : UInt64) (value : UInt8) : Sanitizer :=
  if !s.enabled || addr = 0 then s
  else
    let shadow := memToShadow s addr
    let aligned := addr &&& shadowMask
    if aligned ≠ 0 then
      let memory := Function.update s.memory shadow value
      let shadow := shadow+1
      if size < shadowScaleSize-aligned then { s with memory := memory }
      else { s with memory := setWhole shadow (size-(shadowScaleSize-aligned)) value memory }
    else { s with memory := setWhole shadow size value s.memory }

def kasanPoisonShadow (s : Sanitizer) (addr size : UInt64) (value : UInt8) : Sanitizer := setShadow s addr size value

def kasanUnpoisonShadow (s : Sanitizer) (addr size : UInt64) : Sanitizer := setShadow s addr size 0

def kasanKmalloc (s : Sanitizer) (addr size allocSize : UInt64) : Sanitizer :=
  if !s.enabled then s
  else kasanPoisonShadow (kasanUnpoisonShadow s addr size) (addr+size) (allocSize-size) kmallocRedzone

def kasanKfree (s : Sanitizer) (addr size : UInt64) : Sanitizer :=
  if !s.enabled then s else kasanPoisonShadow s addr size slabFree

/-- The arguments of `kasan_report` without the caller's address. -/
structure KasanReport where
  addr : UInt64
  size : UInt64
  write : Bool
  deriving DecidableEq

/-- The report that the check makes, if it makes one. -/
def kasanCheck (s : Sanitizer) (addr size : UInt64) (write : Bool) : Option KasanReport :=
  if !s.enabled then none
  else if !addrValid addr then none
  else
    let shadowVal := s.memory (memToShadow s addr)
    if shadowVal = 0 then none
    else
      let lastByte := (addr+size-1) &&& shadowMask
      if lastByte ≥ shadowVal.toUInt64 then some ⟨addr,size,write⟩ else none

section Granules

/-- The shadow byte of the granule `g`. -/
def granule (s : Sanitizer) (g : ℕ) : UInt8 := s.memory (s.base+UInt64.ofNat g)

lemma shiftRight_eq (a : UInt64) : a >>> shadowScaleShift = UInt64.ofNat (a.toNat/8) := by
  have ha := a.toNat_lt
  have hshift : shadowScaleShift.toNat = 3 := rfl
  apply UInt64.toNat_inj.mp
  simp only [UInt64.toNat_shiftRight,hshift,Nat.shiftRight_eq_div_pow,UInt64.toNat_ofNat',Nat.reduceMod,
    Nat.reducePow]
  omega

lemma toNat_and_mask (a : UInt64) : (a &&& shadowMask).toNat = a.toNat % 8 := by
  have hmask : shadowMask.toNat = 2^3-1 := by decide
  rw [UInt64.toNat_and,hmask,Nat.and_two_pow_sub_one_eq_mod]

lemma ofNat_inj_of_lt {a b : ℕ} (ha : a < 2^64) (hb : b < 2^64) : UInt64.ofNat a = UInt64.ofNat b ↔ a = b := by
  rw [← UInt64.toNat_inj,UInt64.toNat_ofNat',UInt64.toNat_ofNat',Nat.mod_eq_of_lt ha,Nat.mod_eq_of_lt hb]

variable {base : UInt64} {memory : UInt64 → UInt8} {value : UInt8}

/-- A fill, from the granules it covers. -/
lemma fill_granule {first g : ℕ} {n : UInt64} (hfit : first+n.toNat ≤ 2^64) (hg : g < 2^64) :
    fill (base+UInt64.ofNat first) n value memory (base+UInt64.ofNat g)
      = if first ≤ g ∧ g < first+n.toNat then value else memory (base+UInt64.ofNat g) := by
  have hcond : (∃ i ∈ List.range n.toNat, base+UInt64.ofNat first+UInt64.ofNat i = base+UInt64.ofNat g) ↔
      first ≤ g ∧ g < first+n.toNat := by
    simp only [List.mem_range,UInt64.add_assoc,UInt64.add_right_inj,← UInt64.ofNat_add]
    constructor
    · rintro ⟨i,hi,he⟩
      have := (ofNat_inj_of_lt (by omega) hg).mp he
      omega
    · rintro ⟨hle,hlt⟩
      exact ⟨g-first,by omega,by rw [Nat.add_sub_cancel' hle]⟩
  rw [fill,sweep_fill]
  simp only [hcond]

lemma setWhole_granule {first g : ℕ} {size : UInt64} (hfit : 8*first+size.toNat ≤ 2^64) (hg : g < 2^61) :
    setWhole (base+UInt64.ofNat first) size value memory (base+UInt64.ofNat g)
      = if first ≤ g ∧ 8*g < 8*first+size.toNat then value else memory (base+UInt64.ofNat g) := by
  have hsize := size.toNat_lt
  have hwhole : (size >>> shadowScaleShift).toNat = size.toNat/8 := by
    rw [shiftRight_eq,UInt64.toNat_ofNat']
    omega
  have hfill := @fill_granule base memory value first g (size >>> shadowScaleShift) (by omega) (by omega)
  have hmask : size &&& shadowMask ≠ 0 ↔ size.toNat % 8 ≠ 0 := by
    rw [Ne,← UInt64.toNat_inj,toNat_and_mask]
    rfl
  rw [hwhole] at hfill
  simp only [setWhole,hmask]
  by_cases hpart : size.toNat % 8 = 0
  · simp only [hpart,ne_eq,not_true_eq_false,if_false,hfill]
    congr 1
    simp only [eq_iff_iff]
    omega
  · have hlast : base+UInt64.ofNat g = base+UInt64.ofNat first+(size >>> shadowScaleShift) ↔
        g = first+size.toNat/8 := by
      rw [shiftRight_eq,UInt64.add_assoc,UInt64.add_right_inj,← UInt64.ofNat_add,
        ofNat_inj_of_lt (by omega) (by omega)]
    simp only [hpart,ne_eq,not_false_eq_true,if_true,Function.update_apply,hlast,hfill]
    split_ifs <;> first | rfl | omega

variable {s : Sanitizer} {addr size : UInt64}

@[simp] lemma setShadow_base : (setShadow s addr size value).base = s.base := by
  simp only [setShadow]
  split_ifs <;> rfl

@[simp] lemma setShadow_enabled : (setShadow s addr size value).enabled = s.enabled := by
  simp only [setShadow]
  split_ifs <;> rfl

lemma memToShadow_eq : memToShadow s addr = s.base+UInt64.ofNat (addr.toNat/8) := by
  rw [memToShadow,shiftRight_eq]

/-- Setting the shadow of a range marks every granule that the range touches, and the granule in the
middle of which it starts. -/
lemma granule_setShadow {g : ℕ} (hs : s.enabled) (haddr : addr ≠ 0) (hfit : addr.toNat+size.toNat ≤ 2^64)
    (hg : g < 2^61) : granule (setShadow s addr size value) g
      = if addr.toNat/8 ≤ g ∧ (8*g < addr.toNat+size.toNat ∨ addr.toNat % 8 ≠ 0 ∧ g = addr.toNat/8) then value
        else granule s g := by
  have hmask : addr &&& shadowMask ≠ 0 ↔ addr.toNat % 8 ≠ 0 := by
    rw [Ne,← UInt64.toNat_inj,toNat_and_mask]
    rfl
  have haddr' := addr.toNat_lt
  simp only [granule,setShadow_base]
  simp only [setShadow,hs,haddr,Bool.not_true,decide_false,Bool.or_false,Bool.false_eq_true,if_false,hmask]
  by_cases haligned : addr.toNat % 8 = 0
  · simp only [haligned,ne_eq,not_true_eq_false,if_false,memToShadow_eq,false_and,or_false]
    rw [setWhole_granule (by omega) hg]
    congr 1
    simp only [eq_iff_iff]
    omega
  · -- the rest of the first granule
    have hrest : (shadowScaleSize-(addr &&& shadowMask)).toNat = 8-addr.toNat % 8 := by
      have hsize : shadowScaleSize.toNat = 8 := by decide
      rw [UInt64.toNat_sub_of_le,toNat_and_mask,hsize]
      rw [UInt64.le_iff_toNat_le,toNat_and_mask,hsize]
      omega
    have hfirst : s.base+UInt64.ofNat g = memToShadow s addr ↔ g = addr.toNat/8 := by
      rw [memToShadow_eq,UInt64.add_right_inj,ofNat_inj_of_lt (by omega) (by omega)]
    have hnext : memToShadow s addr+1 = s.base+UInt64.ofNat (addr.toNat/8+1) := by
      rw [memToShadow_eq,UInt64.add_assoc,UInt64.ofNat_add]
      rfl
    simp only [haligned,ne_eq,not_false_eq_true,if_true,true_and]
    by_cases hshort : size < shadowScaleSize-(addr &&& shadowMask)
    · have hlt := UInt64.lt_iff_toNat_lt.mp hshort
      rw [hrest] at hlt
      simp only [hshort,if_true,Function.update_apply,hfirst]
      split_ifs <;> first | rfl | omega
    · have hle : shadowScaleSize-(addr &&& shadowMask) ≤ size := UInt64.not_lt.mp hshort
      have hsub : (size-(shadowScaleSize-(addr &&& shadowMask))).toNat = size.toNat-(8-addr.toNat % 8) := by
        rw [UInt64.toNat_sub_of_le _ _ hle,hrest]
      have hle' := UInt64.le_iff_toNat_le.mp hle
      rw [hrest] at hle'
      simp only [hshort,if_false]
      rw [hnext,setWhole_granule (by omega) hg,hsub]
      simp only [Function.update_apply,hfirst]
      split_ifs <;> first | rfl | omega

end Granules

section Exactness

/-- The granule has a byte of the range. -/
def Touches (addr size : UInt64) (g : ℕ) : Prop := ∃ a, addr.toNat ≤ a ∧ a < addr.toNat+size.toNat ∧ a/8 = g

lemma touches_iff {addr size : UInt64} {g : ℕ} :
    Touches addr size g ↔ size.toNat ≠ 0 ∧ addr.toNat/8 ≤ g ∧ 8*g < addr.toNat+size.toNat := by
  constructor
  · rintro ⟨a,hle,hlt,rfl⟩
    omega
  · rintro ⟨hsize,hle,hlt⟩
    -- the first byte of the range, or of the granule if that lies behind it
    exact ⟨max addr.toNat (8*g),by omega,by omega,by omega⟩

/-- The shadow bytes of the granules that the range touches are set, and no other ones. -/
structure PoisonsExactly (s : Sanitizer) (addr size : UInt64) (value : UInt8) : Prop where
  inside : ∀ g < 2^61, Touches addr size g → granule (kasanPoisonShadow s addr size value) g = value
  outside : ∀ g < 2^61, ¬Touches addr size g → granule (kasanPoisonShadow s addr size value) g = granule s g

/-- The one exception is an empty range that starts in the middle of a granule. -/
theorem poison_exact_iff (addr size : UInt64) (haddr : addr ≠ 0) (hfit : addr.toNat+size.toNat ≤ 2^64) :
    (∀ s value, s.enabled → PoisonsExactly s addr size value) ↔ size ≠ 0 ∨ addr.toNat % 8 = 0 := by
  have hlt := addr.toNat_lt
  have hzero : size = 0 ↔ size.toNat = 0 := UInt64.toNat_inj.symm
  constructor
  · intro h
    by_contra hempty
    rw [not_or,not_not,hzero] at hempty
    have hnot : ¬Touches addr size (addr.toNat/8) := fun ht => (touches_iff.mp ht).1 hempty.1
    have hkeep := (h ⟨0,true,fun _ => 0⟩ 1 rfl).outside (addr.toNat/8) (by omega) hnot
    rw [kasanPoisonShadow,granule_setShadow rfl haddr hfit (by omega),
      if_pos ⟨Nat.le_refl _,.inr ⟨hempty.2,rfl⟩⟩] at hkeep
    change (1 : UInt8) = 0 at hkeep
    exact absurd hkeep (by decide)
  · intro hrange s value hs
    rw [Ne,hzero] at hrange
    refine ⟨fun g hg ht => ?_,fun g hg ht => ?_⟩
    · rw [touches_iff] at ht
      rw [kasanPoisonShadow,granule_setShadow hs haddr hfit hg,if_pos ⟨ht.2.1,.inl ht.2.2⟩]
    · rw [touches_iff] at ht
      rw [kasanPoisonShadow,granule_setShadow hs haddr hfit hg,if_neg (by omega)]

/-- Two granules are touched, the first and the last one in part. -/
theorem poison_exact_two : PoisonsExactly ⟨0x100,true,fun _ => 0⟩ 13 6 0xFC :=
  (poison_exact_iff 13 6 (by decide) (by decide)).mpr (.inl (by decide)) ⟨0x100,true,fun _ => 0⟩ 0xFC rfl

/-- No byte at address 9, and the granule of the bytes 8 to 15 is poisoned. -/
theorem poison_empty_range : ¬Touches 9 0 1 ∧ granule ⟨0x100,true,fun _ => 0⟩ 1 = 0 ∧
    granule (kasanPoisonShadow ⟨0x100,true,fun _ => 0⟩ 9 0 0xFC) 1 = 0xFC := by
  refine ⟨?_,by decide,by decide⟩
  rw [touches_iff]
  decide

end Exactness
end Linuxab.Kasan
