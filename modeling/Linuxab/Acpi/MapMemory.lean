import Linuxab.Base.Fold
import Linuxab.Base.Sweep
import Mathlib.Algebra.Group.Nat.Defs
import Mathlib.Data.Int.Notation

/-! The mappings of kernel/drivers/accel/acpi_tables.c: each call takes the next pages behind the kernel. -/
namespace Linuxab.Acpi
open Linuxab.Base

structure PageEntry where
  frame : ℕ
  flags : UInt64
  deriving DecidableEq

/-- `acpi_osl_map_base` and the page table, by page numbers. -/
structure Osl where
  mapBase : UInt64
  table : ℕ → Option PageEntry

/-- The initial value of `acpi_osl_map_base`. -/
def ACPI_OSL_MAP_BASE : UInt64 := 0xFFFFFFFF81000000

namespace Osl

/-- The loop over `map_page`, which maps the page of an address to the page of another. -/
def mapPages (table : ℕ → Option PageEntry) (vaddr phys pages : UInt64) : ℕ → Option PageEntry :=
  sweep (fun i => (vaddr+UInt64.ofNat i*4096).toNat/4096)
    (fun _ i => some ⟨(phys+UInt64.ofNat i*4096).toNat/4096,0x03⟩) (List.range pages.toNat) table

/-- The return value, `*virt` and the new state. -/
def acpiOsMapMemory (s : Osl) (phys size : UInt64) : ℤ × UInt64 × Osl :=
  let pages := (size+4095)/4096
  let vaddr := s.mapBase
  (0,vaddr+(phys &&& 0xFFF),⟨s.mapBase+pages*4096,mapPages s.table vaddr phys pages⟩)

/-- The physical address that a virtual one is mapped to. -/
def translate (s : Osl) (a : UInt64) : Option UInt64 :=
  (s.table (a.toNat/4096)).map fun e => UInt64.ofNat (e.frame*4096+a.toNat%4096)

end Osl

/-- The arguments of a call. -/
structure MapCall where
  phys : UInt64
  size : UInt64

namespace MapCall
variable (c : MapCall)

def pages : ℕ := (c.size.toNat+4095)/4096

/-- The call overflows neither in physical nor in virtual addresses. -/
def Fits (base : ℕ) : Prop := c.phys.toNat+c.size.toNat ≤ 2^64 ∧ base+c.pages*4096 < 2^64

instance (base : ℕ) : Decidable (c.Fits base) := inferInstanceAs (Decidable (_ ∧ _))

/-- The pages hold the range although it does not start at the start of the first one. -/
def Enough : Prop := c.phys.toNat%4096+c.size.toNat ≤ c.pages*4096

instance : Decidable c.Enough := inferInstanceAs (Decidable (_ ≤ _))

variable {c}

lemma toNat_size_pos (h : c.size ≠ 0) : 0 < c.size.toNat :=
  Nat.pos_of_ne_zero fun hzero => h (UInt64.toNat_inj.mp hzero)

end MapCall

/-- No call of the sequence overflows. -/
def NoOverflow : ℕ → List MapCall → Prop := Along (fun base c => base+c.pages*4096) (fun base c => c.Fits base)

namespace Osl
variable {s t u : Osl} {c : MapCall}

def call (s : Osl) (c : MapCall) : Osl := (s.acpiOsMapMemory c.phys c.size).2.2

def virt (s : Osl) (c : MapCall) : UInt64 := (s.acpiOsMapMemory c.phys c.size).2.1

def run (s : Osl) (calls : List MapCall) : Osl := calls.foldl call s

/-- Every call maps its range, byte for byte, and no later call changes that. -/
def MapsItsRanges (s : Osl) (calls : List MapCall) : Prop :=
  ∀ before c later, calls = before ++ c::later → ∀ k < c.size,
    ((s.run before).call c).translate ((s.run before).virt c+k) = some (c.phys+k) ∧
    ∀ middle, middle <+: later →
      (((s.run before).call c).run middle).translate ((s.run before).virt c+k) =
        ((s.run before).call c).translate ((s.run before).virt c+k)

section Call

lemma toNat_pages (hc : c.Fits s.mapBase.toNat) : ((c.size+4095)/4096).toNat = c.pages := by
  have hfits := hc.2
  rw [MapCall.pages] at hfits ⊢
  rw [UInt64.toNat_div,UInt64.toNat_add,Nat.mod_eq_of_lt]
  · rfl
  · change c.size.toNat+4095 < _
    omega

lemma toNat_virt (hsize : c.size ≠ 0) (hc : c.Fits s.mapBase.toNat) :
    (s.virt c).toNat = s.mapBase.toNat+c.phys.toNat%4096 := by
  have hpos := MapCall.toNat_size_pos hsize
  have hfits := hc.2
  have hmask : (c.phys &&& 0xFFF).toNat = c.phys.toNat%4096 := by
    rw [UInt64.toNat_and]
    exact Nat.and_two_pow_sub_one_eq_mod c.phys.toNat 12
  rw [MapCall.pages] at hfits
  change (s.mapBase+(c.phys &&& 0xFFF)).toNat = _
  rw [UInt64.toNat_add,hmask]
  omega

lemma call_mapBase (hc : c.Fits s.mapBase.toNat) : (s.call c).mapBase.toNat = s.mapBase.toNat+c.pages*4096 := by
  have hfits := hc.2
  change (s.mapBase+(c.size+4095)/4096*4096).toNat = _
  rw [UInt64.toNat_add,UInt64.toNat_mul,toNat_pages hc]
  change (_+c.pages*4096%_)%_ = _
  omega

/-- The address of a page of a range that does not overflow. -/
lemma toNat_page {a : UInt64} {i : ℕ} (h : a.toNat+i*4096 < 2^64) :
    (a+UInt64.ofNat i*4096).toNat/4096 = a.toNat/4096+i := by
  rw [UInt64.toNat_add,UInt64.toNat_mul,UInt64.toNat_ofNat']
  change (_+i%_*4096%_)%_/_ = _
  omega

/-- The pages of a call are the next ones, in order. -/
lemma call_table (hc : c.Fits s.mapBase.toNat) (n : ℕ) :
    (s.call c).table n = if s.mapBase.toNat/4096 ≤ n ∧ n < s.mapBase.toNat/4096+c.pages
      then some ⟨c.phys.toNat/4096+(n-s.mapBase.toNat/4096),0x03⟩ else s.table n := by
  have hfits := hc.2
  have hphys := hc.1
  have hpages : c.pages = (c.size.toNat+4095)/4096 := rfl
  have hsweep : (s.call c).table = sweep (fun i => s.mapBase.toNat/4096+i)
      (fun _ i => some ⟨c.phys.toNat/4096+i,0x03⟩) (List.range c.pages) s.table := by
    change mapPages s.table s.mapBase c.phys ((c.size+4095)/4096) = _
    rw [mapPages,toNat_pages hc]
    apply sweep_congr
    · intro i hi
      have hi := List.mem_range.mp hi
      have hle : i*4096 ≤ c.pages*4096 := Nat.mul_le_mul_right 4096 (Nat.le_of_lt hi)
      have hpage : s.mapBase.toNat+i*4096 < 2^64 := Nat.lt_of_le_of_lt (Nat.add_le_add_left hle _) hfits
      exact toNat_page hpage
    · intro i hi _
      have hi := List.mem_range.mp hi
      have hframe : c.phys.toNat+i*4096 < 2^64 := by omega
      rw [toNat_page hframe]
  rw [hsweep]
  exact sweep_range_add s.table _ _ (fun i => some (PageEntry.mk (c.phys.toNat/4096+i) 0x03)) n

end Call

/-- The base has moved on, and only the pages that it passed have changed. -/
structure Extends (s t : Osl) : Prop where
  aligned : t.mapBase.toNat%4096 = 0
  grown : s.mapBase.toNat ≤ t.mapBase.toNat
  outside : ∀ n, n < s.mapBase.toNat/4096 ∨ t.mapBase.toNat/4096 ≤ n → t.table n = s.table n

section Run
variable {calls : List MapCall}

lemma Extends.trans (h : Extends s t) (h' : Extends t u) : Extends s u := by
  refine ⟨h'.aligned,Nat.le_trans h.grown h'.grown,fun n hn => ?_⟩
  have hst := h.grown
  have htu := h'.grown
  rw [h'.outside n (by omega),h.outside n (by omega)]

lemma call_extends (hs : s.mapBase.toNat%4096 = 0) (hc : c.Fits s.mapBase.toNat) : Extends s (s.call c) := by
  have hbase := call_mapBase hc
  refine ⟨by omega,by omega,fun n hn => ?_⟩
  rw [call_table hc,if_neg (by omega)]

lemma run_extends (hs : s.mapBase.toNat%4096 = 0) (h : NoOverflow s.mapBase.toNat calls) : Extends s (s.run calls) := by
  induction calls generalizing s with
  | nil => exact ⟨hs,Nat.le_refl _,fun _ _ => rfl⟩
  | cons c calls ih =>
    have hcall := call_extends hs h.1
    have hrest : NoOverflow (s.call c).mapBase.toNat calls := call_mapBase h.1 ▸ h.2
    exact hcall.trans (ih hcall.aligned hrest)

lemma run_mapBase (h : NoOverflow s.mapBase.toNat calls) :
    (s.run calls).mapBase.toNat = calls.foldl (fun base c => base+c.pages*4096) s.mapBase.toNat := by
  induction calls generalizing s with
  | nil => rfl
  | cons c calls ih =>
    rw [List.foldl_cons,← call_mapBase h.1]
    exact ih (call_mapBase h.1 ▸ h.2)

/-- A call within a sequence, and the calls after it, do not overflow from where they start. -/
lemma noOverflow_at {before later : List MapCall} (h : NoOverflow s.mapBase.toNat (before ++ c::later)) :
    NoOverflow s.mapBase.toNat before ∧ c.Fits (s.run before).mapBase.toNat ∧
    NoOverflow ((s.run before).call c).mapBase.toNat later := by
  obtain ⟨hbefore,hc,hlater⟩ := along_append.mp h
  rw [← run_mapBase hbefore] at hc hlater
  exact ⟨hbefore,hc,call_mapBase hc ▸ hlater⟩

end Run

section Range
variable {k : UInt64}

/-- The position of a byte of a range that the pages hold. -/
lemma toNat_virt_add (hsize : c.size ≠ 0) (hc : c.Fits s.mapBase.toNat)
    (hk : c.phys.toNat%4096+k.toNat ≤ c.pages*4096) :
    (s.virt c+k).toNat = s.mapBase.toNat+(c.phys.toNat%4096+k.toNat) := by
  have hfits := hc.2
  rw [UInt64.toNat_add,toNat_virt hsize hc]
  omega

lemma call_translate (hs : s.mapBase.toNat%4096 = 0) (hc : c.Fits s.mapBase.toNat) (henough : c.Enough)
    (hk : k < c.size) : (s.call c).translate (s.virt c+k) = some (c.phys+k) := by
  have hk := UInt64.lt_iff_toNat_lt.mp hk
  have hphys := hc.1
  have hsize : c.size ≠ 0 := by
    rintro h
    rw [h] at hk
    exact Nat.not_lt_zero _ hk
  rw [MapCall.Enough] at henough
  rw [translate,toNat_virt_add hsize hc (by omega),call_table hc,if_pos (by omega),Option.map_some,Option.some_inj,
    ← UInt64.toNat_inj,UInt64.toNat_ofNat',UInt64.toNat_add]
  dsimp only
  congr 1
  omega

lemma virt_add_below (hs : s.mapBase.toNat%4096 = 0) (hsize : c.size ≠ 0) (hc : c.Fits s.mapBase.toNat)
    (henough : c.Enough) (hk : k < c.size) : (s.virt c+k).toNat/4096 < (s.call c).mapBase.toNat/4096 := by
  have hk := UInt64.lt_iff_toNat_lt.mp hk
  rw [MapCall.Enough] at henough
  rw [toNat_virt_add hsize hc (by omega),call_mapBase hc]
  omega

/-- A range that the pages do not hold has a byte right behind them. -/
lemma exists_behind (hsize : c.size ≠ 0) (hc : c.Fits s.mapBase.toNat) (henough : ¬c.Enough) :
    ∃ k < c.size, (s.virt c+k).toNat = s.mapBase.toNat+c.pages*4096 := by
  have hpos := MapCall.toNat_size_pos hsize
  have hpages : c.pages = (c.size.toNat+4095)/4096 := rfl
  have hlt := c.size.toNat_lt
  rw [MapCall.Enough] at henough
  have hk : (UInt64.ofNat (c.pages*4096-c.phys.toNat%4096)).toNat = c.pages*4096-c.phys.toNat%4096 :=
    Nat.mod_eq_of_lt (by omega)
  refine ⟨UInt64.ofNat (c.pages*4096-c.phys.toNat%4096),?_,?_⟩
  · rw [UInt64.lt_iff_toNat_lt,hk]
    omega
  · rw [toNat_virt_add hsize hc (by omega),hk]
    omega

end Range
end Osl

/-- Every call maps its whole range exactly if the pages, counted from the size alone, are enough where the
range starts. -/
theorem map_memory_iff (calls : List MapCall) (hsize : ∀ c ∈ calls, c.size ≠ 0)
    (hfits : NoOverflow ACPI_OSL_MAP_BASE.toNat calls) :
    (∀ table, Osl.MapsItsRanges ⟨ACPI_OSL_MAP_BASE,table⟩ calls) ↔ ∀ c ∈ calls, c.Enough := by
  have haligned : ACPI_OSL_MAP_BASE.toNat%4096 = 0 := by decide
  constructor
  · intro h c hmem
    by_contra henough
    obtain ⟨before,later,rfl⟩ := List.append_of_mem hmem
    obtain ⟨hbefore,hc,-⟩ := Osl.noOverflow_at (s := ⟨ACPI_OSL_MAP_BASE,fun _ => none⟩) hfits
    have hstart := Osl.run_extends (s := ⟨ACPI_OSL_MAP_BASE,fun _ => none⟩) haligned hbefore
    obtain ⟨k,hk,hbehind⟩ := Osl.exists_behind (hsize c hmem) hc henough
    -- nothing has been mapped there yet
    have hnone := (h (fun _ => none) before c later rfl k hk).1
    rw [Osl.translate,(hstart.trans (Osl.call_extends hstart.aligned hc)).outside _ (.inr _)] at hnone
    · cases hnone
    · rw [Osl.call_mapBase hc,hbehind]
  · rintro h table before c later rfl k hk
    obtain ⟨hbefore,hc,hlater⟩ := Osl.noOverflow_at (s := ⟨ACPI_OSL_MAP_BASE,table⟩) hfits
    have hstart := Osl.run_extends (s := ⟨ACPI_OSL_MAP_BASE,table⟩) haligned hbefore
    have hcall := Osl.call_extends hstart.aligned hc
    have henough := h c (by simp)
    refine ⟨Osl.call_translate hstart.aligned hc henough hk,?_⟩
    rintro middle ⟨rest,rfl⟩
    have hmiddle := Osl.run_extends hcall.aligned (along_append.mp hlater).1
    have hbelow := Osl.virt_add_below hstart.aligned (hsize c (by simp)) hc henough hk
    rw [Osl.translate,Osl.translate,hmiddle.outside _ (.inl hbelow)]

/-- A range of one page and one that ends with its page. -/
theorem map_memory_two : (∀ table, Osl.MapsItsRanges ⟨ACPI_OSL_MAP_BASE,table⟩ [⟨0x1000,0x1000⟩,⟨0x5FFF,1⟩]) ↔
    ∀ c ∈ [(⟨0x1000,0x1000⟩ : MapCall),⟨0x5FFF,1⟩], c.Enough :=
  map_memory_iff _ (by decide) (by rw [NoOverflow]; decide)

/-- Two bytes across the end of a page: the second one is not mapped, and the next call maps it elsewhere. -/
theorem map_memory_short : ∃ (s : Osl) (first second : MapCall), s.mapBase = ACPI_OSL_MAP_BASE ∧
    first.phys = 0x1FFF ∧ first.size = 2 ∧ NoOverflow ACPI_OSL_MAP_BASE.toNat [first,second] ∧
    (s.call first).translate (s.virt first+1) = none ∧
    (s.run [first,second]).translate (s.virt first+1) = some 0x8000 := by
  refine ⟨⟨ACPI_OSL_MAP_BASE,fun _ => none⟩,⟨0x1FFF,2⟩,⟨0x8000,1⟩,rfl,rfl,rfl,?_,?_,?_⟩
  · rw [NoOverflow]
    decide
  · rfl
  · rfl

end Linuxab.Acpi
