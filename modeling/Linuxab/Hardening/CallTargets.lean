import Linuxab.Base.Bitmap
import Linuxab.Base.Fold
import Linuxab.Base.Sweep

/-! The table of call targets of rust/cfi.c: one bit for each address of the code region. -/
namespace Linuxab.Hardening
open Linuxab.Base

def CFI_BITMAP_BITS : ℕ := 256*1024*1024
def CFI_BITMAP_SIZE : ℕ := CFI_BITMAP_BITS/8

/-- `cfi_bitmap`, which may be NULL, with the bytes behind it, `cfi_enabled` and `cfi_code_base`, and the
indices at which the bitmap was accessed. -/
structure Cfi where
  present : Bool
  bitmap : ℕ → BitVec 8
  enabled : Bool
  codeBase : UInt64
  accessed : List ℕ

namespace Cfi

/-- The size of the region is only printed. -/
def cfiInit (s : Cfi) (codeStart _codeSize : UInt64) : Cfi :=
  let s := { s with codeBase := codeStart }
  if !s.present then s
  else { s with
    bitmap := sweep id (fun _ _ => 0) (List.range CFI_BITMAP_SIZE) s.bitmap
    accessed := s.accessed ++ List.range CFI_BITMAP_SIZE
    enabled := true }

/-- The checks of an address that is not NULL, and its offset in the code region. -/
def targetOffset (codeBase addr : UInt64) : Option ℕ :=
  if addr = 0 then none
  else if addr < codeBase then none
  else if (addr-codeBase).toNat ≥ CFI_BITMAP_BITS then none
  else some (addr-codeBase).toNat

/-- A byte is read, changed and stored back. -/
def modify (s : Cfi) (i : ℕ) (f : BitVec 8 → BitVec 8) : Cfi :=
  { s with bitmap := Function.update s.bitmap i (f (s.bitmap i)), accessed := s.accessed ++ [i] }

/-- The common body of `cfi_register_function` and `cfi_unregister_function`; `change` gets the bit and the
byte. -/
def atTarget (s : Cfi) (fn : UInt64) (change : ℕ → BitVec 8 → BitVec 8) : Cfi :=
  if !s.enabled then s
  else match targetOffset s.codeBase fn with
    | none => s
    | some offset => s.modify (offset/8) (change (offset%8))

/-- The byte and the mask are promoted to `int`. -/
def cfiRegisterFunction (s : Cfi) (fn : UInt64) : Cfi :=
  s.atTarget fn fun bit b => (b.setWidth 32 ||| 1#32 <<< bit).setWidth 8

def cfiUnregisterFunction (s : Cfi) (fn : UInt64) : Cfi :=
  s.atTarget fn fun bit b => (b.setWidth 32 &&& ~~~(1#32 <<< bit)).setWidth 8

/-- The verdict, and the indices at which the bitmap is read. -/
def cfiValidateCall (s : Cfi) (target : UInt64) : Bool × List ℕ :=
  if !s.enabled then (true,[])
  else match targetOffset s.codeBase target with
    | none => (false,[])
    | some offset => ((s.bitmap (offset/8)).setWidth 32 &&& 1#32 <<< (offset%8) ≠ 0,[offset/8])

end Cfi

inductive CfiCall
  | register (fn : UInt64)
  | unregister (fn : UInt64)
  deriving DecidableEq

def CfiCall.fn : CfiCall → UInt64
  | register fn | unregister fn => fn

namespace Cfi

def call (s : Cfi) : CfiCall → Cfi
  | .register fn => s.cfiRegisterFunction fn
  | .unregister fn => s.cfiUnregisterFunction fn

def run (s : Cfi) (calls : List CfiCall) : Cfi := calls.foldl call s

def verdict (s : Cfi) (target : UInt64) : Bool := (s.cfiValidateCall target).1

end Cfi

/-- The address is one of those that the bitmap has a bit for. -/
def InRegion (codeBase addr : UInt64) : Prop :=
  addr ≠ 0 ∧ codeBase.toNat ≤ addr.toNat ∧ addr.toNat < codeBase.toNat+CFI_BITMAP_BITS

/-- The last call on the address was a registration. -/
def LastRegistered (calls : List CfiCall) (addr : UInt64) : Prop :=
  ∃ pre c post, calls = pre ++ c::post ∧ c = .register addr ∧ ∀ d ∈ post, d ≠ .unregister addr

namespace Cfi
variable {s : Cfi} {codeBase addr fn : UInt64} {o : ℕ}

lemma targetOffset_eq_some_iff :
    targetOffset codeBase addr = some o ↔ InRegion codeBase addr ∧ o = addr.toNat-codeBase.toNat := by
  rw [targetOffset,InRegion]
  by_cases hzero : addr = 0
  · simp [hzero]
  by_cases hlt : addr < codeBase
  · have hlt' := UInt64.lt_iff_toNat_lt.mp hlt
    simp [hlt]
    omega
  · have hle := UInt64.not_lt.mp hlt
    have hle' := UInt64.le_iff_toNat_le.mp hle
    rw [UInt64.toNat_sub_of_le _ _ hle]
    simp [hzero,hlt]
    omega

/-- Addresses with one offset are the same. -/
lemma targetOffset_inj (h : targetOffset codeBase addr = some o) (h' : targetOffset codeBase fn = some o) :
    addr = fn := by
  obtain ⟨⟨-,hle,-⟩,ho⟩ := targetOffset_eq_some_iff.mp h
  obtain ⟨⟨-,hle',-⟩,ho'⟩ := targetOffset_eq_some_iff.mp h'
  exact UInt64.toNat_inj.mp (by omega)

/-- A call does nothing, or it changes one byte of the bitmap. -/
lemma atTarget_cases (s : Cfi) (fn : UInt64) (change : ℕ → BitVec 8 → BitVec 8) : s.atTarget fn change = s ∨
    ∃ o, targetOffset s.codeBase fn = some o ∧ s.atTarget fn change = s.modify (o/8) (change (o%8)) := by
  rw [atTarget]
  cases s.enabled with
  | false => exact .inl rfl
  | true =>
    cases ho : targetOffset s.codeBase fn with
    | none => exact .inl rfl
    | some o => exact .inr ⟨o,rfl,rfl⟩

lemma bitAt_register (hs : s.enabled = true) (fn : UInt64) (k : ℕ) : bitAt (s.cfiRegisterFunction fn).bitmap k = true ↔
    bitAt s.bitmap k = true ∨ targetOffset s.codeBase fn = some k := by
  simp only [cfiRegisterFunction,atTarget,hs,Bool.not_true,Bool.false_eq_true,if_false]
  cases targetOffset s.codeBase fn with
  | none => simp
  | some o =>
    simp only [modify,setWidth_or_mask (by decide : 8 ≤ 32)]
    rw [bitAt_set (by decide),Bool.or_eq_true,decide_eq_true_iff,Option.some.injEq,@eq_comm _ k o]

lemma bitAt_unregister (hs : s.enabled = true) (fn : UInt64) (k : ℕ) :
    bitAt (s.cfiUnregisterFunction fn).bitmap k = true ↔
      bitAt s.bitmap k = true ∧ ¬targetOffset s.codeBase fn = some k := by
  simp only [cfiUnregisterFunction,atTarget,hs,Bool.not_true,Bool.false_eq_true,if_false]
  cases targetOffset s.codeBase fn with
  | none => simp
  | some o =>
    simp only [modify,setWidth_and_not_mask (by decide : 8 ≤ 32)]
    rw [bitAt_clear (by decide),Bool.and_eq_true,Bool.not_eq_true',decide_eq_false_iff_not,Option.some.injEq,
      @eq_comm _ k o]

/-- The step lemma, for the bit of an address. -/
lemma bitAt_call (hs : s.enabled = true) (ho : targetOffset s.codeBase addr = some o) (c : CfiCall) :
    bitAt (s.call c).bitmap o = true ↔ c = .register addr ∨ bitAt s.bitmap o = true ∧ ¬c = .unregister addr := by
  have hsame (fn : UInt64) : targetOffset s.codeBase fn = some o ↔ fn = addr :=
    ⟨fun h => targetOffset_inj h ho,fun h => h ▸ ho⟩
  cases c with
  | register fn => simp [call,bitAt_register hs,hsame,or_comm]
  | unregister fn => simp [call,bitAt_unregister hs,hsame]

lemma verdict_eq_true_iff (hs : s.enabled = true) : s.verdict addr = true ↔
    ∃ o, targetOffset s.codeBase addr = some o ∧ bitAt s.bitmap o = true := by
  simp only [verdict,cfiValidateCall,hs,Bool.not_true,Bool.false_eq_true,if_false]
  cases targetOffset s.codeBase addr with
  | none => simp
  | some o =>
    have hb : o%8 < 8 := Nat.mod_lt o (by decide)
    simp only [decide_eq_true_iff,setWidth_and_mask_ne_zero_iff (by decide : 8 ≤ 32) hb,Option.some.injEq,
      exists_eq_left']
    rfl

lemma targetOffset_lt (h : targetOffset codeBase addr = some o) : o/8 < CFI_BITMAP_SIZE := by
  obtain ⟨⟨-,hle,hlt⟩,rfl⟩ := targetOffset_eq_some_iff.mp h
  rw [CFI_BITMAP_BITS] at hlt
  rw [CFI_BITMAP_SIZE,CFI_BITMAP_BITS]
  omega

lemma exists_call_eq (s : Cfi) (c : CfiCall) : ∃ change, s.call c = s.atTarget c.fn change := by
  cases c with
  | register fn => exact ⟨fun bit b => (b.setWidth 32 ||| 1#32 <<< bit).setWidth 8,rfl⟩
  | unregister fn => exact ⟨fun bit b => (b.setWidth 32 &&& ~~~(1#32 <<< bit)).setWidth 8,rfl⟩

/-- What is as it was after a call on an enabled table. -/
structure Ready (codeBase : UInt64) (s : Cfi) : Prop where
  enabled : s.enabled = true
  codeBase_eq : s.codeBase = codeBase

lemma Ready.call (h : Ready codeBase s) (c : CfiCall) : Ready codeBase (s.call c) := by
  obtain ⟨change,hc⟩ := exists_call_eq s c
  rw [hc]
  obtain he | ⟨o,-,he⟩ := atTarget_cases s c.fn change
  · rwa [he]
  · rw [he]
    exact ⟨h.enabled,h.codeBase_eq⟩

lemma Ready.run (h : Ready codeBase s) (calls : List CfiCall) : Ready codeBase (s.run calls) :=
  List.foldlRecOn calls Cfi.call h fun _ hs c _ => hs.call c

lemma accessed_call (s : Cfi) (c : CfiCall) : ∀ i ∈ (s.call c).accessed, i ∈ s.accessed ∨ i < CFI_BITMAP_SIZE := by
  intro i hi
  obtain ⟨change,hc⟩ := exists_call_eq s c
  rw [hc] at hi
  obtain he | ⟨o,ho,he⟩ := atTarget_cases s c.fn change
  · rw [he] at hi
    exact .inl hi
  · rw [he,modify,List.mem_append,List.mem_singleton] at hi
    obtain hold | rfl := hi
    · exact .inl hold
    · exact .inr (targetOffset_lt ho)

lemma run_append (s : Cfi) (pre : List CfiCall) (c : CfiCall) : s.run (pre ++ [c]) = (s.run pre).call c := by
  rw [run,List.foldl_append]
  rfl

lemma accessed_run {old : List ℕ} (h : ∀ i ∈ s.accessed, i ∈ old ∨ i < CFI_BITMAP_SIZE) (calls : List CfiCall) :
    ∀ i ∈ (s.run calls).accessed, i ∈ old ∨ i < CFI_BITMAP_SIZE := by
  induction calls using List.reverseRecOn with
  | nil => exact h
  | append_singleton calls c ih =>
    intro i hi
    rw [run_append] at hi
    exact (accessed_call _ c i hi).elim (ih i) .inr

lemma accessed_validate (s : Cfi) (target : UInt64) : ∀ i ∈ (s.cfiValidateCall target).2, i < CFI_BITMAP_SIZE := by
  intro i hi
  rw [cfiValidateCall] at hi
  split_ifs at hi
  · cases hi
  · cases ho : targetOffset s.codeBase target with
    | none =>
      rw [ho] at hi
      cases hi
    | some o =>
      rw [ho] at hi
      rw [List.mem_singleton.mp hi]
      exact targetOffset_lt ho

/-- What `cfi_init` leaves. -/
lemma ready_cfiInit (hs : s.present = true) (codeStart codeSize : UInt64) :
    Ready codeStart (s.cfiInit codeStart codeSize) := by
  simp only [cfiInit,hs,Bool.not_true,Bool.false_eq_true,if_false]
  exact ⟨rfl,rfl⟩

lemma bitAt_cfiInit (hs : s.present = true) (codeStart codeSize : UInt64) (ho : o/8 < CFI_BITMAP_SIZE) :
    bitAt (s.cfiInit codeStart codeSize).bitmap o = false := by
  simp only [cfiInit,hs,Bool.not_true,Bool.false_eq_true,if_false,bitAt]
  rw [sweep_fill,if_pos ⟨o/8,List.mem_range.mpr ho,rfl⟩]
  exact BitVec.getLsbD_zero

/-- The bit of an address over a whole run. -/
lemma bitAt_run (hs : s.present = true) {codeStart : UInt64} (codeSize : UInt64)
    (ho : targetOffset codeStart addr = some o) (calls : List CfiCall) :
    bitAt ((s.cfiInit codeStart codeSize).run calls).bitmap o = true ↔ LastRegistered calls addr := by
  have hstart : ¬bitAt (s.cfiInit codeStart codeSize).bitmap o = true := by
    rw [bitAt_cfiInit hs codeStart codeSize (targetOffset_lt ho)]
    decide
  refine foldl_last_iff_of_invariant (I := Ready codeStart) (P := fun s => bitAt s.bitmap o = true)
    (fun _ c h => h.call c) (fun s c h => ?_) (ready_cfiInit hs codeStart codeSize) hstart calls
  exact bitAt_call h.enabled (h.codeBase_eq ▸ ho) c

lemma verdict_run_iff (hs : s.present = true) (codeStart codeSize : UInt64) (calls : List CfiCall) :
    ((s.cfiInit codeStart codeSize).run calls).verdict addr = true ↔
      InRegion codeStart addr ∧ LastRegistered calls addr := by
  have hrun := (ready_cfiInit hs codeStart codeSize).run calls
  rw [verdict_eq_true_iff hrun.enabled,hrun.codeBase_eq]
  constructor
  · rintro ⟨o,ho,hbit⟩
    exact ⟨(targetOffset_eq_some_iff.mp ho).1,(bitAt_run hs codeSize ho calls).mp hbit⟩
  · rintro ⟨hin,hreg⟩
    have ho := targetOffset_eq_some_iff.mpr ⟨hin,rfl⟩
    exact ⟨_,ho,(bitAt_run hs codeSize ho calls).mpr hreg⟩

/-- A call does not touch the verdict over another address. -/
lemma verdict_call_of_ne (h : Ready codeBase s) {c : CfiCall} (hne : addr ≠ c.fn) :
    (s.call c).verdict addr = s.verdict addr := by
  have hnext := h.call c
  have hnot (d : CfiCall) (hd : d.fn = addr) : c ≠ d := fun heq => hne (heq ▸ hd.symm)
  rw [Bool.eq_iff_iff,verdict_eq_true_iff hnext.enabled,verdict_eq_true_iff h.enabled,hnext.codeBase_eq,
    h.codeBase_eq]
  refine exists_congr fun o => and_congr_right fun ho => ?_
  rw [bitAt_call h.enabled (h.codeBase_eq ▸ ho)]
  simp [hnot (.register addr) rfl,hnot (.unregister addr) rfl]

lemma accessed_cfiInit (s : Cfi) (codeStart codeSize : UInt64) :
    ∀ i ∈ (s.cfiInit codeStart codeSize).accessed, i ∈ s.accessed ∨ i < CFI_BITMAP_SIZE := by
  intro i hi
  rw [cfiInit] at hi
  split_ifs at hi
  · exact .inl hi
  · exact (List.mem_append.mp hi).imp_right List.mem_range.mp

end Cfi

open Cfi

/-- The bitmap is the set of the addresses that were registered last. -/
theorem cfi_exact (s : Cfi) (hs : s.present = true) (codeStart codeSize : UInt64) (calls : List CfiCall) :
    (∀ t, ((s.cfiInit codeStart codeSize).run calls).verdict t = true ↔
      InRegion codeStart t ∧ LastRegistered calls t) ∧
    (∀ pre c, pre ++ [c] <+: calls → ∀ t, t ≠ c.fn → ((s.cfiInit codeStart codeSize).run (pre ++ [c])).verdict t =
      ((s.cfiInit codeStart codeSize).run pre).verdict t) ∧
    (∀ i ∈ ((s.cfiInit codeStart codeSize).run calls).accessed, i ∈ s.accessed ∨ i < CFI_BITMAP_SIZE) ∧
    ∀ t, ∀ i ∈ (((s.cfiInit codeStart codeSize).run calls).cfiValidateCall t).2, i < CFI_BITMAP_SIZE := by
  refine ⟨fun t => ?_,fun pre c _ t hne => ?_,?_,fun t => accessed_validate _ t⟩
  · exact verdict_run_iff hs codeStart codeSize calls
  · rw [run_append]
    exact verdict_call_of_ne ((ready_cfiInit hs codeStart codeSize).run pre) hne
  · exact accessed_run (accessed_cfiInit s codeStart codeSize) calls

/-- The neighbour in the same byte was registered and taken back. -/
theorem cfi_exact_neighbour : ((Cfi.cfiInit ⟨true,fun _ => 0xFF,false,0,[]⟩ 0x1000 64).run
    [.register 0x1004,.register 0x1003,.unregister 0x1003]).verdict 0x1004 = true :=
  ((cfi_exact ⟨true,fun _ => 0xFF,false,0,[]⟩ rfl 0x1000 64 _).1 0x1004).mpr
    ⟨⟨by decide,by decide,by decide⟩,[],.register 0x1004,_,rfl,rfl,by decide⟩

end Linuxab.Hardening
