import Linuxab.Base.Sweep
import Linuxab.Base.While

/-! The boot tags of kernel/drivers/atags_compact.c. The tags lie in an array of words, and the first word of a
tag is the number of words to the next one. -/
namespace Linuxab.Kernel
open Linuxab.Base

def ATAG_NONE : UInt32 := 0
def ATAG_CORE : UInt32 := 0x54410001
def ATAG_MEM : UInt32 := 0x54410002
def ATAG_INITRD2 : UInt32 := 0x54420005
def ATAG_SERIAL : UInt32 := 0x54410006
def ATAG_REVISION : UInt32 := 0x54410007
def ATAG_CMDLINE : UInt32 := 0x54410009
def ATAG_MEM64 : UInt32 := 0x5441000A

/-- The calls of `printk`. -/
inductive TagMessage
  | noTags
  | invalidFirst (tag : UInt32)
  | core (flags pagesize rootdev : UInt32)
  | mem (start size : UInt64)
  | initrd2 (start size : UInt32)
  | serial (high low : UInt32)
  | revision (rev : UInt32)
  | unknown (tag : UInt32)
  | commandLine
  deriving DecidableEq

/-- The variables that the parser writes, with what it prints. -/
structure BootState where
  cmdlineBuf : ℕ → UInt8
  ramdiskImage : UInt32
  ramdiskSize : UInt32
  log : List TagMessage

namespace BootTags
variable (words : ℕ → UInt32)

/-- Word `k` behind the header of the tag at `t`. -/
def field (t k : ℕ) : UInt32 := words (t+2+k)

def field64 (t k : ℕ) : UInt64 := (field words t k).toUInt64 ||| (field words t (k+1)).toUInt64 <<< 32

/-- Byte `i` behind the header. -/
def cmdlineByte (t i : ℕ) : UInt8 := (field words t (i/4) >>> UInt32.ofNat (8*(i%4))).toUInt8

/-- The number of bytes that are copied; the product is computed in 32 bits. -/
def cmdlineLength (size : UInt32) : ℕ := if ((size-2)*4).toNat ≥ 1024 then 1023 else ((size-2)*4).toNat

def copyCmdline (t : ℕ) (buf : ℕ → UInt8) : ℕ → UInt8 :=
  Function.update (sweep id (fun _ i => cmdlineByte words t i) (List.range (cmdlineLength (words t))) buf)
    (cmdlineLength (words t)) 0

/-- The body of the loop. -/
def readTag (t : ℕ) (s : BootState) : BootState :=
  let tag := words (t+1)
  if tag = ATAG_CORE then
    { s with log := s.log ++ [.core (field words t 0) (field words t 1) (field words t 2)] }
  else if tag = ATAG_MEM ∨ tag = ATAG_MEM64 then
    { s with log := s.log ++ [.mem (field64 words t 2) (field64 words t 0)] }
  else if tag = ATAG_CMDLINE then
    if words t > 2 then { s with cmdlineBuf := copyCmdline words t s.cmdlineBuf } else s
  else if tag = ATAG_INITRD2 then
    { s with
      log := s.log ++ [.initrd2 (field words t 0) (field words t 1)]
      ramdiskImage := field words t 0
      ramdiskSize := field words t 1 }
  else if tag = ATAG_SERIAL then { s with log := s.log ++ [.serial (field words t 1) (field words t 0)] }
  else if tag = ATAG_REVISION then { s with log := s.log ++ [.revision (field words t 0)] }
  else { s with log := s.log ++ [.unknown tag] }

def atagNext (t : ℕ) : ℕ := t+(words t).toNat

/-- The tag is in the array of `n` words and not the last one. -/
def going (n t : ℕ) : Bool := t < n ∧ words (t+1) ≠ ATAG_NONE

/-- The loop over the tags; it is left behind the array. -/
def tagLoop (rounds n : ℕ) (s : BootState) : Option (ℕ × BootState) :=
  whileLoop (fun p => going words n p.1) (fun p => (atagNext words p.1,readTag words p.1 p.2)) rounds (0,s)

end BootTags

open BootTags

/-- The first argument is `atags_phys` if it is not NULL. -/
def atagsParse (tags : Option (ℕ → UInt32)) (rounds n : ℕ) (s : BootState) : Option BootState :=
  match tags with
  | none => some { s with log := s.log ++ [.noTags] }
  | some words =>
    if words 1 ≠ ATAG_CORE then some { s with log := s.log ++ [.invalidFirst (words 1)] }
    else (tagLoop words rounds n { s with cmdlineBuf := Function.update s.cmdlineBuf 0 0 }).map fun p =>
      if p.2.cmdlineBuf 0 ≠ 0 then { p.2 with log := p.2.log ++ [.commandLine] } else p.2

namespace BootTags
variable {words : ℕ → UInt32} {n : ℕ}

/-- The tags that the loop comes to. -/
def Reached (words : ℕ → UInt32) (n t : ℕ) : Prop := Passes (going words n) (atagNext words) 0 t

/-- The loop and the one over the positions alone come to an end together. -/
lemma tagLoop_ends_iff (s : BootState) : (∃ rounds p, tagLoop words rounds n s = some p) ↔
    ∃ rounds t, whileLoop (going words n) (atagNext words) rounds 0 = some t := by
  have hmap (rounds : ℕ) : whileLoop (going words n) (atagNext words) rounds 0 =
      (tagLoop words rounds n s).map Prod.fst :=
    whileLoop_map Prod.fst (fun _ => rfl) (fun _ => rfl) rounds (0,s)
  simp only [hmap,Option.map_eq_some_iff]
  constructor
  · rintro ⟨rounds,p,hp⟩
    exact ⟨rounds,p.1,p,hp,rfl⟩
  · rintro ⟨rounds,-,p,hp,-⟩
    exact ⟨rounds,p,hp⟩

lemma going_iff {t : ℕ} : going words n t = true ↔ t < n ∧ words (t+1) ≠ ATAG_NONE := decide_eq_true_iff

lemma atagsParse_ends_iff (hcore : words 1 = ATAG_CORE) (s : BootState) :
    (∃ rounds t, atagsParse (some words) rounds n s = some t) ↔
      ∃ rounds t, whileLoop (going words n) (atagNext words) rounds 0 = some t := by
  rw [← tagLoop_ends_iff { s with cmdlineBuf := Function.update s.cmdlineBuf 0 0 }]
  simp [atagsParse,hcore]

lemma lt_atagNext_iff {t : ℕ} : t < atagNext words t ↔ words t ≠ 0 := by
  have hzero : words t = 0 ↔ (words t).toNat = 0 := UInt32.toNat_inj.symm
  rw [atagNext,Ne,hzero]
  omega

/-- A tag of size 0 is its own next one. -/
lemma not_ends_of_zero {t : ℕ} (ht : Reached words n t) (hgoing : going words n t = true) (hzero : words t = 0) :
    ¬∃ rounds u, whileLoop (going words n) (atagNext words) rounds 0 = some u := by
  rintro ⟨rounds,u,hu⟩
  have hfixed : atagNext words t = t := by
    rw [atagNext,hzero]
    rfl
  obtain ⟨k,hk⟩ := Passes.exists_whileLoop ht hu
  rw [whileLoop_of_fixed hgoing hfixed] at hk
  cases hk

end BootTags

/-- The parser comes to an end and every step is forward exactly if no tag on the way has the size 0. -/
theorem atags_terminate_iff (words : ℕ → UInt32) (n : ℕ) (s : BootState) (hcore : words 1 = ATAG_CORE) :
    ((∃ rounds t, atagsParse (some words) rounds n s = some t) ∧
      ∀ t, Reached words n t → going words n t = true → t < atagNext words t) ↔
      ∀ t, Reached words n t → going words n t = true → words t ≠ 0 := by
  rw [atagsParse_ends_iff hcore]
  constructor
  · rintro ⟨hends,-⟩ t ht hgoing hzero
    exact not_ends_of_zero ht hgoing hzero hends
  · intro h
    refine ⟨?_,fun t ht hgoing => lt_atagNext_iff.mpr (h t ht hgoing)⟩
    apply exists_whileLoop_of_passes (n-·)
    intro t ht hgoing
    have hlt := (going_iff.mp hgoing).1
    have hstep := lt_atagNext_iff.mpr (h t ht hgoing)
    omega

/-- A core tag of five words and the end. -/
theorem atags_terminate_core : ∃ rounds t,
    atagsParse (some fun i => if i = 0 then 5 else if i = 1 then ATAG_CORE else 0) rounds 7
      ⟨fun _ => 0,0,0,[]⟩ = some t := by
  refine ((atags_terminate_iff _ 7 ⟨fun _ => 0,0,0,[]⟩ rfl).mpr fun t _ hgoing => ?_).1
  have hne := (BootTags.going_iff.mp hgoing).2
  obtain rfl : t = 0 := by
    by_contra ht
    simp [ht,ATAG_NONE] at hne
  decide

/-- A core tag of size 0 is parsed for ever. -/
theorem atags_endless : ¬∃ rounds t,
    atagsParse (some fun i => if i = 1 then ATAG_CORE else 0) rounds 8 ⟨fun _ => 0,0,0,[]⟩ = some t := by
  rw [BootTags.atagsParse_ends_iff rfl]
  exact BootTags.not_ends_of_zero .start (by decide) rfl

end Linuxab.Kernel
