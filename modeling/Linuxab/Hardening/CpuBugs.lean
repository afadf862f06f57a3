import Linuxab.Base.Bitmap
import Mathlib.Logic.Function.Basic

/-! The detection of processor bugs in bugs.c and the protections it switches on. The two feature bits for
CR4 are defined for EBX of leaf 7, the word they are looked up in is ECX of leaf 1. -/
namespace Linuxab.Hardening
open Linuxab.Base

/-- What `cpuid` answers for a leaf. -/
structure Leaf where
  eax : BitVec 32
  ebx : BitVec 32
  ecx : BitVec 32
  edx : BitVec 32

/-- The static variables of bugs.c and the registers of the processor that it works on; `verw` counts the
clearings of the buffers. -/
structure CpuState where
  vendor : Vector (BitVec 32) 4
  features : BitVec 32
  featuresExt : BitVec 32
  featuresExtEdx : BitVec 32
  level : BitVec 32
  model : BitVec 32
  family : BitVec 32
  bugs : BitVec 64
  cr4 : BitVec 64
  msr : BitVec 32 → BitVec 64
  verw : ℕ

def X86_FEATURE_SMEP : BitVec 32 := 1#32 <<< 7
def X86_FEATURE_SMAP : BitVec 32 := 1#32 <<< 20
def X86_FEATURE_IBRS : BitVec 32 := 1#32 <<< 26

def BUG_F00F : BitVec 64 := 1#64 <<< 0
def BUG_FDIV : BitVec 64 := 1#64 <<< 1
def BUG_COMA : BitVec 64 := 1#64 <<< 2
def BUG_CPU_MELTDOWN : BitVec 64 := 1#64 <<< 9
def BUG_SPECTRE_V1 : BitVec 64 := 1#64 <<< 10
def BUG_SPECTRE_V2 : BitVec 64 := 1#64 <<< 11
def BUG_L1TF : BitVec 64 := 1#64 <<< 13
def BUG_MDS : BitVec 64 := 1#64 <<< 14

namespace CpuState

/-- The family with the extended field in `eax`. -/
def familyOf (eax : BitVec 32) : BitVec 32 :=
  if eax >>> 8 &&& 0x0F = 0x0F then (eax >>> 8 &&& 0x0F)+(eax >>> 20 &&& 0xFF) else eax >>> 8 &&& 0x0F

def modelOf (eax : BitVec 32) : BitVec 32 :=
  if familyOf eax ≥ 0x06 then (eax >>> 4 &&& 0x0F)+(eax >>> 16 &&& 0x0F) <<< 4 else eax >>> 4 &&& 0x0F

/-- The word for the extended EDX keeps its old value if the processor has no leaf 7. -/
def identifyCpu (cpuid : BitVec 32 → Leaf) (s : CpuState) : CpuState :=
  { s with
    vendor := #v[(cpuid 0).ebx,(cpuid 0).edx,(cpuid 0).ecx,0]
    level := (cpuid 0).eax
    features := (cpuid 1).edx
    featuresExt := (cpuid 1).ecx
    family := familyOf (cpuid 1).eax
    model := modelOf (cpuid 1).eax
    featuresExtEdx := if (cpuid 0).eax ≥ 7 then (cpuid 7).edx else s.featuresExtEdx }

/-- "Genu", "ineI", "ntel". -/
def isIntel (s : CpuState) : Bool :=
  s.vendor[0] = 0x756E6547 && s.vendor[1] = 0x49656E69 && s.vendor[2] = 0x6C65746E

/-- "Auth", "enti", "cAMD". -/
def isAmd (s : CpuState) : Bool :=
  s.vendor[0] = 0x68747541 && s.vendor[1] = 0x69746E65 && s.vendor[2] = 0x444D4163

def markBug (affected : Bool) (bug : BitVec 64) (s : CpuState) : CpuState :=
  if affected then { s with bugs := s.bugs ||| bug } else s

def checkBugF00f (s : CpuState) : CpuState :=
  s.markBug (s.isIntel && s.family = 5 && s.model < 4) BUG_F00F

def checkBugFdiv (s : CpuState) : CpuState :=
  s.markBug (s.isIntel && s.family = 5 && s.model < 4) BUG_FDIV

def checkBugComa (s : CpuState) : CpuState :=
  s.markBug (s.isIntel && s.family = 5 && s.model = 0) BUG_COMA

def checkMeltdown (s : CpuState) : CpuState := s.markBug s.isIntel BUG_CPU_MELTDOWN

def checkSpectre (s : CpuState) : CpuState :=
  (s.markBug true BUG_SPECTRE_V1).markBug (s.isIntel || s.isAmd) BUG_SPECTRE_V2

/-- The Atom models are left out. -/
def checkL1tf (s : CpuState) : CpuState :=
  if s.isIntel && s.family ≠ 0x06 then s
  else s.markBug (s.isIntel && s.family = 6 && s.model ∉ [0x1C,0x26,0x27,0x35,0x36]) BUG_L1TF

def checkMds (s : CpuState) : CpuState :=
  if !s.isIntel then s
  else s.markBug (s.family = 6 && s.model ∉ [0x1C,0x26,0x27,0x35,0x36,0x57,0x5A,0x5C,0x5F]) BUG_MDS

/-- A bit of CR4 is switched on if the extended features have the flag. -/
def enableCr4 (feature : BitVec 32) (bit : ℕ) (s : CpuState) : CpuState :=
  if s.featuresExt &&& feature ≠ 0 then { s with cr4 := s.cr4 ||| 1#64 <<< bit } else s

/-- IBRS is bit 0 of the register 0x48. -/
def enableIbrs (s : CpuState) : CpuState :=
  if s.bugs &&& BUG_SPECTRE_V2 ≠ 0 ∧ s.featuresExtEdx &&& X86_FEATURE_IBRS ≠ 0 then
    { s with msr := Function.update s.msr 0x48 (s.msr 0x48 ||| 1) }
  else s

def clearBuffers (s : CpuState) : CpuState :=
  if s.bugs &&& BUG_MDS ≠ 0 ∧ s.featuresExt &&& 1#32 <<< 10 ≠ 0 then { s with verw := s.verw+1 } else s

def applyBugWorkarounds (s : CpuState) : CpuState :=
  (((s.enableCr4 X86_FEATURE_SMEP 20).enableCr4 X86_FEATURE_SMAP 21).enableIbrs).clearBuffers

def checkBugs (cpuid : BitVec 32 → Leaf) (s : CpuState) : CpuState :=
  (s.identifyCpu cpuid).checkBugF00f.checkBugFdiv.checkBugComa.checkMeltdown.checkSpectre.checkL1tf.checkMds
    |>.applyBugWorkarounds

/-! ## What the functions keep -/

section Frame
variable (s : CpuState)

/-- The state but for the flags of the bugs. -/
def exceptBugs : CpuState := { s with bugs := 0 }

@[simp] theorem exceptBugs_markBug (affected : Bool) (bug : BitVec 64) :
    (s.markBug affected bug).exceptBugs = s.exceptBugs := by
  rw [markBug]
  split <;> rfl

@[simp] theorem exceptBugs_checkL1tf : s.checkL1tf.exceptBugs = s.exceptBugs := by
  rw [checkL1tf]
  split
  · rfl
  · exact exceptBugs_markBug s _ _

@[simp] theorem exceptBugs_checkMds : s.checkMds.exceptBugs = s.exceptBugs := by
  rw [checkMds]
  split
  · rfl
  · exact exceptBugs_markBug s _ _

/-- The checks only mark bugs. -/
theorem exceptBugs_checks :
    s.checkBugF00f.checkBugFdiv.checkBugComa.checkMeltdown.checkSpectre.checkL1tf.checkMds.exceptBugs =
      s.exceptBugs := by
  simp [checkBugF00f,checkBugFdiv,checkBugComa,checkMeltdown,checkSpectre]

@[simp] theorem cr4_enableIbrs : s.enableIbrs.cr4 = s.cr4 := by
  rw [enableIbrs]
  split <;> rfl

@[simp] theorem cr4_clearBuffers : s.clearBuffers.cr4 = s.cr4 := by
  rw [clearBuffers]
  split <;> rfl

@[simp] theorem featuresExt_enableCr4 (feature : BitVec 32) (bit : ℕ) :
    (s.enableCr4 feature bit).featuresExt = s.featuresExt := by
  rw [enableCr4]
  split <;> rfl

end Frame

/-! ## The bits of CR4 -/

theorem getLsbD_enableCr4 (s : CpuState) {j i : ℕ} (bit : ℕ) (hj : j < 32) (hi : i < 64) :
    (s.enableCr4 (1#32 <<< j) bit).cr4.getLsbD i =
      (s.cr4.getLsbD i || (s.featuresExt.getLsbD j && decide (i = bit))) := by
  rw [enableCr4]
  split
  · next hset =>
    rw [(and_mask_ne_zero_iff hj).mp hset,Bool.true_and]
    exact getLsbD_or_mask hi bit
  · next hset =>
    rw [Bool.eq_false_iff.mpr (mt (and_mask_ne_zero_iff hj).mpr hset),Bool.false_and,Bool.or_false]

/-- The bits come from ECX of leaf 1, whatever leaf 7 says. -/
theorem getLsbD_checkBugs (cpuid : BitVec 32 → Leaf) (s : CpuState) {i : ℕ} (hi : i < 64) :
    (s.checkBugs cpuid).cr4.getLsbD i = (s.cr4.getLsbD i || ((cpuid 1).ecx.getLsbD 7 && decide (i = 20)) ||
      ((cpuid 1).ecx.getLsbD 20 && decide (i = 21))) := by
  have hkeep := exceptBugs_checks (s.identifyCpu cpuid)
  rw [checkBugs,applyBugWorkarounds,cr4_clearBuffers,cr4_enableIbrs,X86_FEATURE_SMEP,X86_FEATURE_SMAP,
    getLsbD_enableCr4 _ _ (by decide) hi,featuresExt_enableCr4,getLsbD_enableCr4 _ _ (by decide) hi]
  have hcr4 := congrArg cr4 hkeep
  have hext := congrArg featuresExt hkeep
  simp only [exceptBugs] at hcr4 hext
  rw [hcr4,hext]
  rfl

end CpuState

/-- The processor has leaf 7 and its EBX has the feature. -/
def Supported (cpuid : BitVec 32 → Leaf) (feature : ℕ) : Bool := (cpuid 0).eax ≥ 7 && (cpuid 7).ebx.getLsbD feature

/-- SMEP and SMAP are switched on where the processor has them, and CR4 is otherwise as it was. -/
structure ProtectionsEnabled (cpuid : BitVec 32 → Leaf) (before after : BitVec 64) : Prop where
  smep : after.getLsbD 20 = (before.getLsbD 20 || Supported cpuid 7)
  smap : after.getLsbD 21 = (before.getLsbD 21 || Supported cpuid 20)
  others : ∀ i < 64, i ≠ 20 → i ≠ 21 → after.getLsbD i = before.getLsbD i

/-- No other bit ever changes; the two bits are right exactly if they were set before or the bit of the same
number in ECX of leaf 1 happens to agree with the feature. -/
theorem checkBugs_protections_iff (cpuid : BitVec 32 → Leaf) (s : CpuState) :
    (∀ i < 64, i ≠ 20 → i ≠ 21 → (s.checkBugs cpuid).cr4.getLsbD i = s.cr4.getLsbD i) ∧
    (ProtectionsEnabled cpuid s.cr4 (s.checkBugs cpuid).cr4 ↔
      (s.cr4.getLsbD 20 = true ∨ (cpuid 1).ecx.getLsbD 7 = Supported cpuid 7) ∧
      (s.cr4.getLsbD 21 = true ∨ (cpuid 1).ecx.getLsbD 20 = Supported cpuid 20)) := by
  have hothers : ∀ i < 64, i ≠ 20 → i ≠ 21 → (s.checkBugs cpuid).cr4.getLsbD i = s.cr4.getLsbD i := by
    intro i hi h20 h21
    simp [CpuState.getLsbD_checkBugs cpuid s hi,h20,h21]
  have hsmep := CpuState.getLsbD_checkBugs cpuid s (i := 20) (by decide)
  have hsmap := CpuState.getLsbD_checkBugs cpuid s (i := 21) (by decide)
  simp only [decide_true,Bool.and_true,Nat.reduceEqDiff,decide_false,Bool.and_false,Bool.or_false] at hsmep hsmap
  have hbit : ∀ b c d : Bool, (b || c) = (b || d) ↔ b = true ∨ c = d := by decide
  refine ⟨hothers,fun h => ⟨?_,?_⟩,fun h => ⟨?_,?_,hothers⟩⟩
  · exact (hbit _ _ _).mp (hsmep.symm.trans h.smep)
  · exact (hbit _ _ _).mp (hsmap.symm.trans h.smap)
  · exact hsmep.trans ((hbit _ _ _).mpr h.1)
  · exact hsmap.trans ((hbit _ _ _).mpr h.2)

/-- The static variables as the loader leaves them. -/
def bootState (cr4 : BitVec 64) : CpuState := ⟨#v[0,0,0,0],0,0,0,0,0,0,0,cr4,fun _ => 0,0⟩

/-- A processor with leaf 7 and both features in it, and nothing in leaf 1. -/
def bothFeatures (leaf : BitVec 32) : Leaf :=
  if leaf = 0 then ⟨7,0,0,0⟩ else if leaf = 7 then ⟨0,1#32 <<< 7 ||| 1#32 <<< 20,0,0⟩ else ⟨0,0,0,0⟩

/-- Neither protection is switched on. -/
theorem checkBugs_features_ignored : Supported bothFeatures 7 = true ∧ Supported bothFeatures 20 = true ∧
    ((bootState 0).checkBugs bothFeatures).cr4 = 0 ∧
    ¬ ProtectionsEnabled bothFeatures (bootState 0).cr4 ((bootState 0).checkBugs bothFeatures).cr4 := by
  have hcr4 : ((bootState 0).checkBugs bothFeatures).cr4 = 0 := by decide +kernel
  refine ⟨by decide,by decide,hcr4,fun h => ?_⟩
  have hsmep := h.smep
  rw [hcr4] at hsmep
  revert hsmep
  decide

end Linuxab.Hardening
