import Linuxab.Base.Bitmap
import Mathlib.Data.List.Induction
import Mathlib.Logic.Function.Basic
import Mathlib.Tactic.SplitIfs

/-! The enable bits of the general-purpose events of kernel/drivers/accel/acpi_event.c. -/
namespace Linuxab.Acpi
open Linuxab.Base

def ACPI_GPE_MAX : ℕ := 256

/-- `acpi_gpe0_blk`, `acpi_gpe1_blk` and the lengths of the blocks. -/
structure GpeBlocks where
  gpe0Blk : UInt64
  gpe1Blk : UInt64
  gpe0Len : UInt8
  gpe1Len : UInt8

namespace GpeBlocks
variable (g : GpeBlocks) (gpe : UInt32)

def base : UInt64 := if gpe < 8 then g.gpe0Blk else g.gpe1Blk

def len : UInt32 := if gpe < 8 then g.gpe0Len.toUInt32 else g.gpe1Len.toUInt32

def enAddr : UInt64 := g.base gpe+(g.len gpe/2).toUInt64

/-- The common body of `acpi_enable_gpe` and `acpi_disable_gpe`: a port is read, changed and written back;
`change` gets the bit and the value. -/
def changeEnable (ports : ℕ → BitVec 8) (change : ℕ → BitVec 8 → BitVec 8) : ℕ → BitVec 8 :=
  if g.base gpe ≠ 0 ∧ g.len gpe > 1 then
    if g.enAddr gpe < 0x10000 then
      let port := (g.enAddr gpe).toUInt16.toNat
      Function.update ports port (change (gpe%8).toNat (ports port))
    else ports
  else ports

/-- The value and the mask are promoted to `int`. -/
def acpiEnableGpe (ports : ℕ → BitVec 8) : ℕ → BitVec 8 :=
  g.changeEnable gpe ports fun bit val => (val.setWidth 32 ||| 1#32 <<< bit).setWidth 8

def acpiDisableGpe (ports : ℕ → BitVec 8) : ℕ → BitVec 8 :=
  g.changeEnable gpe ports fun bit val => (val.setWidth 32 &&& ~~~(1#32 <<< bit)).setWidth 8

def acpiGpeEnable (ports : ℕ → BitVec 8) : ℕ → BitVec 8 := g.acpiEnableGpe gpe ports

def acpiGpeDisable (ports : ℕ → BitVec 8) : ℕ → BitVec 8 := g.acpiDisableGpe gpe ports

end GpeBlocks

/-- A call of `acpi_gpe_enable` or of `acpi_gpe_disable`. -/
structure GpeCall where
  gpe : UInt32
  enable : Bool

namespace GpeBlocks

def call (g : GpeBlocks) (ports : ℕ → BitVec 8) (c : GpeCall) : ℕ → BitVec 8 :=
  if c.enable then g.acpiGpeEnable c.gpe ports else g.acpiGpeDisable c.gpe ports

def run (g : GpeBlocks) (ports : ℕ → BitVec 8) (calls : List GpeCall) : ℕ → BitVec 8 := calls.foldl g.call ports

/-- The port and the bit that enable an event. -/
def enableBit (g : GpeBlocks) (gpe : UInt32) : ℕ × ℕ := ((g.enAddr gpe).toNat,gpe.toNat%8)

def enabled (g : GpeBlocks) (ports : ℕ → BitVec 8) (gpe : UInt32) : Bool :=
  (ports (g.enableBit gpe).1).getLsbD (g.enableBit gpe).2

/-- Both blocks are present, disjoint and 64 bytes long, and their enable registers are ports. -/
structure Present (g : GpeBlocks) : Prop where
  blk0 : g.gpe0Blk ≠ 0
  blk1 : g.gpe1Blk ≠ 0
  len0 : g.gpe0Len = 64
  len1 : g.gpe1Len = 64
  disjoint : ∀ i < 64, ∀ j < 64, g.gpe0Blk+i ≠ g.gpe1Blk+j
  port0 : g.gpe0Blk+32 < 0x10000
  port1 : g.gpe1Blk+32 < 0x10000

/-- The last call for an event, if there is one, decides over its bit. -/
def ReflectsLast (g : GpeBlocks) (ports : ℕ → BitVec 8) (calls : List GpeCall) (gpe : UInt32) : Prop :=
  g.enabled (g.run ports calls) gpe =
    ((calls.filter (·.gpe = gpe)).getLast?.map GpeCall.enable).getD (g.enabled ports gpe)

/-- Events below `n` do not share a bit, and calls for them do not meddle with each other. -/
def Independent (g : GpeBlocks) (n : ℕ) : Prop :=
  (∀ a b : UInt32, a.toNat < n → b.toNat < n → g.enableBit a = g.enableBit b → a = b) ∧
  ∀ ports calls, (∀ c ∈ calls, c.gpe.toNat < n) → ∀ gpe, gpe.toNat < n → g.ReflectsLast ports calls gpe

section Ready
variable {g : GpeBlocks} (h : g.Present) {gpe : UInt32}
include h

lemma Present.enAddr_eq : g.enAddr gpe = if gpe < 8 then g.gpe0Blk+32 else g.gpe1Blk+32 := by
  rw [enAddr,base,len,h.len0,h.len1]
  split_ifs <;> rfl

lemma Present.enAddr_lt (gpe : UInt32) : g.enAddr gpe < 0x10000 := by
  rw [h.enAddr_eq]
  split_ifs
  · exact h.port0
  · exact h.port1

lemma Present.changeEnable_eq (ports : ℕ → BitVec 8) (change : ℕ → BitVec 8 → BitVec 8) :
    g.changeEnable gpe ports change = Function.update ports (g.enableBit gpe).1
      (change (g.enableBit gpe).2 (ports (g.enableBit gpe).1)) := by
  have hbase : g.base gpe ≠ 0 ∧ g.len gpe > 1 := by
    rw [base,len,h.len0,h.len1]
    split_ifs
    · exact ⟨h.blk0,by decide⟩
    · exact ⟨h.blk1,by decide⟩
  have hport : (g.enAddr gpe).toUInt16.toNat = (g.enAddr gpe).toNat := by
    have hlt := UInt64.lt_iff_toNat_lt.mp (h.enAddr_lt gpe)
    rw [UInt64.toNat_toUInt16]
    exact Nat.mod_eq_of_lt hlt
  rw [changeEnable,if_pos hbase,if_pos (h.enAddr_lt gpe),hport]
  rfl

/-- A change that makes one bit of the value `on` makes one enable bit `on`. -/
lemma Present.enabled_changeEnable (ports : ℕ → BitVec 8) {change : ℕ → BitVec 8 → BitVec 8} {on : Bool}
    (hchange : ∀ v : BitVec 8, ∀ k, ∀ b < 8, (change k v).getLsbD b = if b = k then on else v.getLsbD b)
    (gpe' : UInt32) :
    g.enabled (g.changeEnable gpe ports change) gpe' =
      if g.enableBit gpe' = g.enableBit gpe then on else g.enabled ports gpe' := by
  have hbit : (g.enableBit gpe').2 < 8 := Nat.mod_lt _ (by decide)
  rw [h.changeEnable_eq,enabled]
  by_cases hport : (g.enableBit gpe').1 = (g.enableBit gpe).1
  · rw [hport,Function.update_self,hchange _ _ _ hbit,enabled,hport]
    by_cases hbits : (g.enableBit gpe').2 = (g.enableBit gpe).2
    · rw [if_pos hbits,if_pos (Prod.ext hport hbits)]
    · rw [if_neg hbits,if_neg fun heq => hbits (congrArg Prod.snd heq)]
  · have hne : g.enableBit gpe' ≠ g.enableBit gpe := fun heq => hport (congrArg Prod.fst heq)
    rw [Function.update_of_ne hport,if_neg hne,enabled]

/-- A call decides over the bit that it names and no other. -/
lemma Present.enabled_call (ports : ℕ → BitVec 8) (c : GpeCall) (gpe : UInt32) :
    g.enabled (g.call ports c) gpe = if g.enableBit gpe = g.enableBit c.gpe then c.enable else g.enabled ports gpe := by
  obtain ⟨gpe',on⟩ := c
  cases on with
  | true =>
    rw [call,if_pos rfl,acpiGpeEnable,acpiEnableGpe]
    refine h.enabled_changeEnable ports (fun v k b hb => ?_) gpe
    rw [setWidth_or_mask (by decide),getLsbD_or_mask hb]
    by_cases hbk : b = k <;> simp [hbk]
  | false =>
    rw [call,if_neg Bool.false_ne_true,acpiGpeDisable,acpiDisableGpe]
    refine h.enabled_changeEnable ports (fun v k b hb => ?_) gpe
    rw [setWidth_and_not_mask (by decide),getLsbD_and_not_mask hb]
    by_cases hbk : b = k <;> simp [hbk]

/-- Each block has eight bits for its events. -/
lemma Present.enableBit_inj {a b : UInt32} (ha : a.toNat < 16) (hb : b.toNat < 16)
    (hab : g.enableBit a = g.enableBit b) : a = b := by
  have hport : g.enAddr a = g.enAddr b := UInt64.toNat_inj.mp (congrArg Prod.fst hab)
  have hbit : a.toNat%8 = b.toNat%8 := congrArg Prod.snd hab
  have hdisjoint := h.disjoint 32 (by decide) 32 (by decide)
  have hblock : a < 8 ↔ b < 8 := by
    rw [h.enAddr_eq,h.enAddr_eq] at hport
    by_cases ha : a < 8
    · refine iff_of_true ha (by_contra fun hb => ?_)
      rw [if_pos ha,if_neg hb] at hport
      exact hdisjoint hport
    · refine iff_of_false ha fun hb => ?_
      rw [if_neg ha,if_pos hb] at hport
      exact hdisjoint hport.symm
  rw [UInt32.lt_iff_toNat_lt,UInt32.lt_iff_toNat_lt] at hblock
  change a.toNat < 8 ↔ b.toNat < 8 at hblock
  rw [← UInt32.toNat_inj]
  omega

/-- Over a whole run, if the events of the calls have bits of their own. -/
lemma Present.reflectsLast (ports : ℕ → BitVec 8) (calls : List GpeCall)
    (hinj : ∀ c ∈ calls, g.enableBit gpe = g.enableBit c.gpe → gpe = c.gpe) : g.ReflectsLast ports calls gpe := by
  induction calls using List.reverseRecOn with
  | nil => rfl
  | append_singleton calls c ih =>
    have hrun := ih fun c' hc' => hinj c' (List.mem_append_left _ hc')
    have hlast := hinj c (by simp)
    rw [ReflectsLast] at hrun ⊢
    rw [run,List.foldl_append,List.foldl_cons,List.foldl_nil,h.enabled_call,List.filter_append]
    by_cases hc : c.gpe = gpe
    · simp [hc]
    · have hne : g.enableBit gpe ≠ g.enableBit c.gpe := fun heq => hc (hlast heq).symm
      rw [if_neg hne,← run,hrun]
      simp [hc]

/-- Sixteen events are told apart; the next one has the bit of the ninth. -/
lemma Present.enableBit_sixteen : g.enableBit 16 = g.enableBit 8 := by
  rw [enableBit,enableBit,h.enAddr_eq,h.enAddr_eq]
  rfl

end Ready

/-- The events are controlled independently exactly as far as the two registers reach. -/
theorem gpe_independent_iff (g : GpeBlocks) (h : g.Present) (n : ℕ) : g.Independent n ↔ n ≤ 16 := by
  constructor
  · intro hg
    by_contra hn
    have heq := hg.1 16 8 (by change 16 < n; omega) (by change 8 < n; omega) h.enableBit_sixteen
    exact absurd heq (by decide)
  · intro hn
    constructor
    · exact fun a b ha hb => h.enableBit_inj (by omega) (by omega)
    · intro ports calls hcalls gpe hgpe
      refine h.reflectsLast ports calls fun c hc => ?_
      have hlt := hcalls c hc
      exact h.enableBit_inj (by omega) (by omega)

/-- Two blocks in the order of their ports. -/
lemma present_of_le {a b : UInt64} (ha : 0 < a.toNat) (hab : a.toNat+64 ≤ b.toNat) (hb : b.toNat+32 < 65536) :
    Present ⟨a,b,64,64⟩ where
  blk0 := by
    rintro rfl
    exact Nat.lt_irrefl 0 ha
  blk1 := by
    rintro rfl
    exact Nat.not_succ_le_zero _ hab
  len0 := rfl
  len1 := rfl
  disjoint := by
    intro i hi j hj heq
    have hi : i.toNat < 64 := UInt64.lt_iff_toNat_lt.mp hi
    have hj : j.toNat < 64 := UInt64.lt_iff_toNat_lt.mp hj
    have heq : (a+i).toNat = (b+j).toNat := congrArg UInt64.toNat heq
    rw [UInt64.toNat_add,UInt64.toNat_add] at heq
    omega
  port0 := by
    rw [UInt64.lt_iff_toNat_lt,UInt64.toNat_add]
    change (a.toNat+32)%_ < 65536
    omega
  port1 := by
    rw [UInt64.lt_iff_toNat_lt,UInt64.toNat_add]
    change (b.toNat+32)%_ < 65536
    omega

/-- Blocks at ports 0x600 and 0x640. -/
theorem gpe_independent_ports : Independent ⟨0x600,0x640,64,64⟩ ACPI_GPE_MAX ↔ ACPI_GPE_MAX ≤ 16 :=
  gpe_independent_iff _ (present_of_le (by decide) (by decide) (by decide)) _

/-- Event 8 is enabled, event 16 is disabled: both have bit 0 of one port, and event 8 is off. -/
theorem gpe_shared_bit : ∃ g : GpeBlocks, g.Present ∧ g.enableBit 8 = g.enableBit 16 ∧
    g.enabled (g.run (fun _ => 0) [⟨8,true⟩,⟨16,false⟩]) 8 = false := by
  exact ⟨⟨0x600,0x640,64,64⟩,present_of_le (by decide) (by decide) (by decide),by decide,by decide⟩

end GpeBlocks
end Linuxab.Acpi
