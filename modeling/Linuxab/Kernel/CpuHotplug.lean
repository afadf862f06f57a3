import Linuxab.Base.Integers
import Linuxab.Base.Population
import Linuxab.Base.While
import Mathlib.Data.Nat.Size

/-! Bringing processors up and down in kernel/cpu.c. `cpu_online` asks for any of the 256 processors by the
low five bits of its number, while `set_cpu_online` changes the map for the first 32 only. -/
namespace Linuxab.Kernel
open Linuxab.Base

def NR_CPUS : ℤ := 256

/-- `1U << cpu`, where the processor takes the count modulo 32. -/
def cpuBit (cpu : ℤ) : BitVec 32 := 1#32 <<< (cpu.toNat%32)

def cpuOnline (cpuOnlineMap : BitVec 32) (cpu : ℤ) : Bool :=
  if cpu < 0 ∨ cpu ≥ NR_CPUS then false else cpuOnlineMap &&& cpuBit cpu ≠ 0

/-- Counts the bits from the lowest one on. -/
def numOnlineCpus (rounds : ℕ) (cpuOnlineMap : BitVec 32) : Option ℕ :=
  (whileLoop (fun s : BitVec 32 × ℕ => s.1 ≠ 0) (fun s => (s.1 >>> 1,s.2+(s.1 &&& 1).toNat)) rounds
    (cpuOnlineMap,0)).map Prod.snd

def setCpuOnline (cpuOnlineMap : BitVec 32) (cpu : ℤ) (online : Bool) : BitVec 32 :=
  if cpu < 0 ∨ cpu ≥ 32 then cpuOnlineMap
  else if online then cpuOnlineMap ||| cpuBit cpu
  else cpuOnlineMap &&& ~~~cpuBit cpu

/-- The argument is handed on as an `int`. -/
def cpuUp (cpuOnlineMap : BitVec 32) (cpu : UInt32) : ℤ × BitVec 32 :=
  if cpuOnline cpuOnlineMap cpu.toInt32.toInt then (-1,cpuOnlineMap)
  else (0,setCpuOnline cpuOnlineMap cpu.toInt32.toInt true)

def cpuDown (cpuOnlineMap : BitVec 32) (cpu : UInt32) : ℤ × BitVec 32 :=
  if !cpuOnline cpuOnlineMap cpu.toInt32.toInt then (-1,cpuOnlineMap)
  else if cpu = 0 then (-1,cpuOnlineMap)
  else (0,setCpuOnline cpuOnlineMap cpu.toInt32.toInt false)

/-- `cpu_up` or `cpu_down`. -/
structure HotplugCall where
  up : Bool
  cpu : UInt32

def HotplugCall.apply (c : HotplugCall) (cpuOnlineMap : BitVec 32) : ℤ × BitVec 32 :=
  if c.up then cpuUp cpuOnlineMap c.cpu else cpuDown cpuOnlineMap c.cpu

/-- The map after `cpu_init` and the calls. -/
def onlineMap (calls : List HotplugCall) : BitVec 32 := calls.foldl (fun map c => (c.apply map).2) 1

/-- The call does what it returns, as seen on the processors below `limit`. -/
structure HotplugRight (limit : ℤ) (map : BitVec 32) (c : HotplugCall) : Prop where
  online : (c.apply map).1 = 0 → cpuOnline (c.apply map).2 c.cpu.toInt32.toInt = c.up
  count : (c.apply map).1 = 0 → ∃ before after, (∀ rounds, 32 ≤ rounds →
    numOnlineCpus rounds map = some before ∧ numOnlineCpus rounds (c.apply map).2 = some after) ∧
    if c.up then after = before+1 else before = after+1
  failed : (c.apply map).1 = -1 → (c.apply map).2 = map
  others : ∀ cpu : ℤ, 0 ≤ cpu → cpu < limit → cpu ≠ c.cpu.toNat → cpuOnline (c.apply map).2 cpu = cpuOnline map cpu

section Map
variable {map : BitVec 32} {k : ℕ}

lemma cpuOnline_eq (map : BitVec 32) (hk : k < 256) : cpuOnline map k = map.getLsbD (k%32) := by
  have hrange : ¬((k : ℤ) < 0 ∨ (k : ℤ) ≥ NR_CPUS) := by
    rw [NR_CPUS]
    omega
  have hlt : k%32 < 32 := Nat.mod_lt _ (by decide)
  rw [cpuOnline,if_neg hrange,Bool.eq_iff_iff,decide_eq_true_iff,cpuBit,Int.toNat_natCast,and_mask_ne_zero_iff hlt]

/-- The processors from 32 on share the bits of the first ones. -/
lemma cpuOnline_add_32 (map : BitVec 32) (hk : k < 32) : cpuOnline map (k+32 : ℕ) = cpuOnline map k := by
  rw [cpuOnline_eq map (by omega),cpuOnline_eq map (by omega),Nat.add_mod_right]

lemma setCpuOnline_eq (map : BitVec 32) (hk : k < 32) (online : Bool) :
    setCpuOnline map k online = if online then map ||| 1#32 <<< k else map &&& ~~~(1#32 <<< k) := by
  have hrange : ¬((k : ℤ) < 0 ∨ (k : ℤ) ≥ 32) := by omega
  rw [setCpuOnline,if_neg hrange,cpuBit,Int.toNat_natCast,Nat.mod_eq_of_lt hk]

lemma setCpuOnline_of_ge (map : BitVec 32) {cpu : ℤ} (h : cpu < 0 ∨ cpu ≥ 32) (online : Bool) :
    setCpuOnline map cpu online = map := if_pos h

lemma getLsbD_setCpuOnline (map : BitVec 32) (hk : k < 32) (online : Bool) {j : ℕ} (hj : j < 32) :
    (setCpuOnline map k online).getLsbD j = if j = k then online else map.getLsbD j := by
  rw [setCpuOnline_eq map hk]
  cases online with
  | true =>
    rw [if_pos rfl,getLsbD_or_mask hj]
    split_ifs with hjk <;> simp [hjk]
  | false =>
    rw [if_neg Bool.false_ne_true,getLsbD_and_not_mask hj]
    split_ifs with hjk <;> simp [hjk]

/-- A shift drops the lowest bit and makes the word shorter. -/
lemma size_shiftRight_lt (h : map ≠ 0) : (map >>> 1).toNat.size < map.toNat.size := by
  have hne : map.toNat ≠ 0 := fun h0 => h (BitVec.eq_of_toNat_eq h0)
  have hhalf : (map >>> 1).toNat = map.toNat/2 := by rw [BitVec.toNat_ushiftRight,Nat.shiftRight_one]
  have hsize := Nat.size_bit (b := map.toNat.bodd) (n := map.toNat.div2) (by rwa [Nat.bit_bodd_div2])
  rw [Nat.bit_bodd_div2,Nat.div2_val] at hsize
  rw [hhalf,hsize]
  exact Nat.lt_succ_self _

/-- The loop counts the ones. -/
lemma numOnlineCpus_eq (map : BitVec 32) {rounds : ℕ} (hr : 32 ≤ rounds) :
    numOnlineCpus rounds map = some (ones map) := by
  have hround : ∀ s : BitVec 32 × ℕ, s.2+ones s.1 = ones map → decide (s.1 ≠ 0) = true →
      (s.2+(s.1 &&& 1).toNat)+ones (s.1 >>> 1) = ones map ∧ (s.1 >>> 1).toNat.size < s.1.toNat.size := by
    rintro ⟨m,n⟩ hsum hne
    have hlow : (m &&& 1).toNat = (m.getLsbD 0).toNat := by
      rw [BitVec.toNat_and,BitVec.getLsbD,Nat.testBit_zero]
      change m.toNat &&& 1 = _
      rw [Nat.and_one_is_mod]
      rcases Nat.mod_two_eq_zero_or_one m.toNat with h | h <;> simp [h]
    have hm : m ≠ 0 := by simpa using hne
    refine ⟨?_,size_shiftRight_lt hm⟩
    rw [ones_shiftRight m] at hsum
    rw [hlow,← hsum]
    exact Nat.add_assoc _ _ _
  obtain ⟨t,hrun,hsum,hend⟩ := exists_whileLoop (c := fun s : BitVec 32 × ℕ => decide (s.1 ≠ 0))
    (f := fun s => (s.1 >>> 1,s.2+(s.1 &&& 1).toNat)) (s := (map,0))
    (fun s => s.2+ones s.1 = ones map) (fun s => s.1.toNat.size) hround (Nat.zero_add _)
  have hsize : map.toNat.size ≤ 32 := Nat.size_le.mpr map.isLt
  have hzero : t.1 = 0 := by simpa using hend
  rw [hzero,ones_zero] at hsum
  rw [numOnlineCpus,hrun rounds (hsize.trans hr)]
  exact congrArg some hsum

end Map

section Calls
variable {map : BitVec 32} {c : HotplugCall}

/-- What a call can do: it fails and leaves the map alone, or it returns 0, asked for a processor that was
in the other state, and sets its state. -/
lemma apply_cases (c : HotplugCall) (map : BitVec 32) : c.apply map = (-1,map) ∨
    cpuOnline map c.cpu.toInt32.toInt = !c.up ∧ c.apply map = (0,setCpuOnline map c.cpu.toInt32.toInt c.up) := by
  obtain ⟨up,cpu⟩ := c
  cases up with
  | true =>
    simp only [HotplugCall.apply,cpuUp,if_true]
    cases cpuOnline map cpu.toInt32.toInt <;> simp
  | false =>
    simp only [HotplugCall.apply,cpuDown,Bool.false_eq_true,if_false]
    cases cpuOnline map cpu.toInt32.toInt with
    | false => simp
    | true => by_cases hzero : cpu = 0 <;> simp [hzero]

/-- The numbers of the map are handed on unchanged, all others end up out of its range. -/
lemma toInt_cpu (cpu : UInt32) : cpu.toNat < 32 ∧ cpu.toInt32.toInt = (cpu.toNat : ℤ) ∨
    32 ≤ cpu.toNat ∧ (cpu.toInt32.toInt < 0 ∨ cpu.toInt32.toInt ≥ 32) := by
  have hlt := cpu.toNat_lt
  rw [toInt_toInt32]
  split_ifs <;> omega

/-- On the first 32 processors the calls are right. -/
theorem hotplug_right_below (map : BitVec 32) (hc : c.cpu.toNat < 32) : HotplugRight 32 map c := by
  have hint : c.cpu.toInt32.toInt = (c.cpu.toNat : ℤ) := by
    rcases toInt_cpu c.cpu with h | h
    · exact h.2
    · omega
  obtain hfail | ⟨hstate,hdone⟩ := apply_cases c map
  · refine ⟨?_,?_,?_,?_⟩ <;> simp [hfail]
  · rw [hint] at hstate hdone
    rw [cpuOnline_eq map (by omega),Nat.mod_eq_of_lt hc] at hstate
    refine ⟨fun _ => ?_,fun _ => ⟨ones map,ones (c.apply map).2,fun rounds hr =>
      ⟨numOnlineCpus_eq map hr,numOnlineCpus_eq _ hr⟩,?_⟩,?_,?_⟩
    · rw [hdone,hint,cpuOnline_eq _ (by omega),Nat.mod_eq_of_lt hc,getLsbD_setCpuOnline map hc _ hc,if_pos rfl]
    · rw [hdone,setCpuOnline_eq map hc]
      cases hup : c.up with
      | true => exact ones_set hc (by rw [hstate,hup]; rfl)
      | false => exact (ones_clear hc (by rw [hstate,hup]; rfl)).symm
    · simp [hdone]
    · intro cpu hpos hlt hne
      obtain ⟨j,rfl⟩ := Int.eq_ofNat_of_zero_le hpos
      have hj : j < 32 := by omega
      have hjc : j ≠ c.cpu.toNat := by omega
      rw [hdone,cpuOnline_eq _ (by omega),cpuOnline_eq _ (by omega),Nat.mod_eq_of_lt hj,
        getLsbD_setCpuOnline map hc _ hj,if_neg hjc]

/-- A call that returns 0 is wrong about some of the 256 processors: one of the first 32 takes those with
the same bit along, and for all others nothing is done. -/
lemma not_hotplugRight (hzero : (c.apply map).1 = 0) : ¬HotplugRight NR_CPUS map c := by
  intro h
  obtain hfail | ⟨hstate,hdone⟩ := apply_cases c map
  · simp [hfail] at hzero
  have hnow := h.online hzero
  rcases toInt_cpu c.cpu with ⟨hlt,hint⟩ | ⟨hge,hout⟩
  · have hother := h.others (c.cpu.toNat+32 : ℕ) (by omega) (by rw [NR_CPUS]; omega) (by omega)
    rw [cpuOnline_add_32 _ hlt,cpuOnline_add_32 _ hlt,← hint,hnow,hstate] at hother
    cases hup : c.up <;> simp [hup] at hother
  · rw [hdone,setCpuOnline_of_ge map hout,hstate] at hnow
    cases hup : c.up <;> simp [hup] at hnow

end Calls

end Linuxab.Kernel
