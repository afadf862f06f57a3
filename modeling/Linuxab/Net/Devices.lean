import Linuxab.Base.Chain
import Linuxab.Base.Fold
import Mathlib.Data.Int.Notation
import Mathlib.Data.Nat.Digits.Defs

/-! The list of network devices of net/dev.c. A device is an element of an arbitrary type, the callbacks
`init` and `uninit` touch neither the list nor the names, and what `init` returns is given with each
call. -/
namespace Linuxab.Net
open Linuxab.Base

def IFNAMSIZ : ℕ := 16

/-- `dev_base` with the links of the devices, their names and `dev_count`. -/
structure NetDevices (D : Type) where
  list : Slist D
  name : D → List UInt8
  devCount : Int32

/-- The conversion of `%d`. -/
def decimal (n : ℤ) : List UInt8 :=
  let digits := if n = 0 then [48] else (Nat.digits 10 n.natAbs).reverse.map fun d => 48+d.toUInt8
  if n < 0 then 45::digits else digits

section Decimal

/-- The digits of a number that is not negative. -/
def decimalDigits (k : ℕ) : List UInt8 :=
  if k = 0 then [48] else (Nat.digits 10 k).reverse.map fun d => 48+d.toUInt8

theorem decimal_eq (n : ℤ) : decimal n = if n < 0 then 45::decimalDigits n.natAbs else decimalDigits n.natAbs := by
  simp only [decimal,decimalDigits,Int.natAbs_eq_zero]

/-- The number that digits stand for. -/
def digitValue (ds : List UInt8) : ℕ := Nat.ofDigits 10 (ds.map fun b => b.toNat-48).reverse

def readDecimal : List UInt8 → ℤ
  | 45::ds => -digitValue ds
  | ds => digitValue ds

theorem digitValue_decimalDigits (k : ℕ) : digitValue (decimalDigits k) = k := by
  have hdigit : ∀ d < 10, (48+d.toUInt8).toNat-48 = d := by decide
  unfold digitValue decimalDigits
  split
  · next hk =>
    rw [hk]
    rfl
  · have hkeep : ∀ d ∈ (Nat.digits 10 k).reverse, (48+d.toUInt8).toNat-48 = d := fun d hd =>
      hdigit d (Nat.digits_lt_base (by decide) (List.mem_reverse.mp hd))
    have hread : ((Nat.digits 10 k).reverse.map fun d => 48+d.toUInt8).map (fun b => b.toNat-48)
        = (Nat.digits 10 k).reverse := by
      rw [List.map_map]
      exact (List.map_congr_left hkeep).trans (List.map_id' _)
    rw [hread,List.reverse_reverse,Nat.ofDigits_digits]

theorem decimalDigits_ne_minus (k : ℕ) {b : UInt8} (hb : b ∈ decimalDigits k) : b ≠ 45 := by
  have hdigit : ∀ d < 10, 48+d.toUInt8 ≠ 45 := by decide
  unfold decimalDigits at hb
  split at hb
  · rw [List.mem_singleton.mp hb]
    decide
  · obtain ⟨d,hd,rfl⟩ := List.mem_map.mp hb
    exact hdigit d (Nat.digits_lt_base (by decide) (List.mem_reverse.mp hd))

theorem readDecimal_decimal (n : ℤ) : readDecimal (decimal n) = n := by
  rw [decimal_eq]
  split
  · next hneg =>
    simp only [readDecimal,digitValue_decimalDigits]
    omega
  · next hpos =>
    unfold readDecimal
    split
    · next ds heq => exact absurd rfl (decimalDigits_ne_minus n.natAbs (by rw [heq]; exact List.mem_cons_self))
    · rw [digitValue_decimalDigits]
      omega

theorem decimal_injective : Function.Injective decimal :=
  Function.LeftInverse.injective readDecimal_decimal

end Decimal

/-- `snprintf(name, IFNAMSIZ, "eth%d", count)`. -/
def ethName (count : Int32) : List UInt8 := ([101,116,104] ++ decimal count.toInt).take (IFNAMSIZ-1)

theorem ethName_ne_nil (count : Int32) : ethName count ≠ [] := by
  simp [ethName,IFNAMSIZ]

namespace NetDevices
variable {D : Type} [DecidableEq D]

/-- A device without a name gets one from the number of devices. -/
def autoName (s : NetDevices D) (dev : D) : NetDevices D :=
  if s.name dev = [] then { s with name := Function.update s.name dev (ethName s.devCount) } else s

/-- The return value and the new state; `init` is what the device's callback returns, if it has one. -/
def registerNetdev (rounds : ℕ) (s : NetDevices D) (dev : D) (init : Option ℤ) : Option (ℤ × NetDevices D) :=
  let s := s.autoName dev
  match s.list.find (fun d => s.name d = s.name dev) rounds s.list.head with
  | none => none
  | some (some _) => some (-1,s)
  | some none =>
    if init.any (· ≠ 0) then some (-1,s)
    else some (0,{ s with list := s.list.push dev, devCount := s.devCount+1 })

def unregisterNetdev (rounds : ℕ) (s : NetDevices D) (dev : D) : Option (NetDevices D) :=
  match s.list.slot dev rounds none with
  | none => none
  | some none => some s
  | some (some p) => some { s with list := s.list.store p (s.list.next dev), devCount := s.devCount-1 }

omit [DecidableEq D] in
def devGetByName (rounds : ℕ) (s : NetDevices D) (name : List UInt8) : Option (Option D) :=
  s.list.find (fun d => s.name d = name) rounds s.list.head

end NetDevices

inductive DevCall (D : Type)
  | register (dev : D) (init : Option ℤ)
  | unregister (dev : D)

/-- The kernel's state, with the devices whose registration has succeeded and that were not unregistered
since, the last one first. -/
structure DevSession (D : Type) where
  devices : NetDevices D
  registered : List D

namespace DevSession
variable {D : Type} [DecidableEq D]

def call (rounds : ℕ) (s : DevSession D) : DevCall D → Option (DevSession D)
  | .register dev init =>
    (s.devices.registerNetdev rounds dev init).map fun r =>
      ⟨r.2,if r.1 = 0 then dev::s.registered else s.registered⟩
  | .unregister dev => (s.devices.unregisterNetdev rounds dev).map fun d => ⟨d,s.registered.erase dev⟩

/-- No device is registered; the links and the names of the devices are what they are. -/
def start (next : D → Option D) (name : D → List UInt8) : DevSession D := ⟨⟨⟨none,next⟩,name,0⟩,[]⟩

def run (rounds : ℕ) (s : DevSession D) (calls : List (DevCall D)) : Option (DevSession D) :=
  calls.foldlM (call rounds) s

structure Inv (s : DevSession D) : Prop where
  list : s.devices.list.Is s.registered
  names : (s.registered.map s.devices.name).Nodup
  named : ∀ d ∈ s.registered, s.devices.name d ≠ []
  count : s.devices.devCount = Int32.ofNat s.registered.length

variable {s : DevSession D} {rounds : ℕ}

/-- Only a device that is not on the list gets a new name. -/
theorem Inv.autoName (h : s.Inv) (dev : D) : DevSession.Inv ⟨s.devices.autoName dev,s.registered⟩ := by
  rw [NetDevices.autoName]
  by_cases hname : s.devices.name dev = []
  · have hdev : dev ∉ s.registered := fun hd => h.named dev hd hname
    have hsame : ∀ d ∈ s.registered, Function.update s.devices.name dev (ethName s.devices.devCount) d
        = s.devices.name d := by
      intro d hd
      exact Function.update_of_ne (ne_of_mem_of_not_mem hd hdev) _ _
    rw [if_pos hname]
    refine ⟨h.list,?_,fun d hd => ?_,h.count⟩
    · simpa [List.map_congr_left hsame] using h.names
    · simpa [hsame d hd] using h.named d hd
  · rw [if_neg hname]
    exact h

theorem autoName_ne_nil (d : NetDevices D) (dev : D) : (d.autoName dev).name dev ≠ [] := by
  rw [NetDevices.autoName]
  by_cases hname : d.name dev = []
  · rw [if_pos hname]
    simp [ethName_ne_nil]
  · rwa [if_neg hname]

/-- A device with a name that is not on the list can be put in front of it. -/
theorem Inv.push (h : s.Inv) {dev : D} (hname : s.devices.name dev ≠ [])
    (hnew : s.devices.name dev ∉ s.registered.map s.devices.name) :
    DevSession.Inv ⟨{ s.devices with list := s.devices.list.push dev, devCount := s.devices.devCount+1 },
      dev::s.registered⟩ := by
  refine ⟨h.list.push fun hd => hnew (List.mem_map_of_mem hd),?_,?_,?_⟩
  · exact List.nodup_cons.mpr ⟨hnew,h.names⟩
  · intro d hd
    obtain rfl | hd := List.mem_cons.mp hd
    · exact hname
    · exact h.named d hd
  · rw [List.length_cons,Int32.ofNat_add,h.count]
    rfl

/-- What a registration returns: it fails if a device on the list has the name or if `init` fails. -/
theorem Inv.registerNetdev_eq (h : s.Inv) (hr : s.registered.length < rounds) (dev : D) (init : Option ℤ) :
    s.devices.registerNetdev rounds dev init = some
      (if (s.devices.autoName dev).name dev ∈ s.registered.map (s.devices.autoName dev).name ∨ init.any (· ≠ 0) then
        (-1,s.devices.autoName dev)
      else (0,{ s.devices.autoName dev with
        list := (s.devices.autoName dev).list.push dev, devCount := (s.devices.autoName dev).devCount+1 })) := by
  have hfind := Slist.find_of_chain (fun d => (s.devices.autoName dev).name d = (s.devices.autoName dev).name dev)
    (h.autoName dev).list hr
  rw [NetDevices.registerNetdev]
  simp only [hfind]
  cases hdup : s.registered.find? (fun d => (s.devices.autoName dev).name d = (s.devices.autoName dev).name dev) with
  | some d =>
    have hname : (s.devices.autoName dev).name d = (s.devices.autoName dev).name dev := by simpa using List.find?_some hdup
    have hmem : (s.devices.autoName dev).name dev ∈ s.registered.map (s.devices.autoName dev).name :=
      List.mem_map.mpr ⟨d,List.mem_of_find?_eq_some hdup,hname⟩
    simp only [hmem,true_or,if_true]
  | none =>
    have hnew : (s.devices.autoName dev).name dev ∉ s.registered.map (s.devices.autoName dev).name := by
      intro hmem
      obtain ⟨d,hd,hname⟩ := List.mem_map.mp hmem
      exact List.find?_eq_none.mp hdup d hd (by simpa using hname)
    simp only [hnew,false_or]
    split <;> rfl

/-- A named device without an `init` callback is put in front of the list when its name is new. -/
theorem Inv.call_register (h : s.Inv) (hr : s.registered.length < rounds) {dev : D}
    (hname : s.devices.name dev ≠ []) (hnew : s.devices.name dev ∉ s.registered.map s.devices.name) :
    s.call rounds (.register dev none) = some
      ⟨{ s.devices with list := s.devices.list.push dev, devCount := s.devices.devCount+1 },dev::s.registered⟩ := by
  have hauto : s.devices.autoName dev = s.devices := if_neg hname
  rw [DevSession.call,h.registerNetdev_eq hr,hauto,if_neg (by simpa using hnew)]
  rfl

/-- With enough rounds for the list, a registration returns and keeps the list consistent. -/
theorem Inv.register (h : s.Inv) (hr : s.registered.length < rounds) (dev : D) (init : Option ℤ) :
    ∃ t, s.call rounds (.register dev init) = some t ∧ t.Inv ∧ t.registered.length ≤ s.registered.length+1 := by
  have ha := h.autoName dev
  rw [DevSession.call,h.registerNetdev_eq hr]
  split
  · exact ⟨_,rfl,ha,Nat.le_succ _⟩
  · next hok => exact ⟨_,rfl,ha.push (autoName_ne_nil s.devices dev) fun hmem => hok (.inl hmem),le_rfl⟩

theorem Inv.unregister (h : s.Inv) (hr : s.registered.length < rounds) (dev : D) :
    ∃ t, s.call rounds (.unregister dev) = some t ∧ t.Inv ∧ t.registered.length ≤ s.registered.length+1 := by
  rw [call,NetDevices.unregisterNetdev]
  obtain ⟨hdev,he⟩ | ⟨hdev,p,he,hlist⟩ := h.list.slot (x := dev) hr
  · rw [he]
    refine ⟨_,rfl,?_⟩
    rw [List.erase_of_not_mem hdev]
    exact ⟨h,Nat.le_succ _⟩
  · rw [he]
    have hsub : (s.registered.erase dev).Sublist s.registered := List.erase_sublist
    refine ⟨_,rfl,⟨hlist,?_,?_,?_⟩,?_⟩
    · exact h.names.sublist (hsub.map _)
    · exact fun d hd => h.named d (hsub.subset hd)
    · obtain ⟨n,hn⟩ : ∃ n, s.registered.length = n+1 :=
        Nat.exists_eq_succ_of_ne_zero (List.length_pos_of_mem hdev).ne'
      simp [h.count,List.length_erase_of_mem hdev,hn,Int32.ofNat_add]
    · exact hsub.length_le.trans (Nat.le_succ _)

theorem Inv.call (h : s.Inv) (hr : s.registered.length < rounds) (c : DevCall D) :
    ∃ t, s.call rounds c = some t ∧ t.Inv ∧ t.registered.length ≤ s.registered.length+1 := by
  cases c with
  | register dev init => exact h.register hr dev init
  | unregister dev => exact h.unregister hr dev

theorem Inv.run (h : s.Inv) (calls : List (DevCall D)) (hr : s.registered.length+calls.length < rounds) :
    ∃ t, s.run rounds calls = some t ∧ t.Inv ∧ t.registered.length < rounds := by
  induction calls generalizing s with
  | nil => exact ⟨s,rfl,h,by simpa using hr⟩
  | cons c calls ih =>
    rw [List.length_cons] at hr
    have hr' : s.registered.length < rounds := by omega
    obtain ⟨t,ht,hinv,hlen⟩ := h.call hr' c
    obtain ⟨u,hu,hrest⟩ := ih hinv (by omega)
    exact ⟨u,foldlM_cons_eq_some.mpr ⟨t,ht,hu⟩,hrest⟩

omit [DecidableEq D] in
theorem Inv.find?_eq_some_iff (h : s.Inv) (name : List UInt8) (d : D) :
    s.registered.find? (fun d => s.devices.name d = name) = some d ↔ d ∈ s.registered ∧ s.devices.name d = name := by
  constructor
  · intro hd
    exact ⟨List.mem_of_find?_eq_some hd,by simpa using List.find?_some hd⟩
  · rintro ⟨hd,rfl⟩
    -- the first device with that name is the only one
    cases he : s.registered.find? (fun e => s.devices.name e = s.devices.name d) with
    | none => exact absurd (List.find?_eq_none.mp he d hd) (by simp)
    | some e =>
      have hname : s.devices.name e = s.devices.name d := by simpa using List.find?_some he
      rw [List.inj_on_of_nodup_map h.names (List.mem_of_find?_eq_some he) hd hname]

omit [DecidableEq D] in
theorem start_inv (next : D → Option D) (name : D → List UInt8) : (DevSession.start next name).Inv :=
  ⟨rfl,List.nodup_nil,nofun,rfl⟩

end DevSession

/-- The list from `dev_base` ends, has exactly the registered devices on it, none of them twice, with
pairwise distinct names, and the lookup by name finds them. `dev_count` is their number as an `int`. -/
structure Consistent {D : Type} (rounds : ℕ) (s : DevSession D) : Prop where
  list : s.devices.list.Is s.registered
  nodup : s.registered.Nodup
  names : (s.registered.map s.devices.name).Nodup
  count : s.devices.devCount = Int32.ofNat s.registered.length
  lookup : ∀ name, ∃ r, s.devices.devGetByName rounds name = some r ∧
    (∀ d, r = some d ↔ d ∈ s.registered ∧ s.devices.name d = name) ∧
    (r = none ↔ ∀ d ∈ s.registered, s.devices.name d ≠ name)

theorem devices_consistent {D : Type} [DecidableEq D] (next : D → Option D) (name : D → List UInt8)
    (calls : List (DevCall D)) (rounds : ℕ) (hr : calls.length < rounds) :
    ∃ s, (DevSession.start next name).run rounds calls = some s ∧ Consistent rounds s := by
  obtain ⟨s,hs,h,hlen⟩ := (DevSession.start_inv next name).run calls (by simpa [DevSession.start] using hr)
  refine ⟨s,hs,h.list,Chain.nodup h.list,h.names,h.count,fun n => ?_⟩
  refine ⟨_,Slist.find_of_chain _ h.list hlen,h.find?_eq_some_iff n,by simp⟩

/-- Two devices without a name, one of them registered twice and then taken off. -/
theorem devices_consistent_twice :
    4 < 5 ∧ ∃ s, (DevSession.start (fun _ : Bool => none) (fun _ => [])).run 5
      [.register true none,.register false (some 0),.register true none,.unregister true] = some s ∧
      Consistent 5 s :=
  ⟨by decide,devices_consistent _ _ _ 5 (by decide)⟩

/-- A name for the device `d`: its number, from 1 on. -/
def numberName (d : ℕ) : List UInt8 := decimal (d+1)

theorem numberName_ne_nil (d : ℕ) : numberName d ≠ [] := by
  intro hnil
  have hread := readDecimal_decimal (d+1)
  rw [← numberName,hnil] at hread
  simp only [readDecimal,digitValue,List.map_nil,List.reverse_nil,Nat.ofDigits_nil] at hread
  omega

theorem numberName_injective : Function.Injective numberName := by
  intro d e he
  have := decimal_injective he
  omega

/-- Any number of devices can be on the list. -/
theorem exists_devices (n rounds : ℕ) (hr : n < rounds) :
    ∃ s, (DevSession.start (fun _ => none) numberName).run rounds
        ((List.range n).map fun d => .register d none) = some s ∧
      s.Inv ∧ s.registered.length = n ∧ s.devices.name = numberName ∧ ∀ d ∈ s.registered, d < n := by
  induction n with
  | zero => exact ⟨_,rfl,DevSession.start_inv _ _,rfl,rfl,nofun⟩
  | succ n ih =>
    obtain ⟨s,hs,h,hlen,hname,hlt⟩ := ih (by omega)
    have hnew : s.devices.name n ∉ s.registered.map s.devices.name := by
      intro hmem
      obtain ⟨d,hd,he⟩ := List.mem_map.mp hmem
      rw [hname] at he
      exact absurd (numberName_injective he) (hlt d hd).ne
    have hne : s.devices.name n ≠ [] := by
      rw [hname]
      exact numberName_ne_nil n
    have hcall : s.call rounds (.register n none) = _ := h.call_register (by omega) hne hnew
    refine ⟨_,?_,h.push hne hnew,by simp [hlen],hname,?_⟩
    · rw [DevSession.run] at hs
      rw [List.range_succ,List.map_append,DevSession.run,List.foldlM_append,hs]
      exact foldlM_cons_eq_some.mpr ⟨_,hcall,rfl⟩
    · intro d hd
      obtain rfl | hd := List.mem_cons.mp hd
      · exact Nat.lt_succ_self d
      · exact Nat.lt_succ_of_lt (hlt d hd)

/-- With `2^31` devices on the list `dev_count` is negative. -/
theorem devCount_not_always_length :
    ∃ s, (DevSession.start (fun _ => none) numberName).run (2^31+1)
        ((List.range (2^31)).map fun d => .register d none) = some s ∧
      s.devices.list.Is s.registered ∧ s.registered.length = 2^31 ∧ s.devices.devCount.toInt = -2^31 := by
  obtain ⟨s,hs,h,hlen,-⟩ := exists_devices (2^31) (2^31+1) (Nat.lt_succ_self _)
  refine ⟨s,hs,h.list,hlen,?_⟩
  rw [h.count,hlen]
  decide

end Linuxab.Net
