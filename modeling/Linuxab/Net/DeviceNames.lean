import Mathlib.Data.Nat.Digits.Lemmas
import Linuxab.Net.Devices

/-! The names that `register_netdev` makes up. They are made from `dev_count`, which goes down again when a
device is unregistered, and then the name can be that of a device that is still there. -/
namespace Linuxab.Net
open Linuxab.Base

section Names

/-- An `int` is short enough that `snprintf` cuts nothing off. -/
theorem ethName_eq (count : Int32) : ethName count = [101,116,104] ++ decimal count.toInt := by
  have habs : count.toInt.natAbs < 10^10 := by
    have hlt := count.toInt_lt
    have hle := count.le_toInt
    omega
  have hdigits : (decimalDigits count.toInt.natAbs).length ≤ 10 := by
    unfold decimalDigits
    split
    · decide
    · rw [List.length_map,List.length_reverse]
      exact (Nat.digits_length_le_iff (by decide) _).mpr habs
  apply List.take_of_length_le
  rw [decimal_eq]
  split
  · simp only [List.length_append,List.length_cons,List.length_nil,IFNAMSIZ]
    omega
  · simp only [List.length_append,List.length_cons,List.length_nil,IFNAMSIZ]
    omega

theorem ethName_injective : Function.Injective ethName := by
  intro c c' he
  rw [ethName_eq,ethName_eq] at he
  exact Int32.toInt_inj.mp (decimal_injective (List.append_cancel_left he))

lemma ofNat_ne_ofNat {k n : ℕ} (hk : k < n) (hn : n < 2^32) : Int32.ofNat k ≠ Int32.ofNat n := by
  intro he
  have hbits := congrArg (fun c : Int32 => c.toBitVec.toNat) he
  simp only [Int32.toBitVec_ofNat',BitVec.toNat_ofNat] at hbits
  omega

end Names

/-- There is no callback, or it returns 0. -/
def InitSucceeds (init : Option ℤ) : Prop := init = none ∨ init = some 0

namespace DevSession
variable {D : Type} {s : DevSession D} {rounds : ℕ} {dev : D} {init : Option ℤ}

/-- The name that a device without one gets next. -/
def nextName (s : DevSession D) : List UInt8 := ethName (Int32.ofNat s.registered.length)

variable [DecidableEq D]

lemma Inv.autoName_new (h : s.Inv) (hname : s.devices.name dev = []) :
    (s.devices.autoName dev).name dev = s.nextName := by
  rw [NetDevices.autoName,if_pos hname,nextName,← h.count]
  exact Function.update_self _ _ _

lemma autoName_of_ne {d : D} (hd : d ≠ dev) : (s.devices.autoName dev).name d = s.devices.name d := by
  rw [NetDevices.autoName]
  split
  · exact Function.update_of_ne hd _ _
  · rfl

/-- The devices on the list keep their names. -/
lemma Inv.autoName_listed (h : s.Inv) (hname : s.devices.name dev = []) :
    s.registered.map (s.devices.autoName dev).name = s.registered.map s.devices.name := by
  apply List.map_congr_left
  intro d hd
  exact autoName_of_ne (ne_of_mem_of_not_mem hd fun hd => h.named dev hd hname)

/-- What a registration of a device without a name does: it fails exactly if a device on the list has the
name that was made up. -/
theorem Inv.register_unnamed (h : s.Inv) (hr : s.registered.length < rounds) (hname : s.devices.name dev = [])
    (hinit : InitSucceeds init) : s.devices.registerNetdev rounds dev init = some
      (if s.nextName ∈ s.registered.map s.devices.name then (-1,s.devices.autoName dev)
       else (0,{ s.devices.autoName dev with
         list := (s.devices.autoName dev).list.push dev, devCount := (s.devices.autoName dev).devCount+1 })) := by
  have hok : init.any (· ≠ 0) = false := by
    rcases hinit with rfl | rfl <;> rfl
  rw [h.registerNetdev_eq hr,h.autoName_new hname,h.autoName_listed hname]
  simp only [hok,Bool.false_eq_true,or_false]

/-- The call returns 0 and the new name is none of those on the list. -/
def NamesFreshly (rounds : ℕ) (s : DevSession D) (dev : D) (init : Option ℤ) : Prop :=
  ∃ t, s.devices.registerNetdev rounds dev init = some (0,t) ∧ ∀ d ∈ s.registered, t.name d ≠ t.name dev

lemma Inv.namesFreshly_iff (h : s.Inv) (hr : s.registered.length < rounds) (hname : s.devices.name dev = [])
    (hinit : InitSucceeds init) : NamesFreshly rounds s dev init ↔ s.nextName ∉ s.registered.map s.devices.name := by
  rw [NamesFreshly,h.register_unnamed hr hname hinit]
  split
  · next hmem => simp [hmem]
  · next hfresh =>
    refine iff_of_true ⟨_,rfl,?_⟩ hfresh
    intro d hd he
    apply hfresh
    rw [← h.autoName_listed hname,← h.autoName_new hname,← he]
    exact List.mem_map_of_mem hd

/-- Of the devices that came without a name those that have one are on the list, and the names on the list
are made from numbers below their count. -/
structure Numbered (name : D → List UInt8) (s : DevSession D) : Prop extends s.Inv where
  listed : ∀ d, name d = [] → s.devices.name d ≠ [] → d ∈ s.registered
  numbered : ∀ d ∈ s.registered, ∃ k < s.registered.length, s.devices.name d = ethName (Int32.ofNat k)

variable {name : D → List UInt8}

omit [DecidableEq D] in
lemma Numbered.nextName_fresh (h : s.Numbered name) (hn : s.registered.length < 2^32) :
    s.nextName ∉ s.registered.map s.devices.name := by
  intro hmem
  obtain ⟨d,hd,he⟩ := List.mem_map.mp hmem
  obtain ⟨k,hk,hkname⟩ := h.numbered d hd
  exact ofNat_ne_ofNat hk hn (ethName_injective (hkname.symm.trans he))

/-- A device that is on the list is not registered again. -/
lemma Inv.call_listed (h : s.Inv) (hr : s.registered.length < rounds) (hdev : dev ∈ s.registered)
    (init : Option ℤ) : s.call rounds (.register dev init) = some s := by
  have hauto : s.devices.autoName dev = s.devices := if_neg (h.named dev hdev)
  rw [DevSession.call,h.registerNetdev_eq hr,hauto,if_pos (.inl (List.mem_map_of_mem hdev))]
  rfl

lemma Numbered.call_register (h : s.Numbered name) (hdev : name dev = []) (hinit : InitSucceeds init)
    (hn : s.registered.length < 2^32) (hr : s.registered.length < rounds) :
    ∃ t, s.call rounds (.register dev init) = some t ∧ t.Numbered name ∧
      t.registered.length ≤ s.registered.length+1 := by
  by_cases hname : s.devices.name dev = []
  · have hfresh := h.nextName_fresh hn
    have hnew := h.autoName_new hname
    have hinv := (h.toInv.autoName dev).push (autoName_ne_nil s.devices dev) (by
      rw [hnew,h.autoName_listed hname]
      exact hfresh)
    refine ⟨_,?_,⟨hinv,?_,?_⟩,le_rfl⟩
    · rw [call,h.register_unnamed hr hname hinit,if_neg hfresh]
      rfl
    · intro d hd hne
      by_cases heq : d = dev
      · exact heq ▸ List.mem_cons_self
      · rw [autoName_of_ne heq] at hne
        exact List.mem_cons_of_mem _ (h.listed d hd hne)
    · intro d hd
      obtain rfl | hd := List.mem_cons.mp hd
      · exact ⟨s.registered.length,Nat.lt_succ_self _,hnew⟩
      · obtain ⟨k,hk,hkname⟩ := h.numbered d hd
        have hne : d ≠ dev := ne_of_mem_of_not_mem hd fun hd => h.named dev hd hname
        exact ⟨k,Nat.lt_succ_of_lt hk,(autoName_of_ne hne).trans hkname⟩
  · exact ⟨s,h.call_listed hr (h.listed dev hdev hname) init,h,Nat.le_succ _⟩

end DevSession

section Runs
variable {D : Type} [DecidableEq D] {next : D → Option D} {name : D → List UInt8} {calls : List (DevCall D)} {rounds : ℕ}

/-- Each call that registers a device without a name succeeds with a name that is new to the list. -/
def AutoNamesFresh (rounds : ℕ) (next : D → Option D) (name : D → List UInt8) (calls : List (DevCall D)) : Prop :=
  ∀ pre dev init post, calls = pre ++ .register dev init::post →
    ∃ s, (DevSession.start next name).run rounds pre = some s ∧
      (s.devices.name dev = [] → s.NamesFreshly rounds dev init)

/-- Devices come without a name, and their callbacks succeed. -/
def RegistersUnnamed (name : D → List UInt8) (calls : List (DevCall D)) : Prop :=
  ∀ dev init, .register dev init ∈ calls → name dev = [] ∧ InitSucceeds init

/-- The automatic names are fresh exactly if no such call finds the number of devices as the name of one
of them. -/
theorem autoNamesFresh_iff (hcalls : RegistersUnnamed name calls) (hr : calls.length < rounds) :
    AutoNamesFresh rounds next name calls ↔
      ∀ pre dev init post s, calls = pre ++ .register dev init::post →
        (DevSession.start next name).run rounds pre = some s → s.devices.name dev = [] →
          ethName (Int32.ofNat s.registered.length) ∉ s.registered.map s.devices.name := by
  have hpre : ∀ {pre dev init post}, calls = pre ++ .register dev init::post →
      ∃ s, (DevSession.start next name).run rounds pre = some s ∧ s.Inv ∧ s.registered.length < rounds := by
    intro pre dev init post hsplit
    apply (DevSession.start_inv next name).run
    rw [hsplit,List.length_append] at hr
    exact (Nat.zero_add _).trans_lt (by omega)
  have hinit : ∀ {pre dev init post}, calls = pre ++ .register dev init::post → InitSucceeds init := by
    intro pre dev init post hsplit
    exact (hcalls dev init (by simp [hsplit])).2
  constructor
  · intro hfresh pre dev init post s hsplit hs hname
    obtain ⟨s',hs',hinv,hlen⟩ := hpre hsplit
    obtain ⟨s'',hs'',hnames⟩ := hfresh pre dev init post hsplit
    obtain rfl : s' = s := Option.some.inj (hs'.symm.trans hs)
    obtain rfl : s' = s'' := Option.some.inj (hs'.symm.trans hs'')
    exact (hinv.namesFreshly_iff hlen hname (hinit hsplit)).mp (hnames hname)
  · intro hfree pre dev init post hsplit
    obtain ⟨s,hs,hinv,hlen⟩ := hpre hsplit
    refine ⟨s,hs,?_⟩
    intro hname
    exact (hinv.namesFreshly_iff hlen hname (hinit hsplit)).mpr (hfree pre dev init post s hsplit hs hname)

/-- Numbers are used again only after a device was unregistered: without that the names are fresh. -/
theorem autoNamesFresh_of_register_only (hcalls : RegistersUnnamed name calls)
    (honly : ∀ c ∈ calls, ∃ dev init, c = .register dev init) (hlen : calls.length ≤ 2^32)
    (hr : calls.length < rounds) : AutoNamesFresh rounds next name calls := by
  have hrun : ∀ pre, pre <+: calls → ∃ s, (DevSession.start next name).run rounds pre = some s ∧ s.Numbered name ∧
      s.registered.length ≤ pre.length := by
    intro pre
    induction pre using List.reverseRecOn with
    | nil =>
      intro _
      refine ⟨_,rfl,⟨DevSession.start_inv next name,?_,nofun⟩,le_rfl⟩
      intro d hd hne
      exact absurd hd hne
    | append_singleton pre c ih =>
      intro hpre
      have hle := hpre.length_le
      rw [List.length_append,List.length_singleton] at hle
      obtain ⟨s,hs,hnum,hcount⟩ := ih ((List.prefix_append pre [c]).trans hpre)
      have hc : c ∈ calls := hpre.subset (by simp)
      obtain ⟨dev,init,rfl⟩ := honly c hc
      obtain ⟨hdev,hinit⟩ := hcalls dev init hc
      obtain ⟨t,ht,hnum',hcount'⟩ := hnum.call_register hdev hinit (by omega) (by omega : s.registered.length < rounds)
      refine ⟨t,?_,hnum',?_⟩
      · rw [DevSession.run] at hs
        rw [DevSession.run,List.foldlM_append,hs]
        exact foldlM_cons_eq_some.mpr ⟨t,ht,rfl⟩
      · rw [List.length_append,List.length_singleton]
        omega
  intro pre dev init post hsplit
  have hpre : pre <+: calls := ⟨_,hsplit.symm⟩
  have hlt : pre.length < calls.length := by
    rw [hsplit,List.length_append,List.length_cons]
    omega
  obtain ⟨s,hs,hnum,hcount⟩ := hrun pre hpre
  refine ⟨s,hs,?_⟩
  intro hname
  have hinit := (hcalls dev init (by simp [hsplit])).2
  exact (hnum.namesFreshly_iff (by omega) hname hinit).mpr (hnum.nextName_fresh (by omega))

/-- Two devices, one with a callback. -/
def twoDevices : List (DevCall Bool) := [.register true none,.register false (some 0)]

lemma twoDevices_unnamed : RegistersUnnamed (fun _ => []) twoDevices := by
  intro dev init h
  simp only [twoDevices,List.mem_cons,DevCall.register.injEq,List.not_mem_nil,or_false] at h
  exact ⟨rfl,h.imp And.right And.right⟩

theorem autoNamesFresh_iff_two : twoDevices.length < 3 ∧ ∀ pre dev init post s,
    twoDevices = pre ++ .register dev init::post →
      (DevSession.start (fun _ => none) fun _ => []).run 3 pre = some s → s.devices.name dev = [] →
        ethName (Int32.ofNat s.registered.length) ∉ s.registered.map s.devices.name := by
  have hfresh : AutoNamesFresh 3 (fun _ => none) (fun _ => []) twoDevices :=
    autoNamesFresh_of_register_only twoDevices_unnamed (by simp [twoDevices]) (by decide) (by decide)
  exact ⟨by decide,(autoNamesFresh_iff twoDevices_unnamed (by decide)).mp hfresh⟩

/-- Of two devices the first is unregistered; the third then gets the name of the second. -/
def reusedNumber : List (DevCall (Fin 3)) := [.register 0 none,.register 1 none,.unregister 0,.register 2 none]

theorem autoNames_collide : RegistersUnnamed (fun _ => []) reusedNumber ∧
    ¬ AutoNamesFresh 5 (fun _ => none) (fun _ => []) reusedNumber := by
  refine ⟨?_,?_⟩
  · intro dev init h
    simp only [reusedNumber,List.mem_cons,DevCall.register.injEq,reduceCtorEq,false_or,List.not_mem_nil,or_false] at h
    refine ⟨rfl,.inl ?_⟩
    rcases h with h | h | h <;> exact h.2
  · intro hfresh
    obtain ⟨s,hs,hname⟩ := hfresh [.register 0 none,.register 1 none,.unregister 0] 2 none [] rfl
    have hunnamed : (some s).map (fun s => s.devices.name 2) = some [] := by
      rw [← hs]
      decide
    have hfails : (some s).bind (fun s => (s.devices.registerNetdev 5 2 none).map Prod.fst) = some (-1) := by
      rw [← hs]
      decide
    obtain ⟨t,ht,-⟩ := hname (Option.some.inj hunnamed)
    rw [Option.bind_some,ht] at hfails
    cases hfails

end Runs

end Linuxab.Net
