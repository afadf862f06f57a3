import Linuxab.Net.Stack

/-! Rules for running the stack on a machine: what a condition on every command of a run says about
the first command and about the rest. The functions are then followed command by command. -/
namespace Linuxab.Net
open Linuxab.Base Linuxab.Base.Program

/-- The condition holds at every command of the run of `p` on the machine. -/
def Throughout {α : Type} (P : Machine → (Σ β : Type,NetCmd β) → Prop) (p : NetProg α) (m : Machine) :
    Prop :=
  p.Always Machine.handle P m

def word16 (mem : ℤ → UInt8) (a : ℤ) : UInt16 := UInt16.ofNat (le16 (mem a) (mem (a+1)))

def word32 (mem : ℤ → UInt8) (a : ℤ) : UInt32 :=
  UInt32.ofNat (le32 (mem a) (mem (a+1)) (mem (a+2)) (mem (a+3)))

/-- The machine after `skb_pull`. -/
def Machine.pulled (m : Machine) (len : UInt32) : Machine :=
  { m with skb := { m.skb with len := m.skb.len-len, data := m.skb.data+len.toNat } }

def Machine.pushed (m : Machine) (len : UInt32) : Machine :=
  { m with skb := { m.skb with data := m.skb.data-len.toNat, len := m.skb.len+len } }

def Machine.put (m : Machine) (len : UInt32) : Machine :=
  { m with skb := { m.skb with tail := m.skb.tail+len.toNat, len := m.skb.len+len } }

def Machine.reserved (m : Machine) (len : ℤ) : Machine :=
  { m with skb := { m.skb with data := m.skb.data+len, tail := m.skb.tail+len } }

def Machine.written (m : Machine) (a : ℤ) (bytes : List UInt8) : Machine :=
  { m with mem := writeBytes m.mem a bytes }

def Machine.withSkb (m : Machine) (skb : SkBuff) : Machine := { m with skb := skb }

/-- The machine in which `eth_type_trans` pulls the Ethernet header. -/
def Machine.classified (m : Machine) (pktType : PacketType) : Machine :=
  { m with skb := { m.skb with protocol := word16 m.mem (m.skb.data+12), pktType := pktType } }

/-- What `dev_get_by_name` finds. -/
def Machine.device (m : Machine) (name : String) : Option NetDevice :=
  m.devBase.find? (fun dev => dev.name = name)

section Rules
variable {α : Type} {P : Machine → (Σ β : Type,NetCmd β) → Prop} {m : Machine}

@[simp] lemma throughout_ret (a : α) : Throughout P (ret a) m := always_ret _ a m

@[simp] lemma throughout_perform {β : Type} (c : NetCmd β) : Throughout P (perform c) m ↔ P m ⟨β,c⟩ := by
  simp [Throughout,perform]

lemma throughout_bind {β : Type} (p : NetProg β) (f : β → NetProg α) :
    Throughout P (p >>= f) m ↔ Throughout P p m ∧
      Throughout P (f (p.exec Machine.handle m).1) (p.exec Machine.handle m).2 :=
  always_bind _ p f m

@[simp] lemma throughout_getSkb (f : SkBuff → NetProg α) :
    Throughout P (getSkb >>= f) m ↔ P m ⟨_,.getSkb⟩ ∧ Throughout P (f m.skb) m :=
  always_call _ NetCmd.getSkb _ m

@[simp] lemma throughout_setSkb (skb : SkBuff) (f : Unit → NetProg α) :
    Throughout P (setSkb skb >>= f) m ↔ P m ⟨_,.setSkb skb⟩ ∧ Throughout P (f ()) (m.withSkb skb) :=
  always_call _ (NetCmd.setSkb skb) _ m

@[simp] lemma throughout_skbPull (len : UInt32) (f : Unit → NetProg α) :
    Throughout P (skbPull len >>= f) m ↔ P m ⟨_,.skbPull len⟩ ∧ Throughout P (f ()) (m.pulled len) :=
  always_call _ (NetCmd.skbPull len) _ m

@[simp] lemma throughout_store (a : ℤ) (bytes : List UInt8) (f : Unit → NetProg α) :
    Throughout P (store a bytes >>= f) m ↔
      P m ⟨_,.store a bytes⟩ ∧ Throughout P (f ()) (m.written a bytes) :=
  always_call _ (NetCmd.store a bytes) _ m

@[simp] lemma throughout_load (a : ℤ) (n : ℕ) (f : List UInt8 → NetProg α) :
    Throughout P (load a n >>= f) m ↔
      P m ⟨_,.load a n⟩ ∧ Throughout P (f (readBytes m.mem a n)) m :=
  always_call _ (NetCmd.load a n) _ m

lemma readBytes_one (mem : ℤ → UInt8) (a : ℤ) : readBytes mem a 1 = [mem a] := by
  simp [readBytes,List.range_succ]

lemma readBytes_two (mem : ℤ → UInt8) (a : ℤ) : readBytes mem a 2 = [mem a,mem (a+1)] := by
  simp [readBytes,List.range_succ]

lemma readBytes_four (mem : ℤ → UInt8) (a : ℤ) :
    readBytes mem a 4 = [mem a,mem (a+1),mem (a+2),mem (a+3)] := by
  simp [readBytes,List.range_succ]

@[simp] lemma throughout_load8 (a : ℤ) (f : UInt8 → NetProg α) :
    Throughout P (load8 a >>= f) m ↔ P m ⟨_,.load a 1⟩ ∧ Throughout P (f (m.mem a)) m := by
  refine (always_call _ (NetCmd.load a 1) _ m).trans ?_
  simp only [Machine.handle,readBytes_one]
  rfl

@[simp] lemma throughout_load16 (a : ℤ) (f : UInt16 → NetProg α) :
    Throughout P (load16 a >>= f) m ↔ P m ⟨_,.load a 2⟩ ∧ Throughout P (f (word16 m.mem a)) m := by
  refine (always_call _ (NetCmd.load a 2) _ m).trans ?_
  simp only [Machine.handle,readBytes_two]
  rfl

@[simp] lemma throughout_load32 (a : ℤ) (f : UInt32 → NetProg α) :
    Throughout P (load32 a >>= f) m ↔ P m ⟨_,.load a 4⟩ ∧ Throughout P (f (word32 m.mem a)) m := by
  refine (always_call _ (NetCmd.load a 4) _ m).trans ?_
  simp only [Machine.handle,readBytes_four]
  rfl

@[simp] lemma throughout_reach (place : Place) (f : Unit → NetProg α) :
    Throughout P (reach place >>= f) m ↔ P m ⟨_,.reach place⟩ ∧ Throughout P (f ()) m :=
  always_call _ (NetCmd.reach place) _ m

@[simp] lemma throughout_printk (level : LogLevel) (format : String) (args : List ℕ)
    (f : Unit → NetProg α) :
    Throughout P (printk level format args >>= f) m ↔
      P m ⟨_,.printk level format args⟩ ∧ Throughout P (f ()) m :=
  always_call _ (NetCmd.printk level format args) _ m

@[simp] lemma throughout_kfreeSkb (f : Unit → NetProg α) :
    Throughout P (kfreeSkb >>= f) m ↔ P m ⟨_,.kfreeSkb⟩ ∧ Throughout P (f ()) m :=
  always_call _ NetCmd.kfreeSkb _ m

@[simp] lemma throughout_kfreeSkb_last : Throughout P kfreeSkb m ↔ P m ⟨_,.kfreeSkb⟩ :=
  throughout_perform _

@[simp] lemma throughout_devGetByName (name : String) (f : Option NetDevice → NetProg α) :
    Throughout P (perform (.devGetByName name) >>= f) m ↔
      P m ⟨_,.devGetByName name⟩ ∧ Throughout P (f (m.device name)) m :=
  always_call _ (NetCmd.devGetByName name) _ m

@[simp] lemma throughout_loadUninit (received : UInt8) (f : UInt8 → NetProg α) :
    Throughout P (perform (.loadUninit received) >>= f) m ↔
      P m ⟨_,.loadUninit received⟩ ∧ Throughout P (f received) m :=
  always_call _ (NetCmd.loadUninit received) _ m

@[simp] lemma throughout_skbPush (len : UInt32) (f : ℤ → NetProg α) :
    Throughout P (skbPush len >>= f) m ↔ P m ⟨_,.getSkb⟩ ∧ P m ⟨_,.setSkb (m.pushed len).skb⟩ ∧
      Throughout P (f (m.skb.data-len.toNat)) (m.pushed len) := by
  refine (throughout_getSkb _).trans (and_congr_right fun _ => ?_)
  exact throughout_setSkb (m.pushed len).skb (fun _ => f (m.skb.data-len.toNat))

@[simp] lemma throughout_skbPut (len : UInt32) (f : ℤ → NetProg α) :
    Throughout P (skbPut len >>= f) m ↔ P m ⟨_,.getSkb⟩ ∧ P m ⟨_,.setSkb (m.put len).skb⟩ ∧
      Throughout P (f m.skb.tail) (m.put len) := by
  refine (throughout_getSkb _).trans (and_congr_right fun _ => ?_)
  exact throughout_setSkb (m.put len).skb (fun _ => f m.skb.tail)

@[simp] lemma throughout_skbReserve (len : ℤ) (f : Unit → NetProg α) :
    Throughout P (skbReserve len >>= f) m ↔ P m ⟨_,.getSkb⟩ ∧
      P m ⟨_,.setSkb (m.reserved len).skb⟩ ∧ Throughout P (f ()) (m.reserved len) := by
  refine (throughout_getSkb _).trans (and_congr_right fun _ => ?_)
  exact throughout_setSkb (m.reserved len).skb f

end Rules

section Places

/-- The place that a command marks. -/
def placeOf {β : Type} : NetCmd β → Option Place
  | .reach place => some place
  | _ => none

/-- The device that a command hands the buffer to. -/
def xmitDevice {β : Type} : NetCmd β → Option NetDevice
  | .hardStartXmit dev => some dev
  | _ => none

lemma placeOf_eq_some {c : Σ β : Type,NetCmd β} {place : Place} :
    placeOf c.2 = some place ↔ c = ⟨_,.reach place⟩ := by
  constructor
  · intro h
    rcases c with ⟨β,c⟩
    cases c <;> simp_all [placeOf]
  · rintro rfl
    rfl

lemma xmitDevice_eq_some {c : Σ β : Type,NetCmd β} {dev : NetDevice} :
    xmitDevice c.2 = some dev ↔ c = ⟨_,.hardStartXmit dev⟩ := by
  constructor
  · intro h
    rcases c with ⟨β,c⟩
    cases c <;> simp_all [xmitDevice]
  · rintro rfl
    rfl

variable {α : Type} {p : NetProg α} {m : Machine} {Q : Machine → Prop}

/-- A statement about all visits of a place is a condition on the commands of the run. -/
lemma forall_makes_reach (place : Place) :
    (∀ s, Machine.Makes p m (.reach place) s → Q s) ↔
      Throughout (fun s c => placeOf c.2 = some place → Q s) p m := by
  simp only [Machine.Makes,Throughout,Always,placeOf_eq_some]
  exact ⟨fun h e he hc => h e.1 (by rwa [← hc]),fun h s hs => h _ hs rfl⟩

lemma forall_makes_xmit (dev : NetDevice) :
    (∀ s, Machine.Makes p m (.hardStartXmit dev) s → Q s) ↔
      Throughout (fun s c => xmitDevice c.2 = some dev → Q s) p m := by
  simp only [Machine.Makes,Throughout,Always,xmitDevice_eq_some]
  exact ⟨fun h e he hc => h e.1 (by rwa [← hc]),fun h s hs => h _ hs rfl⟩

end Places

section Fields
variable (m : Machine) (len : UInt32) (a : ℤ) (bytes : List UInt8) (skb : SkBuff)

@[simp] lemma pulled_mem : (m.pulled len).mem = m.mem := rfl
@[simp] lemma pulled_data : (m.pulled len).skb.data = m.skb.data+len.toNat := rfl
@[simp] lemma pulled_tail : (m.pulled len).skb.tail = m.skb.tail := rfl
@[simp] lemma pulled_len : (m.pulled len).skb.len = m.skb.len-len := rfl
@[simp] lemma pushed_data : (m.pushed len).skb.data = m.skb.data-len.toNat := rfl
@[simp] lemma pushed_tail : (m.pushed len).skb.tail = m.skb.tail := rfl
@[simp] lemma pushed_len : (m.pushed len).skb.len = m.skb.len+len := rfl
@[simp] lemma withSkb_mem : (m.withSkb skb).mem = m.mem := rfl
@[simp] lemma withSkb_skb : (m.withSkb skb).skb = skb := rfl
@[simp] lemma written_mem : (m.written a bytes).mem = writeBytes m.mem a bytes := rfl
@[simp] lemma written_skb : (m.written a bytes).skb = m.skb := rfl

end Fields
end Linuxab.Net
