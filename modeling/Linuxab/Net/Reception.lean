import Linuxab.Net.PullSafety
import Linuxab.Net.Transmit

/-! The way of a packet from `ip_rcv` to a transport protocol. `ip_rcv` compares `tot_len` with the length
of the buffer, but does not cut the buffer to it: what follows the datagram in the frame is passed on. -/
namespace Linuxab.Net
open Linuxab.Base Linuxab.Base.Program

/-- A condition that asks nothing of the commands by which the IP layer reads a packet, drops it or passes
it on. -/
structure OnlyAtDelivery (P : Machine → (Σ β : Type,NetCmd β) → Prop) : Prop where
  getSkb (m : Machine) : P m ⟨_,.getSkb⟩
  skbPull (m : Machine) (len : UInt32) : P m ⟨_,.skbPull len⟩
  load (m : Machine) (a : ℤ) (n : ℕ) : P m ⟨_,.load a n⟩
  loadUninit (m : Machine) (received : UInt8) : P m ⟨_,.loadUninit received⟩
  kfreeSkb (m : Machine) : P m ⟨_,.kfreeSkb⟩
  printk (m : Machine) (level : LogLevel) (format : String) (args : List ℕ) : P m ⟨_,.printk level format args⟩

/-- The packet passes the checks of `ip_rcv`. -/
structure IpAccepted (m : Machine) : Prop where
  version : ipVersion m.mem m.skb.data = 4
  words : 5 ≤ ipHeaderWords m.mem m.skb.data
  length : ipTotalLength m.mem m.skb.data ≤ m.skb.len.toNat

/-- The length of the IP header. -/
def Machine.headerLength (m : Machine) : ℕ := 4*(ipHeaderWords m.mem m.skb.data).toNat

/-- The machine in which the packet is passed on. -/
def Machine.delivered (m : Machine) : Machine := m.pulled (UInt32.ofNat m.headerLength)

section Steps
variable {P : Machine → (Σ β : Type,NetCmd β) → Prop} {m : Machine}

lemma headerLength_toNat (m : Machine) : (UInt32.ofNat m.headerLength).toNat = m.headerLength :=
  nibble_words_toNat _ (lowNibble_lt (m.mem m.skb.data))

/-- An accepted packet has at least the fixed part of the header. -/
lemma IpAccepted.headerLength_ge (h : IpAccepted m) : 20 ≤ m.headerLength := by
  have hwords : 5 ≤ (ipHeaderWords m.mem m.skb.data).toNat := UInt8.le_iff_toNat_le.mp h.words
  rw [Machine.headerLength]
  omega

lemma ipTotalLength_lt (mem : ℤ → UInt8) (a : ℤ) : ipTotalLength mem a < 65536 := (ntohs (word16 mem (a+2))).toNat_lt

@[simp] lemma delivered_mem (m : Machine) : m.delivered.mem = m.mem := rfl

@[simp] lemma delivered_data (m : Machine) : m.delivered.skb.data = m.skb.data+m.headerLength := by
  rw [Machine.delivered,pulled_data,headerLength_toNat]

lemma delivered_len (h : m.headerLength ≤ m.skb.len.toNat) :
    m.delivered.skb.len.toNat = m.skb.len.toNat-m.headerLength := by
  have hw := headerLength_toNat m
  rw [Machine.delivered,pulled_len,UInt32.toNat_sub_of_le _ _ (UInt32.le_iff_toNat_le.mpr (hw.trans_le h)),hw]

lemma throughout_ipLocalDeliver (hP : OnlyAtDelivery P) (ihl : UInt8) {protocol : UInt8}
    (hp : m.mem (m.skb.data-4*ihl.toNat+9) = protocol) :
    Throughout P (ipLocalDeliver ihl) m ↔ (protocol = 6 → Throughout P tcpRcv m) ∧
      (protocol = 17 → Throughout P udpRcv m) ∧ (protocol = 1 → Throughout P icmpRcv m) := by
  simp only [ipLocalDeliver,throughout_loadUninit,throughout_getSkb,throughout_load8,hP.loadUninit,hP.getSkb,
    hP.load,true_and,hp]
  split_ifs with htcp hudp hicmp
  · simp [htcp]
  · simp [hudp]
  · simp [hicmp]
  · simp [htcp,hudp,hicmp,hP.printk,hP.kfreeSkb]

/-- `ip_rcv` drops the packet or passes it on by its protocol, with the IP header pulled. -/
theorem throughout_ipRcv (hP : OnlyAtDelivery P) : Throughout P ipRcv m ↔ (IpAccepted m →
    (m.mem (m.skb.data+9) = 6 → Throughout P tcpRcv m.delivered) ∧
    (m.mem (m.skb.data+9) = 17 → Throughout P udpRcv m.delivered) ∧
    (m.mem (m.skb.data+9) = 1 → Throughout P icmpRcv m.delivered)) := by
  have hw := headerLength_toNat m
  have hprotocol : m.delivered.mem
      (m.delivered.skb.data-4*(lowNibble (m.mem m.skb.data)).toNat+9) = m.mem (m.skb.data+9) := by
    rw [delivered_mem,delivered_data]
    congr 1
    simp only [Machine.headerLength,ipHeaderWords]
    push_cast
    ring
  have hdeliver := throughout_ipLocalDeliver hP (lowNibble (m.mem m.skb.data)) hprotocol
  simp only [ipRcv,throughout_getSkb,throughout_load8,hP.getSkb,hP.load,true_and]
  split_ifs with hv
  · have hno : ¬ IpAccepted m := fun h => hv h.version
    simp [hno,hP.kfreeSkb]
  · simp only [throughout_load8,hP.load,true_and]
    split_ifs with hi
    · have hno : ¬ IpAccepted m := fun h => UInt8.not_lt.mpr h.words hi
      simp [hno,hP.kfreeSkb]
    · simp only [throughout_load16,throughout_getSkb,hP.load,hP.getSkb,true_and]
      split_ifs with ht
      · have hno : ¬ IpAccepted m := fun h => not_lt.mpr h.length ht
        simp [hno,hP.kfreeSkb]
      · have hyes : IpAccepted m := ⟨not_not.mp hv,UInt8.not_lt.mp hi,not_lt.mp ht⟩
        simp only [throughout_load8,throughout_load,hP.load,true_and,hyes,forall_true_left]
        refine Iff.trans ?_ hdeliver
        split_ifs <;>
        · simp only [throughout_load8,throughout_printk,throughout_skbPull,hP.load,hP.printk,hP.skbPull,true_and]
          rfl

end Steps

section Entry
variable {m : Machine} {place : Place} {protocol : UInt8} {Q : Machine → Prop}

/-- The protocol number whose receive function is entered at the place. -/
def entryProtocol : Place → Option UInt8
  | .tcpRcv => some 6
  | .udpRcv => some 17
  | .icmpRcv => some 1
  | _ => none

lemma onlyAtDelivery_place (place : Place) (Q : Machine → Prop) :
    OnlyAtDelivery fun s c => placeOf c.2 = some place → Q s := by
  constructor <;> simp [placeOf]

lemma onlyAtTransmit_place (place : Place) (Q : Machine → Prop) :
    OnlyAtTransmit fun s c => placeOf c.2 = some place → Q s := by
  constructor <;> simp [placeOf]

lemma tcpRcv_entered (hentry : entryProtocol place = some protocol) :
    Throughout (fun s c => placeOf c.2 = some place → Q s) tcpRcv m ↔ (place = .tcpRcv → Q m) := by
  have hdeliver : place ≠ .tcpDeliver := by
    rintro rfl
    cases hentry
  simp [tcpRcv,placeOf,hdeliver,eq_comm]

lemma udpRcv_entered (hentry : entryProtocol place = some protocol) :
    Throughout (fun s c => placeOf c.2 = some place → Q s) udpRcv m ↔ (place = .udpRcv → Q m) := by
  have hdeliver : place ≠ .udpDeliver := by
    rintro rfl
    cases hentry
  simp [udpRcv,placeOf,hdeliver,eq_comm]

lemma icmpRcv_entered (hentry : entryProtocol place = some protocol) :
    Throughout (fun s c => placeOf c.2 = some place → Q s) icmpRcv m ↔ (place = .icmpRcv → Q m) := by
  have hxmit : place ≠ .devQueueXmit := by
    rintro rfl
    cases hentry
  -- the answer to an echo request goes back down and enters no transport protocol
  have hout : ∀ n, Throughout (fun s c => placeOf c.2 = some place → Q s) ipOutput n := by
    intro n
    have hP := onlyAtTransmit_place place Q
    rw [throughout_ipOutput_eth0 hP]
    intro dev _ _
    rw [throughout_devQueueXmit hP]
    simp [placeOf,hxmit.symm]
  simp only [icmpRcv,throughout_reach,throughout_getSkb,throughout_load8,throughout_printk,placeOf,reduceCtorEq,
    IsEmpty.forall_iff,true_and,Option.some.injEq]
  rw [eq_comm (a := place)]
  refine and_iff_left ?_
  split_ifs
  · simp only [throughout_getSkb,throughout_load8,throughout_load32,throughout_store,throughout_load,
      throughout_setSkb,reduceCtorEq,IsEmpty.forall_iff,true_and]
    rw [throughout_bind]
    exact ⟨hout _,throughout_ret _⟩
  · simp

/-- A transport protocol is entered for an accepted packet with its number, and only there. -/
theorem ipRcv_entered (hentry : entryProtocol place = some protocol) :
    (∀ s, Machine.Makes ipRcv m (.reach place) s → Q s) ↔
      (IpAccepted m → m.mem (m.skb.data+9) = protocol → Q m.delivered) := by
  rw [forall_makes_reach,throughout_ipRcv (onlyAtDelivery_place place Q),tcpRcv_entered hentry,
    udpRcv_entered hentry,icmpRcv_entered hentry]
  refine imp_congr_right fun _ => ?_
  cases place with
  | tcpRcv | udpRcv | icmpRcv =>
    cases hentry
    simp
  | _ => cases hentry

end Entry

section Payload
variable {m : Machine}

/-- A packet that `ip_rcv` accepts and whose header lies inside the datagram. -/
structure HoldsDatagram (m : Machine) : Prop extends IpAccepted m where
  header : m.headerLength ≤ ipTotalLength m.mem m.skb.data

/-- The buffer of `s` is the payload of the datagram in `m`. -/
def AtPayload (m s : Machine) : Prop :=
  s.skb.data = m.skb.data+m.headerLength ∧
    s.skb.len.toNat = ipTotalLength m.mem m.skb.data-m.headerLength

/-- Whichever transport protocol is entered, it sees the payload and nothing else. -/
def PassesPayload (m : Machine) : Prop :=
  ∀ place, entryProtocol place ≠ none → ∀ s, Machine.Makes ipRcv m (.reach place) s → AtPayload m s

lemma atPayload_delivered (h : HoldsDatagram m) :
    AtPayload m m.delivered ↔ m.skb.len.toNat = ipTotalLength m.mem m.skb.data := by
  have hheader := h.header
  have hlength := h.length
  rw [AtPayload,delivered_data,delivered_len (hheader.trans hlength)]
  refine (and_iff_right rfl).trans ?_
  omega

lemma passesPayload_iff_delivered (h : HoldsDatagram m) : PassesPayload m ↔
    ∀ place, entryProtocol place = some (m.mem (m.skb.data+9)) → AtPayload m m.delivered := by
  refine forall_congr' fun place => ?_
  cases hentry : entryProtocol place with
  | none => simp
  | some protocol =>
    rw [ipRcv_entered hentry]
    simp [h.toIpAccepted,eq_comm]

lemma exists_entryProtocol {protocol : UInt8} :
    (∃ place, entryProtocol place = some protocol) ↔ protocol ∈ [6,17,1] := by
  simp only [List.mem_cons,List.not_mem_nil,or_false]
  constructor
  · rintro ⟨place,h⟩
    cases place <;> cases h <;> simp
  · rintro (rfl | rfl | rfl)
    · exact ⟨.tcpRcv,rfl⟩
    · exact ⟨.udpRcv,rfl⟩
    · exact ⟨.icmpRcv,rfl⟩

/-- The transport protocols see exactly the payload if the frame ends with the datagram, or if no protocol
takes the packet. -/
theorem passesPayload_iff (h : HoldsDatagram m) : PassesPayload m ↔
    m.skb.len.toNat = ipTotalLength m.mem m.skb.data ∨ m.mem (m.skb.data+9) ∉ [6,17,1] := by
  rw [passesPayload_iff_delivered h,atPayload_delivered h,← exists_imp,exists_entryProtocol,imp_iff_not_or,
    or_comm]

/-- The shortest Ethernet payload, 46 bytes, with a datagram of 28: an IP and a UDP header without data. -/
def paddedPacket : List UInt8 :=
  [0x45,0,0,28,0,0,0,0,64,17,0,0,10,0,0,1,10,0,0,2] ++ [0,53,0,53,0,8,0,0] ++ List.replicate 18 0

theorem passesPayload_iff_unpadded : PassesPayload (receiving (paddedPacket.take 28)) :=
  (passesPayload_iff ⟨⟨by decide,UInt8.le_iff_toNat_le.mpr (by decide),by decide⟩,by decide⟩).mpr (.inl (by decide))

theorem padding_passed : HoldsDatagram (receiving paddedPacket) ∧ ¬ PassesPayload (receiving paddedPacket) := by
  have h : HoldsDatagram (receiving paddedPacket) :=
    ⟨⟨by decide,UInt8.le_iff_toNat_le.mpr (by decide),by decide⟩,by decide⟩
  refine ⟨h,?_⟩
  rw [passesPayload_iff_delivered h,atPayload_delivered h]
  intro hlen
  exact absurd (hlen .udpRcv (by decide)) (by decide)

end Payload
end Linuxab.Net
