import Linuxab.Net.Reception

/-! Sending and receiving together: a frame that the send path hands to a driver is given to
`eth_rcv` of another machine. The IP header of every such frame carries protocol 0, because
`skb->sk` is never set, so no frame reaches a transport protocol. -/
namespace Linuxab.Net
open Linuxab.Base Linuxab.Base.Program

/-- The machine has received exactly this frame, on a device with the frame's destination. -/
structure Receives (r : Machine) (frame : List UInt8) : Prop where
  len : r.skb.len.toNat = frame.length
  tail : r.skb.tail = r.skb.data+frame.length
  bytes : readBytes r.mem r.skb.data frame.length = frame
  dev : ∃ dev, r.skb.dev = some dev ∧ dev.devAddr.toList = frame.take 6

/-- Every frame that the sender hands to a device is, when received, accepted at `entry`, and the
data left for the socket is the payload. -/
def RoundTrips (send : NetProg ℤ) (entry deliver : Place) (m : Machine) (payload : List UInt8) : Prop :=
  ∀ dev s, Machine.Makes send m (.hardStartXmit dev) s → ∀ r, Receives r s.frame →
    (∃ t, Machine.Makes ethRcv r (.reach entry) t) ∧
    ∃ t, Machine.Makes ethRcv r (.reach deliver) t ∧ t.frame = payload

section Receive

variable {m : Machine} (place : Place)

lemma ipRcv_not_reach (h0 : m.mem (m.skb.data+9) = 0) :
    Throughout (fun _ c => placeOf c.2 ≠ some place) ipRcv m := by
  have hP : OnlyAtDelivery fun _ c => placeOf c.2 ≠ some place := onlyAtDelivery_place place fun _ => False
  rw [throughout_ipRcv hP,h0]
  simp

/-- A frame with IP protocol 0 reaches no transport protocol. -/
lemma ethRcv_not_reach (h0 : m.mem (m.skb.data+23) = 0) :
    Throughout (fun _ c => placeOf c.2 ≠ some place) ethRcv m := by
  simp only [ethRcv,ethTypeTrans,Program.bind_assoc,throughout_getSkb,throughout_setSkb,
    throughout_load16,throughout_load,throughout_skbPull,placeOf,ne_eq,reduceCtorEq,not_false_eq_true,
    true_and,pure_eq,ret_bind]
  split_ifs
  · rw [throughout_bind]
    refine ⟨ipRcv_not_reach place ?_,throughout_ret _⟩
    simp only [pulled_mem,pulled_data,withSkb_mem,withSkb_skb]
    rw [← h0,show (UInt32.toNat 14 : ℤ) = 14 from rfl,add_assoc]
    norm_num
  · simp
  · simp

/-- A machine that holds the frame rejects it if its protocol byte is 0. -/
lemma Receives.not_makes {r : Machine} {frame : List UInt8} (hr : Receives r frame)
    (h0 : frame[23]? = some 0) (t : Machine) : ¬ Machine.Makes ethRcv r (.reach place) t := by
  have hlen : 23 < frame.length := (List.getElem?_eq_some_iff.mp h0).1
  have hbyte : r.mem (r.skb.data+23) = 0 := by
    rw [← hr.bytes,List.getElem?_eq_getElem (by simpa using hlen),readBytes_getElem] at h0
    exact Option.some.inj h0
  have hnever : ∀ s, Machine.Makes ethRcv r (.reach place) s → False :=
    (forall_makes_reach place).mpr (ethRcv_not_reach place hbyte)
  exact hnever t

/-- There is a machine for every frame with an Ethernet destination. -/
lemma exists_receives (frame : List UInt8) (h6 : 6 ≤ frame.length) (hlt : frame.length < 2^32) :
    ∃ r, Receives r frame := by
  let dev : NetDevice := ⟨"eth0",iffRunning,⟨frame.take 6,by simpa using h6⟩,true⟩
  let skb : SkBuff := ⟨0,0,frame.length,frame.length,UInt32.ofNat frame.length,some dev,none,0,.host,0⟩
  refine ⟨⟨writeBytes (fun _ => 0) 0 frame,skb,[],none,0⟩,?_,?_,?_,dev,rfl,rfl⟩
  · exact UInt32.toNat_ofNat_of_lt' hlt
  · simp [skb]
  · exact readBytes_writeBytes_self _ _ _

end Receive

section Send
variable {m : Machine}

/-- A buffer without a socket leaves `ip_build_and_send_pkt` as a frame with protocol 0. -/
lemma ipBuildAndSendPkt_sends_zero (hsk : m.skb.sk = none) (hlen : m.skb.len.toNat+34 < 2^32)
    (saddr daddr : UInt32) : ∃ s : NetDevice → Machine,
      (∀ dev, (s dev).frame[23]? = some 0 ∧ (s dev).frame.length < 2^32) ∧
      ∀ P, OnlyAtTransmit P → (Throughout P (ipBuildAndSendPkt saddr daddr) m ↔
        ∀ dev, m.device "eth0" = some dev →
          P (s dev) ⟨_,.reach .devQueueXmit⟩ ∧ (dev.Up → P (s dev) ⟨_,.hardStartXmit dev⟩)) := by
  obtain ⟨mem,hmem,hsend⟩ := throughout_ipBuildAndSendPkt m saddr daddr
  refine ⟨fun dev => (m.headed m.mem).sent dev mem,fun dev => ?_,fun P hP => ?_⟩
  · have hl : (m.skb.len+20+14).toNat = m.skb.len.toNat+34 := by
      simp only [UInt32.toNat_add,show UInt32.toNat 20 = 20 from rfl,show UInt32.toNat 14 = 14 from rfl]
      omega
    have hbyte : mem (m.skb.data-20-14+23) = 0 := by
      have hp := hmem.protocol
      have hz : (builtHeader m.skb saddr daddr).forwarded.protocol = 0 := by
        simp only [IpHeader.forwarded,builtHeader,hsk]
      rw [hz] at hp
      rw [← hp]
      congr 1
      ring
    have hfl : ((m.headed m.mem).sent dev mem).frame.length = m.skb.len.toNat+34 := by
      rw [Machine.frame,readBytes_length]
      exact hl
    have h23 : ((m.headed m.mem).sent dev mem).frame[23]? = some 0 := by
      rw [List.getElem?_eq_getElem (by omega)]
      exact congrArg some ((readBytes_getElem _).trans hbyte)
    exact ⟨h23,by simpa only [hfl] using hlen⟩
  · rw [hsend P hP]
    refine forall_congr' fun dev => imp_congr_right fun _ => ?_
    rw [throughout_devQueueXmit hP]
    refine and_congr_right fun _ => ?_
    change (∀ d, some dev = some d → _) ↔ _
    simp

/-- The sender gives an IP packet of at most 1420 bytes, built in a fresh buffer, to the IP layer. -/
def BuildsPacket (send : NetProg ℤ) (m : Machine) : Prop :=
  ∃ (n : Machine) (saddr daddr : UInt32), n.skb.sk = none ∧ n.skb.len.toNat ≤ 1420 ∧
    n.devBase = m.devBase ∧ ∀ P, OnlyAtTransmit P →
      (Throughout P send m ↔ Throughout P (ipBuildAndSendPkt saddr daddr) n)

/-- `alloc_skb` with a page at hand. -/
lemma throughout_allocSkb {P : Machine → (Σ β : Type,NetCmd β) → Prop} (hP : OnlyAtTransmit P) {page : ℤ}
    (hpage : m.page = some page) (size : UInt32) (f : Bool → NetProg ℤ) :
    Throughout P (allocSkb size >>= f) m ↔ Throughout P (f true) (m.withSkb
      ⟨page+skbHeaderSize,page+skbHeaderSize,page+skbHeaderSize,page+skbHeaderSize+size.toNat,0,none,none,
        0,.host,0⟩) := by
  rw [allocSkb,Program.bind_assoc]
  refine (always_call _ NetCmd.kmallocPage _ m).trans ?_
  refine (and_iff_right (hP.kmallocPage m)).trans ?_
  simp only [Machine.handle,hpage]
  exact (throughout_setSkb _ _).trans (and_iff_right (hP.setSkb _ _))

lemma headed_length {n : ℕ} (hn : n ≤ 1400) {k : UInt32} (hk : k.toNat ≤ 20) :
    (0+UInt32.ofNat n+k).toNat = n+k.toNat := by
  rw [UInt32.zero_add,UInt32.toNat_add,UInt32.toNat_ofNat_of_lt' (by change _ < 2^32; omega)]
  omega

lemma buildsPacket_udpSendmsg {payload : List UInt8} (hpage : m.page.isSome)
    (hpay : payload.length ≤ 1400) (inet : InetSock) (size : UInt64) :
    BuildsPacket (udpSendmsg inet payload size) m := by
  obtain ⟨page,hpage⟩ := Option.isSome_iff_exists.mp hpage
  refine ⟨?n,inet.inetSaddr,inet.inetDaddr,?hsk,?hlen,?hbase,fun P hP => ?hiff⟩
  case hiff =>
    rw [udpSendmsg,throughout_allocSkb hP hpage]
    simp only [if_true,throughout_skbReserve,throughout_skbPut,throughout_store,throughout_skbPush,
      throughout_getSkb,hP.getSkb,hP.setSkb,hP.store,true_and,Machine.withSkb,Machine.reserved,Machine.put,
      Machine.pushed,Machine.written]
    exact Iff.rfl
  · rfl
  · change (0+UInt32.ofNat payload.length+8).toNat ≤ 1420
    rw [headed_length hpay (by decide)]
    exact Nat.add_le_add_right (by omega) 8
  · rfl

lemma buildsPacket_tcpSendmsg {payload : List UInt8} (hpage : m.page.isSome)
    (hpay : payload.length ≤ 1400) (inet : InetSock) (size : UInt64) :
    BuildsPacket (tcpSendmsg inet payload size) m := by
  obtain ⟨page,hpage⟩ := Option.isSome_iff_exists.mp hpage
  refine ⟨?n,inet.inetSaddr,inet.inetDaddr,?hsk,?hlen,?hbase,fun P hP => ?hiff⟩
  case hiff =>
    rw [tcpSendmsg,throughout_allocSkb hP hpage]
    simp only [if_true,throughout_skbReserve,throughout_skbPut,throughout_store,throughout_skbPush,
      throughout_getSkb,throughout_setSkb,throughout_load8,hP.getSkb,hP.setSkb,hP.store,hP.load,true_and,
      Machine.withSkb,Machine.reserved,Machine.put,Machine.pushed,Machine.written]
    exact Iff.rfl
  · rfl
  · change (0+UInt32.ofNat payload.length+20).toNat ≤ 1420
    rw [headed_length hpay (by decide)]
    exact Nat.add_le_add_right hpay 20
  · rfl

end Send

/-- Whatever is sent is sent with protocol 0, so the round trip works only when nothing is. -/
lemma BuildsPacket.roundTrips_iff {send : NetProg ℤ} {m : Machine} (h : BuildsPacket send m)
    (entry deliver : Place) (payload : List UInt8) :
    RoundTrips send entry deliver m payload ↔ ∀ dev, m.device "eth0" = some dev → ¬ dev.Up := by
  obtain ⟨n,saddr,daddr,hsk,hlen,hbase,hsend⟩ := h
  obtain ⟨s,hframe,hbuild⟩ := ipBuildAndSendPkt_sends_zero hsk (by omega) saddr daddr
  have hdev : n.device "eth0" = m.device "eth0" := by rw [Machine.device,Machine.device,hbase]
  constructor
  · intro htrip dev hd hup
    have hmade : Machine.Makes send m (.hardStartXmit dev) (s dev) := by
      by_contra hno
      have hP : OnlyAtTransmit fun t c => xmitDevice c.2 = some dev → t ≠ s dev := by
        constructor <;> simp [xmitDevice]
      have hall := (forall_makes_xmit dev).mp fun t ht (he : t = s dev) => hno (he ▸ ht)
      rw [hsend _ hP,hbuild _ hP,hdev] at hall
      exact (hall dev hd).2 hup rfl rfl
    have h23 := (hframe dev).1
    obtain ⟨r,hr⟩ := exists_receives (s dev).frame
      (by have := (List.getElem?_eq_some_iff.mp h23).1; omega) (hframe dev).2
    obtain ⟨t,ht⟩ := (htrip dev _ hmade r hr).1
    exact hr.not_makes entry h23 t ht
  · intro hdown dev t ht
    have hP : OnlyAtTransmit fun _ c => xmitDevice c.2 = some dev → False := by
      constructor <;> simp [xmitDevice]
    have hnever : ∀ t, Machine.Makes send m (.hardStartXmit dev) t → False := by
      rw [forall_makes_xmit,hsend _ hP,hbuild _ hP,hdev]
      exact fun d hd => ⟨by simp [xmitDevice],fun hup => absurd hup (hdown d hd)⟩
    exact (hnever t ht).elim
/-- The send and receive paths agree exactly when no frame is sent: `eth0` is missing, not running
or has no transmit function. -/
theorem roundTrips_iff_nothing_sent (m : Machine) (inet : InetSock) (payload : List UInt8)
    (size : UInt64) (hpay : payload.length ≤ 1400) (hpage : m.page.isSome) :
    (RoundTrips (udpSendmsg inet payload size) .udpRcv .udpDeliver m payload ↔
      ∀ dev, m.device "eth0" = some dev → ¬ dev.Up) ∧
    (RoundTrips (tcpSendmsg inet payload size) .tcpRcv .tcpDeliver m payload ↔
      ∀ dev, m.device "eth0" = some dev → ¬ dev.Up) :=
  ⟨(buildsPacket_udpSendmsg hpage hpay inet size).roundTrips_iff _ _ _,
    (buildsPacket_tcpSendmsg hpage hpay inet size).roundTrips_iff _ _ _⟩

theorem roundTrips_iff_nothing_sent_no_device :
    RoundTrips (udpSendmsg ⟨0,0,0,0,0⟩ [104,105] 2) .udpRcv .udpDeliver
      { sending 0 with devBase := [] } [104,105] :=
  (roundTrips_iff_nothing_sent _ _ _ _ (by decide) rfl).1.mpr (fun _ h => by cases h)

/-- Two bytes sent from 10.0.0.1 to 10.0.0.2 through a running `eth0` do not arrive. -/
theorem udp_not_roundTrips : (sending 0).page.isSome ∧
    ¬ RoundTrips (udpSendmsg ⟨0x0100000a,7,0x0200000a,7,17⟩ [104,105] 2) .udpRcv .udpDeliver
      (sending 0) [104,105] := by
  refine ⟨rfl,?_⟩
  rw [(buildsPacket_udpSendmsg rfl (by decide) _ _).roundTrips_iff]
  intro hdown
  exact hdown _ rfl ⟨rfl,rfl⟩

end Linuxab.Net
