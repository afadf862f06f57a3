import Linuxab.Net.Reception

/-! The answer to an echo request. `icmp_rcv` takes `sizeof(struct iphdr)` off twice to find the IP header,
so the addresses it exchanges lie before the packet, and `ip_output` makes room for the link layer right
before the ICMP message. The message that is sent is a correct echo reply; the IP header is not sent. -/
namespace Linuxab.Net
open Linuxab.Base Linuxab.Base.Program

section Answer

/-- Where the byte of the answer's header is in the header of the request. -/
def swappedIndex (k : ℕ) : ℕ := if 12 ≤ k ∧ k < 16 then k+4 else if 16 ≤ k ∧ k < 20 then k-4 else k

/-- The header with the two addresses exchanged; the hop count and the checksum may differ. -/
structure SwapsAddresses (header header' : List UInt8) : Prop where
  length : header'.length = header.length
  bytes : ∀ k, k ≠ 8 → k ≠ 10 → k ≠ 11 → header'[k]? = header[swappedIndex k]?

/-- An echo reply with the same code, identifier, sequence number and data. -/
structure RepliesTo (message message' : List UInt8) : Prop where
  length : message'.length = message.length
  type : message'[0]? = some 0
  bytes : ∀ k, k ≠ 0 → k ≠ 2 → k ≠ 3 → message'[k]? = message[k]?
  check : ipComputeCsum message' = 0

/-- The IP header of the packet. -/
def Machine.ipHeader (m : Machine) : List UInt8 := readBytes m.mem m.skb.data m.headerLength

/-- What follows the header, up to the end of the datagram. -/
def Machine.ipMessage (m : Machine) : List UInt8 :=
  readBytes m.mem (m.skb.data+m.headerLength) (ipTotalLength m.mem m.skb.data-m.headerLength)

/-- The frame answers the packet: behind 14 bytes for the link layer come the header with the addresses
exchanged and the reply. -/
def IsAnswer (m : Machine) (frame : List UInt8) : Prop :=
  ∃ link header message, link.length = 14 ∧ SwapsAddresses m.ipHeader header ∧ RepliesTo m.ipMessage message ∧
    link ++ header ++ message <+: frame

/-- A valid echo request that fills the buffer. -/
structure EchoRequest (m : Machine) : Prop extends HoldsDatagram m where
  whole : m.skb.len.toNat = ipTotalLength m.mem m.skb.data
  room : m.headerLength+8 ≤ m.skb.len.toNat
  network : m.skb.nh = m.skb.data
  hops : 2 ≤ (m.mem (m.skb.data+8)).toNat
  protocol : m.mem (m.skb.data+9) = 1
  headerCheck : ipComputeCsum m.ipHeader = 0
  type : m.mem (m.skb.data+m.headerLength) = 8
  messageCheck : ipComputeCsum m.ipMessage = 0

/-- While `eth0` is up, an answer is handed to it. -/
def AnswersEcho (m : Machine) : Prop :=
  ∀ dev, m.device "eth0" = some dev → dev.Up →
    ∃ s, Machine.Makes ipRcv m (.hardStartXmit dev) s ∧ IsAnswer m s.frame

end Answer

section Run
variable {P : Machine → (Σ β : Type,NetCmd β) → Prop} {m : Machine}

/-- The memory in which `icmp_rcv` calls `ip_output`. -/
def Machine.repliedMem (m : Machine) : ℤ → UInt8 :=
  let iph := m.skb.data-20-4*(lowNibble (m.mem m.skb.nh)).toNat
  let mem := writeBytes m.mem (iph+16) (bytes32 (word32 m.mem (iph+12)))
  let mem := writeBytes mem (iph+12) (bytes32 (word32 m.mem (iph+16)))
  let mem := writeBytes mem m.skb.data [0]
  let mem := writeBytes mem (m.skb.data+2) (bytes16 0)
  writeBytes mem (m.skb.data+2) (bytes16 (ipComputeCsum (readBytes mem m.skb.data (csumLength m.skb.len))))

def Machine.replied (m : Machine) : Machine :=
  { m with mem := m.repliedMem, skb := { m.skb with pktType := .outgoing } }

lemma throughout_icmpRcv_echo (hP : OnlyAtDelivery P) (hT : OnlyAtTransmit P)
    (hreach : P m ⟨_,.reach .icmpRcv⟩) (htype : m.mem m.skb.data = 8) :
    Throughout P icmpRcv m ↔ Throughout P ipOutput m.replied := by
  simp only [icmpRcv,throughout_reach,throughout_getSkb,throughout_load8,throughout_printk,hreach,hP.getSkb,hP.load,
    hP.printk,true_and,htype,if_true,throughout_load32,throughout_store,throughout_load,throughout_setSkb,hT.store,
    hT.setSkb,written_mem,written_skb]
  rw [throughout_bind]
  exact and_iff_left (throughout_ret _)

lemma onlyAtDelivery_xmit (dev : NetDevice) (Q : Machine → Prop) :
    OnlyAtDelivery fun s c => xmitDevice c.2 = some dev → Q s := by
  constructor <;> simp [xmitDevice]

lemma onlyAtTransmit_xmit (dev : NetDevice) (Q : Machine → Prop) :
    OnlyAtTransmit fun s c => xmitDevice c.2 = some dev → Q s := by
  constructor <;> simp [xmitDevice]

/-- The machine in which the answer is handed to the device. -/
def Machine.answered (m : Machine) (dev : NetDevice) : Machine :=
  m.delivered.replied.sent dev m.delivered.replied.forwardedMem

end Run

section Message

/-- What `icmp_rcv` makes of the message. -/
def replyTo (message : List UInt8) : List UInt8 :=
  setField (0::message.tail) 2 (ipComputeCsum (setField (0::message.tail) 2 0))

theorem replyTo_repliesTo {message : List UInt8} (hlen : 4 ≤ message.length) (hle : message.length ≤ 65535) :
    RepliesTo message (replyTo message) := by
  match message,hlen with
  | t::code::c₀::c₁::rest,_ =>
    have hset : ∀ x, setField (0::code::c₀::c₁::rest) 2 x = [0,code] ++ bytes16 x ++ rest := fun _ => rfl
    simp only [replyTo,List.tail_cons,hset]
    refine ⟨rfl,rfl,?_,?_⟩
    · intro k h0 h2 h3
      match k with
      | 0 => exact absurd rfl h0
      | 1 => rfl
      | 2 => exact absurd rfl h2
      | 3 => exact absurd rfl h3
      | k+4 => rfl
    · apply ipComputeCsum_field [0,code] rest (by simp)
      simp only [List.length_cons,List.length_nil] at hle ⊢
      omega

lemma readBytes_setField {mem : ℤ → UInt8} {a : ℤ} {i n : ℕ} (h : i+2 ≤ n) (x : UInt16) :
    readBytes (writeBytes mem (a+i) (bytes16 x)) a n = setField (readBytes mem a n) i x :=
  readBytes_writeBytes h

lemma setField_setField {buff : List UInt8} {k : ℕ} (h : k+2 ≤ buff.length) (x y : UInt16) :
    setField (setField buff k x) k y = setField buff k y := by
  have htake : (buff.take k).length = k := by rw [List.length_take,Nat.min_eq_left (by omega)]
  have hfield : (buff.take k ++ bytes16 x).length = k+2 := by rw [List.length_append,htake]; rfl
  unfold setField
  rw [List.append_assoc (buff.take k),List.take_left' htake,← List.append_assoc (buff.take k),List.drop_left' hfield]

/-- The message in the buffer becomes the reply. -/
lemma readBytes_repliedMem (m : Machine) (hlen : 4 ≤ m.skb.len.toNat) (hlt : m.skb.len.toNat < 2^31) :
    readBytes m.repliedMem m.skb.data m.skb.len.toNat = replyTo (readBytes m.mem m.skb.data m.skb.len.toNat) := by
  set n := m.skb.len.toNat with hn
  have hcsum : csumLength m.skb.len = n := by rw [csumLength,if_pos hlt]
  have haddresses : ∀ x y : ℤ, ∀ u v : UInt32, x+4 ≤ m.skb.data → y+4 ≤ m.skb.data →
      readBytes (writeBytes (writeBytes m.mem x (bytes32 u)) y (bytes32 v)) m.skb.data n =
        readBytes m.mem m.skb.data n := by
    intro x y u v hx hy
    apply readBytes_congr
    intro z hz _
    rw [writeBytes_of_ge (by change y+4 ≤ z; omega),writeBytes_of_ge (by change x+4 ≤ z; omega)]
  have htype : ∀ mem, readBytes (writeBytes mem m.skb.data [0]) m.skb.data n =
      0::(readBytes mem m.skb.data n).tail := by
    intro mem
    have hw : readBytes (writeBytes mem (m.skb.data+(0 : ℕ)) [0]) m.skb.data n = _ := readBytes_writeBytes (by
      change 0+1 ≤ n
      omega)
    rw [Int.natCast_zero,add_zero] at hw
    rw [hw,List.take_zero,List.nil_append,← List.drop_one]
    rfl
  have hfield : ∀ mem x, readBytes (writeBytes mem (m.skb.data+2) (bytes16 x)) m.skb.data n =
      setField (readBytes mem m.skb.data n) 2 x := fun mem x => readBytes_setField (i := 2) (by omega) x
  simp only [Machine.repliedMem,hcsum,hfield,htype]
  rw [haddresses _ _ _ _ (by omega) (by omega),setField_setField]
  · rfl
  · rw [List.length_cons,List.length_tail,readBytes_length]
    omega

end Message

section Frame
variable {m : Machine}

/-- The addresses that are exchanged lie before the packet, and the reply starts behind the header. -/
lemma repliedMem_header (h : EchoRequest m) {x : ℤ} (hx : m.skb.data ≤ x) (hlt : x < m.skb.data+m.headerLength) :
    m.delivered.repliedMem x = m.mem x := by
  have hihl : (4*(lowNibble (m.mem m.delivered.skb.nh)).toNat : ℤ) = m.headerLength := by
    change (4*(lowNibble (m.mem m.skb.nh)).toNat : ℤ) = m.headerLength
    rw [h.network]
    rfl
  simp only [Machine.repliedMem,hihl,delivered_data,delivered_mem]
  rw [writeBytes_of_lt (by omega),writeBytes_of_lt (by omega),writeBytes_of_lt (by omega),
    writeBytes_of_ge (by change _+4 ≤ x; omega),writeBytes_of_ge (by change _+4 ≤ x; omega)]

/-- For an echo request one frame goes to the device, if there is one that is up. -/
theorem ipRcv_sends_answer (h : EchoRequest m) {dev : NetDevice} (hdev : m.device "eth0" = some dev) (hup : dev.Up)
    {Q : Machine → Prop} :
    (∀ s, Machine.Makes ipRcv m (.hardStartXmit dev) s → Q s) ↔ Q (m.answered dev) := by
  have hP := onlyAtDelivery_xmit dev Q
  have hT := onlyAtTransmit_xmit dev Q
  have htype : m.delivered.mem m.delivered.skb.data = 8 := by
    rw [delivered_data]
    exact h.type
  have hhop : m.delivered.replied.mem (m.delivered.replied.skb.nh+8)-1 ≠ 0 := by
    change m.delivered.repliedMem (m.skb.nh+8)-1 ≠ 0
    have hheader := h.headerLength_ge
    rw [h.network,repliedMem_header h (by omega) (by omega)]
    intro hzero
    have hle : (1 : UInt8) ≤ m.mem (m.skb.data+8) := UInt8.le_iff_toNat_le.mpr (Nat.le_of_succ_le h.hops)
    have hsub := UInt8.toNat_sub_of_le _ _ hle
    rw [hzero] at hsub
    change 0 = (m.mem (m.skb.data+8)).toNat-1 at hsub
    have := h.hops
    omega
  have hdev' : m.delivered.replied.device "eth0" = some dev := hdev
  rw [forall_makes_xmit,throughout_ipRcv hP,h.protocol]
  simp only [h.toIpAccepted,forall_true_left,show (1 : UInt8) ≠ 6 by decide,show (1 : UInt8) ≠ 17 by decide,
    IsEmpty.forall_iff,true_and]
  rw [throughout_icmpRcv_echo hP hT (by simp [xmitDevice]) htype,throughout_ipOutput_eth0 hT,hdev']
  simp only [Option.some.injEq,forall_eq',hhop,ne_eq,not_false_eq_true,forall_true_left]
  rw [throughout_devQueueXmit hT]
  change _ ∧ (∀ d, some dev = some d → _) ↔ _
  simp [xmitDevice,hup,Machine.answered]

lemma forwardedMem_of_ge {x : ℤ} (hx : m.skb.nh+12 ≤ x) : m.forwardedMem x = m.mem x := by
  unfold Machine.forwardedMem
  rw [writeBytes_of_ge (by change _+2 ≤ x; omega),writeBytes_of_ge (by change _+2 ≤ x; omega),
    writeBytes_of_ge (by change _+1 ≤ x; omega)]

/-- The frame is the reply behind 14 bytes. -/
theorem answered_frame (h : EchoRequest m) (dev : NetDevice) : ∃ link, link.length = 14 ∧
    (m.answered dev).frame = link ++ replyTo m.ipMessage := by
  have hroom := h.room
  have hwhole := h.whole
  have hmax := ipTotalLength_lt m.mem m.skb.data
  have hlen := delivered_len (h.header.trans h.length)
  set mem := m.delivered.replied.forwardedMem
  have hframe : (m.answered dev).frame = readBytes mem (m.delivered.skb.data-14) (14+m.delivered.skb.len.toNat) := by
    have hadd : (m.delivered.skb.len+14).toNat = 14+m.delivered.skb.len.toNat := by
      rw [UInt32.toNat_add,Nat.mod_eq_of_lt]
      · exact Nat.add_comm _ _
      · change m.delivered.skb.len.toNat+14 < 2^32
        omega
    rw [← hadd]
    rfl
  have hreply : readBytes mem (m.delivered.skb.data-14+(14 : ℕ)) m.delivered.skb.len.toNat = replyTo m.ipMessage := by
    have hmessage : readBytes m.delivered.mem m.delivered.skb.data m.delivered.skb.len.toNat = m.ipMessage := by
      rw [hlen,hwhole,delivered_data]
      rfl
    have hdata : m.delivered.skb.data-14+(14 : ℕ) = m.delivered.skb.data := by omega
    rw [← hmessage,← readBytes_repliedMem m.delivered (by omega) (by omega),hdata]
    apply readBytes_congr
    intro x hx _
    apply forwardedMem_of_ge
    change m.skb.nh+12 ≤ x
    have hheader := h.headerLength_ge
    rw [delivered_data] at hx
    rw [h.network]
    omega
  refine ⟨readBytes mem (m.delivered.skb.data-14) 14,readBytes_length _ _ _,?_⟩
  rw [hframe,readBytes_add,hreply]

lemma replyTo_ipMessage (h : EchoRequest m) : RepliesTo m.ipMessage (replyTo m.ipMessage) := by
  have hroom := h.room
  have hwhole := h.whole
  have hmax := ipTotalLength_lt m.mem m.skb.data
  apply replyTo_repliesTo
  · rw [Machine.ipMessage,readBytes_length]
    omega
  · rw [Machine.ipMessage,readBytes_length]
    omega

/-- A reply is handed to the device, right behind the link layer. -/
theorem echo_message_sent (h : EchoRequest m) {dev : NetDevice} (hdev : m.device "eth0" = some dev) (hup : dev.Up) :
    ∃ s, Machine.Makes ipRcv m (.hardStartXmit dev) s ∧ RepliesTo m.ipMessage (s.frame.drop 14) := by
  by_contra hnone
  have hnot : ¬ RepliesTo m.ipMessage ((m.answered dev).frame.drop 14) :=
    (ipRcv_sends_answer h hdev hup (Q := fun s => ¬ RepliesTo m.ipMessage (s.frame.drop 14))).mp
      fun s hs hreply => hnone ⟨s,hs,hreply⟩
  obtain ⟨link,hlink,hframe⟩ := answered_frame h dev
  apply hnot
  rw [hframe,List.drop_left' hlink]
  exact replyTo_ipMessage h

/-- The first byte behind the link layer is the type of the message, not that of an IP header. -/
lemma not_isAnswer (h : EchoRequest m) (dev : NetDevice) : ¬ IsAnswer m (m.answered dev).frame := by
  rintro ⟨link,header,message,hlink,hheader,-,rest,hrest⟩
  obtain ⟨link',hlink',hframe⟩ := answered_frame h dev
  have hpos : 0 < m.ipHeader.length := by
    have hheader := h.headerLength_ge
    rw [Machine.ipHeader,readBytes_length]
    omega
  have hfirst : header[0]? = some (m.mem m.skb.data) := by
    rw [hheader.bytes 0 (by decide) (by decide) (by decide)]
    change m.ipHeader[0]? = _
    rw [List.getElem?_eq_getElem hpos]
    simp [Machine.ipHeader,readBytes_getElem]
  have hbehind : header ++ (message ++ rest) = replyTo m.ipMessage := by
    rw [hframe,List.append_assoc,List.append_assoc] at hrest
    exact (List.append_inj hrest (hlink.trans hlink'.symm)).2
  have hzero : m.mem m.skb.data = 0 := by
    have htype := (replyTo_ipMessage h).type
    rw [← hbehind,List.getElem?_append_left (hheader.length.symm ▸ hpos),hfirst] at htype
    exact Option.some.inj htype
  have hversion := h.version
  rw [ipVersion,hzero] at hversion
  exact absurd hversion (by decide)

lemma not_answersEcho (h : EchoRequest m) {dev : NetDevice} (hdev : m.device "eth0" = some dev) (hup : dev.Up) :
    ¬ AnswersEcho m := by
  intro hanswers
  obtain ⟨s,hs,hanswer⟩ := hanswers dev hdev hup
  have hnever := (ipRcv_sends_answer h hdev hup (Q := fun s => ¬ IsAnswer m s.frame)).mpr (not_isAnswer h dev)
  exact hnever s hs hanswer

/-- An echo request is answered as it should be only where nothing can be sent. -/
theorem answersEcho_iff (h : EchoRequest m) : AnswersEcho m ↔ ∀ dev, m.device "eth0" = some dev → ¬ dev.Up := by
  constructor
  · intro hanswers dev hdev hup
    exact not_answersEcho h hdev hup hanswers
  · intro hdown dev hdev hup
    exact absurd hup (hdown dev hdev)

/-- An echo request without data from 10.0.0.1 to 10.0.0.2. -/
def echoPacket : List UInt8 :=
  [0x45,0,0,28,0,0,0,0,64,1,0x66,0xdf,10,0,0,1,10,0,0,2] ++ [8,0,0xf7,0xfd,0,1,0,1]

lemma echoPacket_echoRequest : EchoRequest (receiving echoPacket) where
  version := by decide
  words := UInt8.le_iff_toNat_le.mpr (by decide)
  length := by decide
  header := by decide
  whole := by decide
  room := by decide
  network := rfl
  hops := by decide
  protocol := by decide
  headerCheck := (csumFold_eq_zero_iff (by decide)).mpr (by decide)
  type := by decide
  messageCheck := (csumFold_eq_zero_iff (by decide)).mpr (by decide)

theorem answersEcho_iff_no_device : AnswersEcho (receiving echoPacket) :=
  (answersEcho_iff echoPacket_echoRequest).mpr fun _ hdev => absurd hdev (by simp [receiving,Machine.device])

/-- The machine that has received it has a running `eth0`. -/
def pinged : Machine := { receiving echoPacket with devBase := (sending 0).devBase }

theorem echo_not_answered : EchoRequest pinged ∧ ¬ AnswersEcho pinged := by
  have h := echoPacket_echoRequest
  have hpinged : EchoRequest pinged := ⟨⟨⟨h.version,h.words,h.length⟩,h.header⟩,h.whole,h.room,h.network,h.hops,
    h.protocol,h.headerCheck,h.type,h.messageCheck⟩
  exact ⟨hpinged,not_answersEcho hpinged rfl ⟨by decide,rfl⟩⟩

end Frame
end Linuxab.Net
