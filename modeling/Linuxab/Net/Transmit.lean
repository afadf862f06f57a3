import Linuxab.Net.ChecksumField
import Linuxab.Net.IpHeader

/-! The send path below the transport layer: what `ip_build_and_send_pkt` and `ip_output` leave in
the buffer that `dev_queue_xmit` gets, and when the checksum in it is the one the receiver expects. -/
namespace Linuxab.Net
open Linuxab.Base Linuxab.Base.Program

/-- A condition that asks nothing of the commands by which the send path builds a packet, only of
those at which the packet leaves it. -/
structure OnlyAtTransmit (P : Machine → (Σ β : Type,NetCmd β) → Prop) : Prop where
  getSkb (m : Machine) : P m ⟨_,.getSkb⟩
  setSkb (m : Machine) (skb : SkBuff) : P m ⟨_,.setSkb skb⟩
  load (m : Machine) (a : ℤ) (n : ℕ) : P m ⟨_,.load a n⟩
  store (m : Machine) (a : ℤ) (bytes : List UInt8) : P m ⟨_,.store a bytes⟩
  devGetByName (m : Machine) (name : String) : P m ⟨_,.devGetByName name⟩
  kmallocPage (m : Machine) : P m ⟨_,.kmallocPage⟩
  kfreeSkb (m : Machine) : P m ⟨_,.kfreeSkb⟩

/-- The device accepts frames. -/
def NetDevice.Up (dev : NetDevice) : Prop := netifRunning dev ∧ dev.hardStartXmit

/-- The machine in which `ip_output` calls `dev_queue_xmit`. -/
def Machine.sent (m : Machine) (dev : NetDevice) (mem : ℤ → UInt8) : Machine :=
  { m with mem := mem, skb := { m.skb with
      dev := some dev, data := m.skb.data-14, len := m.skb.len+14, protocol := htons 0x0800 } }

/-- What `ip_output` makes of a header: one hop less and a new checksum. -/
def IpHeader.forwarded (h : IpHeader) : IpHeader :=
  { h with ttl := h.ttl-1, check := ipFastCsum { h with ttl := h.ttl-1, check := 0 }.encode }

/-- The old checksum does not matter. -/
lemma IpHeader.forwarded_check (h : IpHeader) (check : UInt16) :
    { h with check := check }.forwarded = h.forwarded := by
  simp only [IpHeader.forwarded]

/-- What `ip_build_and_send_pkt` writes, the checksum field still clear. -/
def builtHeader (skb : SkBuff) (saddr daddr : UInt32) : IpHeader where
  versionIhl := 0x45
  tos := 0
  totLen := htons (UInt16.ofNat (skb.len+20).toNat)
  id := 0
  fragOff := htons 0x4000
  ttl := 64
  protocol := match skb.sk with | some inet => UInt8.ofNat inet.inetNum.toNat | none => 0
  check := 0
  saddr := saddr
  daddr := daddr

section Steps
variable {P : Machine → (Σ β : Type,NetCmd β) → Prop} {m : Machine}

lemma throughout_devQueueXmit (hP : OnlyAtTransmit P) :
    Throughout P devQueueXmit m ↔ P m ⟨_,.reach .devQueueXmit⟩ ∧
      ∀ dev, m.skb.dev = some dev → dev.Up → P m ⟨_,.hardStartXmit dev⟩ := by
  simp only [devQueueXmit,throughout_reach,throughout_getSkb,hP.getSkb,true_and]
  refine and_congr_right fun _ => ?_
  cases m.skb.dev with
  | none => simp [hP.kfreeSkb]
  | some dev =>
    simp only [Option.some.injEq,forall_eq',NetDevice.Up]
    split_ifs with hrun hxmit
    · simp_all [hP.kfreeSkb]
    · simp_all [hP.kfreeSkb]
    · simp_all

/-- The memory after `ip_output` has counted the hop and renewed the checksum. -/
def Machine.forwardedMem (m : Machine) : ℤ → UInt8 :=
  let mem := writeBytes m.mem (m.skb.nh+8) [m.mem (m.skb.nh+8)-1]
  let mem := writeBytes mem (m.skb.nh+10) (bytes16 0)
  writeBytes mem (m.skb.nh+10)
    (bytes16 (ipFastCsum (readBytes mem m.skb.nh (4*(lowNibble (mem m.skb.nh)).toNat))))

/-- `ip_output` on any buffer: the frame goes to `eth0` while there are hops left. -/
theorem throughout_ipOutput_eth0 (hP : OnlyAtTransmit P) :
    Throughout P ipOutput m ↔ ∀ dev, m.device "eth0" = some dev → m.mem (m.skb.nh+8)-1 ≠ 0 →
      Throughout P devQueueXmit (m.sent dev m.forwardedMem) := by
  have hself : ∀ b, writeBytes m.mem (m.skb.nh+8) [b] (m.skb.nh+8) = b := by simp [writeBytes]
  simp only [ipOutput,throughout_getSkb,throughout_devGetByName,hP.getSkb,hP.devGetByName,true_and]
  cases m.device "eth0" with
  | none => simp [hP.kfreeSkb]
  | some dev =>
    simp only [throughout_getSkb,throughout_setSkb,throughout_load8,throughout_store,
      written_mem,withSkb_mem,hP.getSkb,hP.setSkb,hP.load,hP.store,true_and,hself,
      Option.some.injEq,forall_eq']
    by_cases httl : m.mem (m.skb.nh+8)-1 = 0
    · simp [httl,hP.kfreeSkb]
    · rw [if_neg (by simpa using httl)]
      simp only [throughout_store,throughout_load8,throughout_load,throughout_skbPush,throughout_getSkb,
        throughout_setSkb,written_mem,withSkb_mem,hP.getSkb,hP.setSkb,hP.load,hP.store,
        true_and,ne_eq,httl,not_false_eq_true,forall_true_left]
      exact Iff.rfl

/-- `ip_output` on a buffer whose header has no options. -/
theorem throughout_ipOutput {h : IpHeader} (hh : HoldsHeader m.mem m.skb.nh h)
    (hv : lowNibble h.versionIhl = 5) :
    ∃ mem, HoldsHeader mem m.skb.nh h.forwarded ∧ ∀ P, OnlyAtTransmit P →
      (Throughout P ipOutput m ↔ ∀ dev, m.device "eth0" = some dev → h.ttl-1 ≠ 0 →
        Throughout P devQueueXmit (m.sent dev mem)) := by
  set g : IpHeader := { h with ttl := h.ttl-1, check := 0 } with hg
  have h2 : HoldsHeader _ _ g := (hh.setTtl (h.ttl-1)).setCheck 0
  have h3 : HoldsHeader _ _ h.forwarded := h2.setCheck (ipFastCsum g.encode)
  have hread : readBytes (writeBytes (writeBytes m.mem (m.skb.nh+8) [h.ttl-1]) (m.skb.nh+10) (bytes16 0))
      m.skb.nh (4*(lowNibble g.versionIhl).toNat) = g.encode := by
    rw [show g.versionIhl = h.versionIhl from rfl,hv]
    exact h2
  refine ⟨m.forwardedMem,?_,fun P hP => ?_⟩
  · simp only [Machine.forwardedMem,hh.ttl,h2.versionIhl,hread]
    exact h3
  · rw [throughout_ipOutput_eth0 hP,hh.ttl]

/-- Setting both halves of the first header byte. -/
lemma setNibbles_versionIhl (b : UInt8) : setLowNibble (setHighNibble b 4) 5 = 0x45 := by
  have hb : (setHighNibble b 4).toNat = 64+b.toNat % 16 := by
    rw [setHighNibble,UInt8.toNat_ofNat_of_lt' (by change 4*16+_ < 256; omega)]
    rfl
  have hdiv : (64+b.toNat % 16) / 16*16 = 64 := by omega
  rw [setLowNibble,hb,hdiv]
  rfl

/-- The machine whose buffer has got room for an IP header. -/
def Machine.headed (m : Machine) (mem : ℤ → UInt8) : Machine :=
  { m with mem := mem, skb := { m.skb with
      data := m.skb.data-20, len := m.skb.len+20, nh := m.skb.data-20 } }

/-- `ip_build_and_send_pkt` on any buffer: the header that the device layer gets. -/
theorem throughout_ipBuildAndSendPkt (m : Machine) (saddr daddr : UInt32) :
    ∃ mem, HoldsHeader mem (m.skb.data-20) (builtHeader m.skb saddr daddr).forwarded ∧
      ∀ P, OnlyAtTransmit P → (Throughout P (ipBuildAndSendPkt saddr daddr) m ↔
        ∀ dev, m.device "eth0" = some dev → Throughout P devQueueXmit ((m.headed m.mem).sent dev mem)) := by
  set h := builtHeader m.skb saddr daddr with hh
  set a := m.skb.data-20 with ha
  set mem₁ := h.storeAt a (writeBytes m.mem a [setHighNibble (m.mem a) 4]) with hmem₁
  have h1 : HoldsHeader mem₁ a h := holdsHeader_storeAt h a _
  have hihl : lowNibble h.versionIhl = 5 := show lowNibble 0x45 = 5 by decide
  have hread : readBytes mem₁ a (4*(lowNibble h.versionIhl).toNat) = h.encode := by
    rw [hihl]
    exact h1
  have h2 := h1.setCheck (ipFastCsum h.encode)
  obtain ⟨mem,hmem,hout⟩ :=
    throughout_ipOutput (m := m.headed (writeBytes mem₁ (a+10) (bytes16 (ipFastCsum h.encode)))) h2 hihl
  rw [IpHeader.forwarded_check] at hmem
  refine ⟨mem,hmem,fun P hP => ?_⟩
  have hlow : writeBytes m.mem a [setHighNibble (m.mem a) 4] a = setHighNibble (m.mem a) 4 := by
    simp [writeBytes]
  simp only [ipBuildAndSendPkt,throughout_skbPush,throughout_getSkb,throughout_setSkb,throughout_load8,
    throughout_store,throughout_load,hP.getSkb,hP.setSkb,hP.load,hP.store,true_and,Machine.written,
    Machine.withSkb,Machine.pushed]
  simp only [show (UInt32.toNat 20 : ℤ) = 20 from rfl,← ha,hlow,setNibbles_versionIhl]
  generalize hM : writeBytes _ (a+16) (bytes32 daddr) = M
  obtain rfl : M = mem₁ := hM.symm
  rw [h1.versionIhl,hread]
  refine (hout P hP).trans (forall_congr' fun dev => imp_congr_right fun _ => ?_)
  exact ⟨fun hx => hx (show (64 : UInt8)-1 ≠ 0 by decide),fun hx _ => hx⟩

end Steps

section Checksum

lemma le32_bytes32 (x : UInt32) :
    le32 (UInt8.ofNat x.toNat) (UInt8.ofNat (x.toNat / 256)) (UInt8.ofNat (x.toNat / 65536))
      (UInt8.ofNat (x.toNat / 16777216)) = x.toNat := by
  have := x.toNat_lt
  simp only [le32,UInt8.toNat_ofNat']
  omega

/-- The 16-bit words of a header. -/
lemma words16_encode (h : IpHeader) : words16 h.encode =
    [le16 h.versionIhl h.tos,h.totLen.toNat,h.id.toNat,h.fragOff.toNat,le16 h.ttl h.protocol,
      h.check.toNat] ++ words16 (bytes32 h.saddr) ++ words16 (bytes32 h.daddr) := by
  simp only [IpHeader.encode,bytes16,bytes32,words16,le16_bytes16,List.cons_append,List.nil_append]

/-- The 32-bit words of a header. -/
lemma words32_encode (h : IpHeader) : words32 h.encode =
    [le16 h.versionIhl h.tos+65536*h.totLen.toNat,h.id.toNat+65536*h.fragOff.toNat,
      le16 h.ttl h.protocol+65536*h.check.toNat,h.saddr.toNat,h.daddr.toNat] := by
  have hsplit : ∀ (a b : UInt8) (x : UInt16), le32 a b (UInt8.ofNat x.toNat) (UInt8.ofNat (x.toNat / 256)) =
      le16 a b+65536*x.toNat := by
    intro a b x
    have hx := le16_bytes16 x
    simp only [le32,le16] at hx ⊢
    omega
  simp only [IpHeader.encode,bytes16,bytes32,words32,le16_bytes16,hsplit,le32_bytes32,List.cons_append,
    List.nil_append]

/-- The checksum computed over a cleared header is accepted by the receiver exactly when the
32-bit sum of the header does not carry out of bit 31. -/
theorem ipComputeCsum_forwarded_iff (h : IpHeader) (hv : 0 < h.versionIhl.toNat) :
    ipComputeCsum h.forwarded.encode = 0 ↔
      (words32 { h with ttl := h.ttl-1, check := 0 }.encode).sum < 2^32 := by
  set g : IpHeader := { h with ttl := h.ttl-1, check := 0 } with hg
  have hsum : (words16 h.forwarded.encode).sum = (words16 g.encode).sum+(ipFastCsum g.encode).toNat := by
    rw [words16_encode,words16_encode]
    simp only [IpHeader.forwarded,hg,List.sum_append,List.sum_cons,List.sum_nil]
    have hz : (0 : UInt16).toNat = 0 := rfl
    omega
  have hpos : 0 < (words16 g.encode).sum := by
    rw [words16_encode]
    simp only [le16,List.sum_append,List.sum_cons]
    change 0 < h.versionIhl.toNat+_+_+_+_
    omega
  have hother := words16_sum_le g.encode
  have htotal := words32_sum_le g.encode
  rw [IpHeader.encode_length] at hother htotal
  have hmod := words16_sum_modEq g.encode (by simp)
  rw [← verify_fast_iff hpos (by omega) (by omega) hmod,ipComputeCsum,sum32_eq,sum32_eq,hsum]
  rw [ipFastCsum,sum32_eq]
  simp only [List.sum_cons,List.sum_nil,Nat.add_zero]

/-- The sum of the 32-bit words of the header that `ip_output` sends, checksum field clear:
`0x45` with the length in network byte order, `IP_DF`, the hop count 63 with the protocol, and the
two addresses. -/
def headerSum (totLen : ℕ) (protocol : UInt8) (saddr daddr : UInt32) : ℕ :=
  0x45+65536*(totLen / 256)+16777216*(totLen % 256)+0x400000+(63+256*protocol.toNat)+saddr.toNat+
    daddr.toNat

lemma htons_toNat {n : ℕ} (hn : n < 65536) : (htons (UInt16.ofNat n)).toNat = n % 256*256+n / 256 := by
  rw [htons,bswap16,UInt16.toNat_ofNat_of_lt' hn,UInt16.toNat_ofNat_of_lt']
  change _ < 65536
  omega

lemma builtHeader_sum (skb : SkBuff) (saddr daddr : UInt32) (hlen : skb.len.toNat ≤ 65515) :
    (words32 { builtHeader skb saddr daddr with
      ttl := (builtHeader skb saddr daddr).ttl-1, check := 0 }.encode).sum =
      headerSum (skb.len.toNat+20) (builtHeader skb saddr daddr).protocol saddr daddr := by
  have hadd : (skb.len+20).toNat = skb.len.toNat+20 := by
    rw [UInt32.toNat_add,Nat.mod_eq_of_lt]
    · rfl
    · change skb.len.toNat+20 < 2^32
      omega
  have hdf : (htons 0x4000).toNat = 0x40 := by decide
  have htot : (builtHeader skb saddr daddr).totLen.toNat =
      (skb.len.toNat+20) % 256*256+(skb.len.toNat+20) / 256 := by
    rw [builtHeader,hadd]
    exact htons_toNat (by omega)
  rw [words32_encode]
  simp only [List.sum_cons,List.sum_nil,le16,headerSum,htot]
  have h1 : (builtHeader skb saddr daddr).versionIhl.toNat = 0x45 := rfl
  have h2 : (builtHeader skb saddr daddr).tos.toNat = 0 := rfl
  have h3 : (builtHeader skb saddr daddr).id.toNat = 0 := rfl
  have h4 : (builtHeader skb saddr daddr).fragOff.toNat = 0x40 := hdf
  have h5 : (builtHeader skb saddr daddr).saddr = saddr := rfl
  have h6 : (builtHeader skb saddr daddr).daddr = daddr := rfl
  have h7 : ((builtHeader skb saddr daddr).ttl-1).toNat = 63 := show ((64 : UInt8)-1).toNat = 63 by decide
  have h8 : (0 : UInt16).toNat = 0 := rfl
  rw [h1,h2,h3,h4,h5,h6,h7,h8]
  omega

end Checksum

/-- Every header that reaches `dev_queue_xmit` passes the check of `ip_rcv`. -/
def TransmitsValid (m : Machine) (saddr daddr : UInt32) : Prop :=
  ∀ s, Machine.Makes (ipBuildAndSendPkt saddr daddr) m (.reach .devQueueXmit) s →
    ipComputeCsum (readBytes s.mem s.skb.nh 20) = 0

/-- One header is sent if `eth0` exists, and none otherwise. -/
lemma transmitsValid_iff_forwarded (m : Machine) (saddr daddr : UInt32) : TransmitsValid m saddr daddr ↔
    ((m.device "eth0").isSome → ipComputeCsum (builtHeader m.skb saddr daddr).forwarded.encode = 0) := by
  obtain ⟨mem,hmem,hsend⟩ := throughout_ipBuildAndSendPkt m saddr daddr
  have hP : OnlyAtTransmit fun s c => placeOf c.2 = some .devQueueXmit →
      ipComputeCsum (readBytes s.mem s.skb.nh 20) = 0 := by constructor <;> simp [placeOf]
  rw [HoldsHeader] at hmem
  rw [TransmitsValid,forall_makes_reach,hsend _ hP]
  simp only [throughout_devQueueXmit hP,Option.isSome_iff_exists,forall_exists_index]
  refine forall_congr' fun dev => imp_congr_right fun _ => ?_
  simp only [placeOf,forall_true_left,reduceCtorEq,IsEmpty.forall_iff,implies_true,and_true,← hmem]
  exact Iff.rfl

lemma forwarded_valid_iff {skb : SkBuff} (hlen : skb.len.toNat ≤ 65515) (saddr daddr : UInt32) :
    ipComputeCsum (builtHeader skb saddr daddr).forwarded.encode = 0 ↔
      headerSum (skb.len.toNat+20) (builtHeader skb saddr daddr).protocol saddr daddr < 2^32 := by
  rw [ipComputeCsum_forwarded_iff _ (show 0 < (0x45 : UInt8).toNat by decide),
    builtHeader_sum skb saddr daddr hlen]

/-- The header that reaches `dev_queue_xmit` passes the receiver's check exactly when the sum of its
32-bit words does not carry out of bit 31. -/
theorem transmitted_checksum_valid_iff (m : Machine) (saddr daddr : UInt32)
    (hlen : m.skb.len.toNat ≤ 65515) :
    TransmitsValid m saddr daddr ↔ ((m.device "eth0").isSome → headerSum (m.skb.len.toNat+20)
      (match m.skb.sk with | some inet => UInt8.ofNat inet.inetNum.toNat | none => 0) saddr daddr < 2^32) :=
  (transmitsValid_iff_forwarded m saddr daddr).trans (imp_congr_right fun _ =>
    forwarded_valid_iff hlen saddr daddr)

/-- A machine with a running `eth0` and a buffer with `len` bytes of payload. -/
def sending (len : UInt32) : Machine where
  mem := fun _ => 0
  skb := ⟨0,128,128+len.toNat,128+len.toNat,len,none,none,0,.host,0⟩
  devBase := [⟨"eth0",iffRunning,⟨List.replicate 6 0,rfl⟩,true⟩]
  page := some 0
  txStatus := 0

theorem transmitted_checksum_valid_iff_low : TransmitsValid (sending 8) 0x0100000a 0x0200000a :=
  (transmitted_checksum_valid_iff _ _ _ (by decide)).mpr (fun _ => by decide)

/-- From 10.0.0.200 to 10.0.0.201 the two address words alone carry out of bit 31. -/
theorem transmitted_checksum_invalid : (sending 8).skb.len.toNat ≤ 65515 ∧
    ¬ TransmitsValid (sending 8) 0xc800000a 0xc900000a := by
  refine ⟨by decide,?_⟩
  rw [transmitsValid_iff_forwarded,forwarded_valid_iff (by decide)]
  decide

end Linuxab.Net
