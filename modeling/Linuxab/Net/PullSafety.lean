import Linuxab.Net.Execution

/-! Lengths along the receive path. The buffer is sound while `len` is the distance from `data` to
`tail`; a pull keeps it sound exactly when it removes at most `len` bytes. The condition under
which every pull of a received frame does so is stated on the bytes of the frame. -/
namespace Linuxab.Net
open Linuxab.Base Linuxab.Base.Program

/-- `data <= tail` and `len == tail - data`. -/
def SkBuff.Sound (skb : SkBuff) : Prop :=
  skb.data ≤ skb.tail ∧ (skb.len.toNat : ℤ) = skb.tail-skb.data

/-- The number of bytes that a command pulls from the buffer. -/
def pullSize {β : Type} : NetCmd β → ℕ
  | .skbPull len => len.toNat
  | _ => 0

/-- No pull of the run removes more than there is, and the buffer is sound throughout. -/
def NoUnderflow {α : Type} (p : NetProg α) (m : Machine) : Prop :=
  Throughout (fun m c => m.skb.Sound ∧ pullSize c.2 ≤ m.skb.len.toNat) p m

section Frame

/-- The fields of the frame that starts at `a`, as the receive functions read them. -/
def etherType (mem : ℤ → UInt8) (a : ℤ) : UInt16 := ntohs (word16 mem (a+12))
def ipVersion (mem : ℤ → UInt8) (a : ℤ) : UInt8 := highNibble (mem a)
def ipHeaderWords (mem : ℤ → UInt8) (a : ℤ) : UInt8 := lowNibble (mem a)
def ipTotalLength (mem : ℤ → UInt8) (a : ℤ) : ℕ := (ntohs (word16 mem (a+2))).toNat
def tcpHeaderWords (mem : ℤ → UInt8) (a : ℤ) : UInt8 := highNibble (mem (a+12))

/-- The transport header fits in the `n` bytes that follow the IP header at `a`. -/
def TransportFits (mem : ℤ → UInt8) (protocol : UInt8) (a : ℤ) (n : ℕ) : Prop :=
  (protocol = 6 → 4*(tcpHeaderWords mem a).toNat ≤ n) ∧ (protocol = 17 → 8 ≤ n)

/-- The IP header of an accepted packet of `n` bytes fits, and so does the next one. -/
def IpFits (mem : ℤ → UInt8) (a : ℤ) (n : ℕ) : Prop :=
  ipVersion mem a = 4 → 5 ≤ ipHeaderWords mem a → ipTotalLength mem a ≤ n →
    4*(ipHeaderWords mem a).toNat ≤ n ∧
    TransportFits mem (mem (a+9)) (a+4*(ipHeaderWords mem a).toNat) (n-4*(ipHeaderWords mem a).toNat)

/-- All headers of a frame of `n` bytes fit in it. -/
def FrameFits (mem : ℤ → UInt8) (a : ℤ) (n : ℕ) : Prop :=
  14 ≤ n ∧ (etherType mem a = 0x0800 → IpFits mem (a+14) (n-14))

instance (mem : ℤ → UInt8) (protocol : UInt8) (a : ℤ) (n : ℕ) :
    Decidable (TransportFits mem protocol a n) := by
  unfold TransportFits
  infer_instance

instance (mem : ℤ → UInt8) (a : ℤ) (n : ℕ) : Decidable (IpFits mem a n) := by
  unfold IpFits
  infer_instance

instance (mem : ℤ → UInt8) (a : ℤ) (n : ℕ) : Decidable (FrameFits mem a n) := by
  unfold FrameFits
  infer_instance

end Frame

section Steps
variable {m : Machine}

/-- Only `data`, `tail` and `len` matter. -/
@[simp] lemma sound_update (skb : SkBuff) (head bufEnd nh : ℤ) (dev : Option NetDevice)
    (sk : Option InetSock) (protocol : UInt16) (pktType : PacketType) :
    SkBuff.Sound ⟨head,skb.data,skb.tail,bufEnd,skb.len,dev,sk,protocol,pktType,nh⟩ ↔ skb.Sound :=
  Iff.rfl

lemma SkBuff.Sound.pulled {len : UInt32} (h : m.skb.Sound) (hl : len.toNat ≤ m.skb.len.toNat) :
    (m.pulled len).skb.Sound := by
  have hsub : (m.skb.len-len).toNat = m.skb.len.toNat-len.toNat :=
    UInt32.toNat_sub_of_le _ _ (UInt32.le_iff_toNat_le.mpr hl)
  simp only [Sound,pulled_data,pulled_tail,pulled_len,hsub] at h ⊢
  omega

lemma SkBuff.Sound.pushed {len : UInt32} (h : m.skb.Sound) (hl : m.skb.len.toNat+len.toNat < 2^32) :
    (m.pushed len).skb.Sound := by
  have hadd : (m.skb.len+len).toNat = m.skb.len.toNat+len.toNat := by
    rw [UInt32.toNat_add,Nat.mod_eq_of_lt hl]
  simp only [Sound,pushed_data,pushed_tail,pushed_len,hadd] at h ⊢
  omega

lemma nibble_words_toNat (b : UInt8) (hb : b.toNat < 16) :
    (UInt32.ofNat (4*b.toNat)).toNat = 4*b.toNat :=
  UInt32.toNat_ofNat_of_lt' (by change _ < 2^32; omega)

lemma lowNibble_lt (b : UInt8) : (lowNibble b).toNat < 16 := by
  rw [lowNibble,UInt8.toNat_ofNat_of_lt' (by change _ < 256; omega)]
  omega

lemma highNibble_lt (b : UInt8) : (highNibble b).toNat < 16 := by
  have := b.toNat_lt
  rw [highNibble,UInt8.toNat_ofNat_of_lt' (by change _ < 256; omega)]
  omega

/-- A pull in a sound state: it has to fit, and then the rest runs from a sound state. -/
lemma noUnderflow_skbPull {α : Type} {f : Unit → NetProg α} {len : UInt32} (hm : m.skb.Sound) :
    NoUnderflow (skbPull len >>= f) m ↔
      len.toNat ≤ m.skb.len.toNat ∧ NoUnderflow (f ()) (m.pulled len) := by
  simp only [NoUnderflow,throughout_skbPull,hm,pullSize,true_and]

lemma noUnderflow_tcpRcv (hm : m.skb.Sound) :
    NoUnderflow tcpRcv m ↔ 4*(tcpHeaderWords m.mem m.skb.data).toNat ≤ m.skb.len.toNat := by
  have hw := nibble_words_toNat _ (highNibble_lt (m.mem (m.skb.data+12)))
  simp only [NoUnderflow,tcpRcv,throughout_reach,throughout_getSkb,throughout_load8,throughout_load16,
    throughout_load32,throughout_printk,hm,pullSize,zero_le,true_and]
  rw [Nat.mul_comm]
  refine (noUnderflow_skbPull hm).trans ?_
  rw [hw]
  refine and_iff_left_of_imp fun hl => ?_
  have hs := hm.pulled (hw.trans_le hl)
  simp only [NoUnderflow,throughout_reach,throughout_kfreeSkb,hs,pullSize,zero_le,true_and,pure_eq,throughout_ret]

lemma noUnderflow_udpRcv (hm : m.skb.Sound) : NoUnderflow udpRcv m ↔ 8 ≤ m.skb.len.toNat := by
  simp only [NoUnderflow,udpRcv,throughout_reach,throughout_getSkb,throughout_load16,
    throughout_printk,hm,pullSize,zero_le,true_and]
  refine (noUnderflow_skbPull hm).trans (and_iff_left_of_imp fun hl => ?_)
  have hs := hm.pulled hl
  simp only [NoUnderflow,throughout_reach,throughout_kfreeSkb,hs,pullSize,zero_le,true_and,pure_eq,throughout_ret]

lemma noUnderflow_devQueueXmit (hm : m.skb.Sound) : NoUnderflow devQueueXmit m := by
  simp only [NoUnderflow,devQueueXmit,throughout_reach,throughout_getSkb,hm,pullSize,zero_le,true_and]
  split
  · simp [hm]
  · split_ifs <;> simp [hm]

/-- `ip_output` pulls nothing; it needs room for the Ethernet header in the length counter. -/
lemma noUnderflow_ipOutput (hm : m.skb.Sound) (hl : m.skb.len.toNat+14 < 2^32) :
    NoUnderflow ipOutput m := by
  simp only [NoUnderflow,ipOutput,throughout_getSkb,throughout_devGetByName,hm,pullSize,zero_le,true_and]
  cases m.device "eth0" with
  | none => simp [hm]
  | some dev =>
    simp only [throughout_getSkb,throughout_setSkb,throughout_load8,throughout_store,withSkb_skb,
      written_skb,sound_update,hm,zero_le,true_and]
    split_ifs
    · simp [hm]
    · simp only [throughout_store,throughout_load8,throughout_load,throughout_skbPush,withSkb_skb,
        written_skb,sound_update,hm,zero_le,true_and,throughout_getSkb,throughout_setSkb]
      have hs : (m.pushed 14).skb.Sound := hm.pushed hl
      exact ⟨⟨hs,trivial⟩,⟨hs,trivial⟩,noUnderflow_devQueueXmit hs⟩

lemma noUnderflow_icmpRcv (hm : m.skb.Sound) (hl : m.skb.len.toNat+14 < 2^32) :
    NoUnderflow icmpRcv m := by
  simp only [NoUnderflow,icmpRcv,throughout_reach,throughout_getSkb,throughout_load8,throughout_printk,
    hm,pullSize,zero_le,true_and]
  split_ifs
  · simp only [throughout_getSkb,throughout_load8,throughout_load32,throughout_store,throughout_load,
      throughout_setSkb,written_skb,hm,zero_le,true_and]
    rw [throughout_bind]
    exact ⟨noUnderflow_ipOutput hm hl,throughout_ret _⟩
  · simp [hm]

lemma noUnderflow_ipLocalDeliver (hm : m.skb.Sound) (hl : m.skb.len.toNat+14 < 2^32) (ihl : UInt8) :
    NoUnderflow (ipLocalDeliver ihl) m ↔
      TransportFits m.mem (m.mem (m.skb.data-4*ihl.toNat+9)) m.skb.data m.skb.len.toNat := by
  simp only [NoUnderflow,ipLocalDeliver,throughout_loadUninit,throughout_getSkb,throughout_load8,hm,
    pullSize,zero_le,true_and]
  set protocol := m.mem (m.skb.data-4*ihl.toNat+9) with hp
  by_cases htcp : protocol = 6
  · rw [if_pos htcp]
    refine (noUnderflow_tcpRcv hm).trans ?_
    simp [TransportFits,htcp]
  · by_cases hudp : protocol = 17
    · rw [if_neg htcp,if_pos hudp]
      refine (noUnderflow_udpRcv hm).trans ?_
      simp [TransportFits,hudp]
    · have hrest : TransportFits m.mem protocol m.skb.data m.skb.len.toNat :=
        ⟨fun h => absurd h htcp,fun h => absurd h hudp⟩
      rw [if_neg htcp,if_neg hudp,iff_true_intro hrest,iff_true]
      split_ifs
      · exact noUnderflow_icmpRcv hm hl
      · simp [hm]

/-- Pulling the IP header and delivering the packet. -/
lemma noUnderflow_deliver (hm : m.skb.Sound) (hl : m.skb.len.toNat+14 < 2^32) {ihl : UInt8}
    (hi : ihl.toNat < 16) :
    NoUnderflow (skbPull (UInt32.ofNat (4*ihl.toNat)) >>= fun _ => ipLocalDeliver ihl) m ↔
      4*ihl.toNat ≤ m.skb.len.toNat ∧ TransportFits m.mem (m.mem (m.skb.data+9))
        (m.skb.data+4*ihl.toNat) (m.skb.len.toNat-4*ihl.toNat) := by
  have hw := nibble_words_toNat ihl hi
  refine (noUnderflow_skbPull hm).trans ?_
  rw [hw]
  refine and_congr_right fun hfit => ?_
  have hlen : (m.skb.len-UInt32.ofNat (4*ihl.toNat)).toNat = m.skb.len.toNat-4*ihl.toNat := by
    rw [UInt32.toNat_sub_of_le _ _ (UInt32.le_iff_toNat_le.mpr (hw.trans_le hfit)),hw]
  have hs := hm.pulled (hw.trans_le hfit)
  rw [noUnderflow_ipLocalDeliver hs (by rw [pulled_len,hlen]; omega),pulled_mem,pulled_data,
    pulled_len,hlen,hw]
  simp

lemma noUnderflow_ipRcv (hm : m.skb.Sound) (hl : m.skb.len.toNat+14 < 2^32) :
    NoUnderflow ipRcv m ↔ IpFits m.mem m.skb.data m.skb.len.toNat := by
  have hdeliver := noUnderflow_deliver hm hl (lowNibble_lt (m.mem m.skb.data))
  simp only [NoUnderflow,ipRcv,throughout_getSkb,throughout_load8,hm,pullSize,zero_le,true_and]
  simp only [IpFits,ipVersion,ipHeaderWords,ipTotalLength]
  split_ifs with hv
  · simp [hm,hv]
  · simp only [throughout_load8,hm,zero_le,true_and]
    split_ifs with hi
    · simp [hm,hi]
    · simp only [throughout_load16,throughout_getSkb,hm,zero_le,true_and]
      split_ifs with ht
      · simp [hm,ht]
      · have hchecked : 5 ≤ lowNibble (m.mem m.skb.data) := UInt8.not_lt.mp hi
        simp only [throughout_load8,throughout_load,hm,zero_le,true_and,not_not.mp hv,
          hchecked,not_lt.mp ht,forall_true_left]
        refine Iff.trans ?_ hdeliver
        split_ifs <;> simp [hm,NoUnderflow,pullSize]

/-- `eth_type_trans` sets the device, the protocol and the packet type and pulls the header. -/
lemma noUnderflow_ethRcv (hm : m.skb.Sound) :
    NoUnderflow ethRcv m ↔ FrameFits m.mem m.skb.data m.skb.len.toNat := by
  simp only [NoUnderflow,ethRcv,ethTypeTrans,Program.bind_assoc,throughout_getSkb,throughout_setSkb,
    throughout_load16,throughout_load,withSkb_skb,sound_update,hm,pullSize,zero_le,true_and]
  set pktType := ethPacketType (readBytes m.mem m.skb.data 6) m.skb.dev
  change NoUnderflow (skbPull 14 >>= _) (m.classified pktType) ↔ _
  have hc : (m.classified pktType).skb.Sound := hm
  refine (noUnderflow_skbPull hc).trans (and_congr_right fun hfit => ?_)
  have hs := hc.pulled hfit
  have hlen : (m.skb.len-14).toNat = m.skb.len.toNat-14 :=
    UInt32.toNat_sub_of_le _ _ (UInt32.le_iff_toNat_le.mpr hfit)
  have hip := noUnderflow_ipRcv hs (by
    have := m.skb.len.toNat_lt
    change (m.skb.len-14).toNat+14 < 2^32
    change 14 ≤ m.skb.len.toNat at hfit
    omega)
  simp only [NoUnderflow,throughout_getSkb,hs,pullSize,zero_le,true_and,pure_eq,ret_bind]
  change (Throughout _ (if etherType m.mem m.skb.data = 2048 then _ else _) _) ↔ _
  split_ifs with hip4 harp
  · rw [throughout_bind]
    simp only [throughout_ret,and_true]
    refine hip.trans ?_
    simp only [hip4,forall_true_left]
    change IpFits m.mem (m.skb.data+14) (m.skb.len-14).toNat ↔ _
    rw [hlen]
  · simp [hs,hip4]
  · simp [hs,hip4]

end Steps

/-- A machine that has just received the frame. -/
def receiving (frame : List UInt8) : Machine where
  mem := writeBytes (fun _ => 0) 0 frame
  skb := ⟨0,0,frame.length,frame.length,UInt32.ofNat frame.length,none,none,0,.host,0⟩
  devBase := []
  page := none
  txStatus := 0

/-- An Ethernet and an IP header of 20 bytes whose `ihl` announces 60 bytes. -/
def longHeaderFrame : List UInt8 :=
  [0,0,0,0,0,0,0,0,0,0,0,0,8,0,0x4f,0,0,20,0,0,0,0,64,6,0,0,10,0,0,1,10,0,0,2]

end Linuxab.Net
