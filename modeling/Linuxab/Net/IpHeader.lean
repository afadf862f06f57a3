import Mathlib.Data.List.GetD
import Linuxab.Net.Execution

/-! The 20-byte IP header in memory. A header record and the bytes that encode it; storing a field
at its offset changes that field of the record and nothing else. -/
namespace Linuxab.Net

structure IpHeader where
  versionIhl : UInt8
  tos : UInt8
  totLen : UInt16
  id : UInt16
  fragOff : UInt16
  ttl : UInt8
  protocol : UInt8
  check : UInt16
  saddr : UInt32
  daddr : UInt32

namespace IpHeader

/-- The header as it lies in memory. -/
def encode (h : IpHeader) : List UInt8 :=
  [h.versionIhl,h.tos] ++ bytes16 h.totLen ++ bytes16 h.id ++ bytes16 h.fragOff ++
    [h.ttl,h.protocol] ++ bytes16 h.check ++ bytes32 h.saddr ++ bytes32 h.daddr

@[simp] lemma encode_length (h : IpHeader) : h.encode.length = 20 := rfl

end IpHeader

/-- The memory holds the header at the address. -/
def HoldsHeader (mem : ℤ → UInt8) (a : ℤ) (h : IpHeader) : Prop := readBytes mem a 20 = h.encode

section Memory
variable {mem : ℤ → UInt8} {a : ℤ}

lemma writeBytes_of_lt {bytes : List UInt8} {x : ℤ} (h : x < a) : writeBytes mem a bytes x = mem x := by
  rw [writeBytes,if_neg (by omega)]

lemma writeBytes_of_ge {bytes : List UInt8} {x : ℤ} (h : a+bytes.length ≤ x) :
    writeBytes mem a bytes x = mem x := by
  rw [writeBytes,if_pos (by omega)]
  exact List.getD_eq_default _ _ (by omega)

lemma readBytes_getElem {n k : ℕ} (hk : k < (readBytes mem a n).length) :
    (readBytes mem a n)[k] = mem (a+k) := by simp [readBytes]

lemma readBytes_congr {mem' : ℤ → UInt8} {n : ℕ} (h : ∀ x, a ≤ x → x < a+n → mem x = mem' x) :
    readBytes mem a n = readBytes mem' a n := by
  apply List.map_congr_left
  intro i hi
  have := List.mem_range.mp hi
  exact h _ (by omega) (by omega)

lemma readBytes_add (mem : ℤ → UInt8) (a : ℤ) (i n : ℕ) :
    readBytes mem a (i+n) = readBytes mem a i ++ readBytes mem (a+i) n := by
  simp [readBytes,List.range_add,add_assoc]

/-- Storing inside a region replaces that part of it. -/
theorem readBytes_writeBytes {i n : ℕ} {bytes : List UInt8} (h : i+bytes.length ≤ n) :
    readBytes (writeBytes mem (a+i) bytes) a n =
      (readBytes mem a n).take i ++ bytes ++ (readBytes mem a n).drop (i+bytes.length) := by
  apply List.ext_getElem
  · simp
    omega
  intro k hk _
  rw [readBytes_length] at hk
  rw [readBytes_getElem]
  rcases lt_or_ge k i with hki | hik
  · rw [writeBytes_of_lt (by omega),List.getElem_append_left (by simp; omega),
      List.getElem_append_left (by simp; omega),List.getElem_take,readBytes_getElem]
  rcases lt_or_ge k (i+bytes.length) with hkb | hbk
  · rw [List.getElem_append_left (by simp; omega),List.getElem_append_right (by simp; omega)]
    rw [writeBytes,if_pos (by omega)]
    have hsub : (a+k-(a+i)).toNat = k-i := by omega
    rw [hsub,List.getD_eq_getElem _ _ (by omega)]
    congr 1
    simp
    omega
  · rw [writeBytes_of_ge (by omega),List.getElem_append_right (by simp; omega),List.getElem_drop,
      readBytes_getElem]
    congr 2
    simp
    omega

lemma readBytes_writeBytes_self (mem : ℤ → UInt8) (a : ℤ) (bytes : List UInt8) :
    readBytes (writeBytes mem a bytes) a bytes.length = bytes := by
  have h : readBytes (writeBytes mem (a+(0 : ℕ)) bytes) a bytes.length = _ :=
    readBytes_writeBytes (by omega)
  rw [Int.natCast_zero,add_zero] at h
  rw [h,List.drop_eq_nil_of_le (by simp),List.take_zero,List.nil_append,List.append_nil]

end Memory

section Fields
variable {mem : ℤ → UInt8} {a : ℤ} {h : IpHeader}

lemma bytes16_word16 (mem : ℤ → UInt8) (a : ℤ) : bytes16 (word16 mem a) = [mem a,mem (a+1)] := by
  have h0 := (mem a).toNat_lt
  have h1 := (mem (a+1)).toNat_lt
  have hw : (word16 mem a).toNat = le16 (mem a) (mem (a+1)) := UInt16.toNat_ofNat_of_lt' (le16_lt _ _)
  simp only [bytes16,hw,le16,List.cons.injEq,and_true,← UInt8.toNat_inj,UInt8.toNat_ofNat']
  omega

lemma bytes32_word32 (mem : ℤ → UInt8) (a : ℤ) :
    bytes32 (word32 mem a) = [mem a,mem (a+1),mem (a+2),mem (a+3)] := by
  have h0 := (mem a).toNat_lt
  have h1 := (mem (a+1)).toNat_lt
  have h2 := (mem (a+2)).toNat_lt
  have h3 := (mem (a+3)).toNat_lt
  have hw : (word32 mem a).toNat = le32 (mem a) (mem (a+1)) (mem (a+2)) (mem (a+3)) := by
    refine UInt32.toNat_ofNat_of_lt' ?_
    change le32 _ _ _ _ < 4294967296
    simp only [le32]
    omega
  simp only [bytes32,hw,le32,List.cons.injEq,and_true,← UInt8.toNat_inj,UInt8.toNat_ofNat']
  omega

/-- Any 20 bytes are the encoding of some header. -/
lemma exists_holdsHeader (mem : ℤ → UInt8) (a : ℤ) : ∃ h, HoldsHeader mem a h := by
  refine ⟨⟨mem a,mem (a+1),word16 mem (a+2),word16 mem (a+4),word16 mem (a+6),mem (a+8),mem (a+9),
    word16 mem (a+10),word32 mem (a+12),word32 mem (a+16)⟩,?_⟩
  simp [HoldsHeader,IpHeader.encode,bytes16_word16,bytes32_word32,readBytes,List.range_succ,add_assoc]

lemma HoldsHeader.getElem? (hh : HoldsHeader mem a h) {k : ℕ} (hk : k < 20) :
    h.encode[k]? = some (mem (a+k)) := by
  rw [HoldsHeader] at hh
  rw [← hh,List.getElem?_eq_getElem (by simpa using hk),readBytes_getElem]

lemma HoldsHeader.versionIhl (hh : HoldsHeader mem a h) : mem a = h.versionIhl := by
  have := hh.getElem? (k := 0) (by norm_num)
  simpa using (Option.some.inj this).symm

lemma HoldsHeader.ttl (hh : HoldsHeader mem a h) : mem (a+8) = h.ttl :=
  (Option.some.inj (hh.getElem? (k := 8) (by norm_num))).symm

lemma HoldsHeader.protocol (hh : HoldsHeader mem a h) : mem (a+9) = h.protocol :=
  (Option.some.inj (hh.getElem? (k := 9) (by norm_num))).symm

/-- A store at a byte offset of the header, where `h'` is the header with that field replaced. -/
lemma HoldsHeader.write (hh : HoldsHeader mem a h) (i : ℕ) {bytes : List UInt8} {h' : IpHeader}
    (hi : i+bytes.length ≤ 20)
    (he : h'.encode = h.encode.take i ++ bytes ++ h.encode.drop (i+bytes.length)) :
    HoldsHeader (writeBytes mem (a+i) bytes) a h' := by
  rw [HoldsHeader] at hh ⊢
  rw [readBytes_writeBytes hi,he,hh]

section Set
variable (hh : HoldsHeader mem a h)
include hh

lemma HoldsHeader.setVersionIhl (b : UInt8) :
    HoldsHeader (writeBytes mem a [b]) a { h with versionIhl := b } := by
  have hw : HoldsHeader (writeBytes mem (a+(0 : ℕ)) [b]) a { h with versionIhl := b } :=
    hh.write 0 (by simp) rfl
  simpa using hw

lemma HoldsHeader.setTos (tos : UInt8) :
    HoldsHeader (writeBytes mem (a+1) [tos]) a { h with tos := tos } := hh.write 1 (by simp) rfl

lemma HoldsHeader.setTotLen (totLen : UInt16) :
    HoldsHeader (writeBytes mem (a+2) (bytes16 totLen)) a { h with totLen := totLen } :=
  hh.write 2 (by simp [bytes16]) rfl

lemma HoldsHeader.setId (id : UInt16) :
    HoldsHeader (writeBytes mem (a+4) (bytes16 id)) a { h with id := id } :=
  hh.write 4 (by simp [bytes16]) rfl

lemma HoldsHeader.setFragOff (fragOff : UInt16) :
    HoldsHeader (writeBytes mem (a+6) (bytes16 fragOff)) a { h with fragOff := fragOff } :=
  hh.write 6 (by simp [bytes16]) rfl

lemma HoldsHeader.setTtl (ttl : UInt8) :
    HoldsHeader (writeBytes mem (a+8) [ttl]) a { h with ttl := ttl } := hh.write 8 (by simp) rfl

lemma HoldsHeader.setProtocol (protocol : UInt8) :
    HoldsHeader (writeBytes mem (a+9) [protocol]) a { h with protocol := protocol } :=
  hh.write 9 (by simp) rfl

lemma HoldsHeader.setCheck (check : UInt16) :
    HoldsHeader (writeBytes mem (a+10) (bytes16 check)) a { h with check := check } :=
  hh.write 10 (by simp [bytes16]) rfl

lemma HoldsHeader.setSaddr (saddr : UInt32) :
    HoldsHeader (writeBytes mem (a+12) (bytes32 saddr)) a { h with saddr := saddr } :=
  hh.write 12 (by simp [bytes32]) rfl

lemma HoldsHeader.setDaddr (daddr : UInt32) :
    HoldsHeader (writeBytes mem (a+16) (bytes32 daddr)) a { h with daddr := daddr } :=
  hh.write 16 (by simp [bytes32]) rfl

end Set

/-- The memory after storing the fields of a header one by one. -/
def IpHeader.storeAt (h : IpHeader) (a : ℤ) (mem : ℤ → UInt8) : ℤ → UInt8 :=
  let mem := writeBytes mem a [h.versionIhl]
  let mem := writeBytes mem (a+1) [h.tos]
  let mem := writeBytes mem (a+2) (bytes16 h.totLen)
  let mem := writeBytes mem (a+4) (bytes16 h.id)
  let mem := writeBytes mem (a+6) (bytes16 h.fragOff)
  let mem := writeBytes mem (a+8) [h.ttl]
  let mem := writeBytes mem (a+9) [h.protocol]
  let mem := writeBytes mem (a+10) (bytes16 h.check)
  let mem := writeBytes mem (a+12) (bytes32 h.saddr)
  writeBytes mem (a+16) (bytes32 h.daddr)

theorem holdsHeader_storeAt (h : IpHeader) (a : ℤ) (mem : ℤ → UInt8) :
    HoldsHeader (h.storeAt a mem) a h := by
  obtain ⟨g,hg⟩ := exists_holdsHeader mem a
  have h1 := ((hg.setVersionIhl h.versionIhl).setTos h.tos).setTotLen h.totLen
  have h2 := ((h1.setId h.id).setFragOff h.fragOff).setTtl h.ttl
  exact (((h2.setProtocol h.protocol).setCheck h.check).setSaddr h.saddr).setDaddr h.daddr

end Fields
end Linuxab.Net
