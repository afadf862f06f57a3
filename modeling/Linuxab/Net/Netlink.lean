import Mathlib.Order.Interval.Set.Basic
import Linuxab.Base.Integers
import Linuxab.Net.Checksum

/-! The message walk of af_netlink.h, in the arithmetic of the macros: `nlmsg_len` is an unsigned and
`len` a signed 32-bit word, and what is subtracted from `len` may be more than it. -/
namespace Linuxab.Net
open Linuxab.Base

/-- `NLMSG_ALIGN` -/
def nlmsgAlign (len : UInt32) : UInt32 := (len+4-1) &&& ~~~3

/-- The variables of the loop: the offset of `nlh` in the buffer, and `len`. -/
structure NlCursor where
  nlh : ℕ
  len : Int32

/-- `(nlh)->nlmsg_len`; `none` is a read outside of the buffer. -/
def nlmsgLen (buf : List UInt8) (nlh : ℕ) : Option UInt32 :=
  match (buf.drop nlh).take 4 with
  | [a,b,c,d] => some (UInt32.ofNat (le32 a b c d))
  | _ => none

/-- `NLMSG_OK`, from the left to the right. The header has 16 bytes, and `len` is converted to an unsigned
word for the last comparison. -/
def nlmsgOk (buf : List UInt8) (w : NlCursor) : Option Bool :=
  if w.len < 16 then some false
  else do
    let size ← nlmsgLen buf w.nlh
    if size.toUInt64 < 16 then return false
    let size ← nlmsgLen buf w.nlh
    return decide (size ≤ w.len.toUInt32)

/-- `NLMSG_NEXT` -/
def nlmsgNext (buf : List UInt8) (w : NlCursor) : Option NlCursor := do
  let size ← nlmsgLen buf w.nlh
  let len := (w.len.toUInt32-nlmsgAlign size).toInt32
  let size ← nlmsgLen buf w.nlh
  return ⟨w.nlh+(nlmsgAlign size).toNat,len⟩

/-- The loop for at most so many rounds: the variables at each message it accepts, and those where it is
left. -/
def nlmsgWalk (buf : List UInt8) : ℕ → NlCursor → Option (List NlCursor × NlCursor)
  | 0,_ => none
  | rounds+1,w => do
    if ← nlmsgOk buf w then
      let (accepted,last) ← nlmsgWalk buf rounds (← nlmsgNext buf w)
      return (w::accepted,last)
    else return ([],w)

/-- `nlh = buffer, len = n` -/
def NlCursor.start (buf : List UInt8) : NlCursor := ⟨0,Int32.ofNat buf.length⟩

section Step
variable {buf : List UInt8} {w : NlCursor}

lemma toNat_nlmsgAlign {len : UInt32} (h : len.toNat < 2^31) : (nlmsgAlign len).toNat = (len.toNat+3)/4*4 := by
  have hmask : (~~~(3 : UInt32)).toNat = (2^30-1) <<< 2 := rfl
  have hsum : (len+4-1).toNat = len.toNat+3 := by
    have hfour : (4 : UInt32).toNat = 4 := rfl
    have hone : (1 : UInt32).toNat = 1 := rfl
    rw [UInt32.toNat_sub,UInt32.toNat_add,hfour,hone]
    omega
  rw [nlmsgAlign,UInt32.toNat_and,hmask,hsum]
  exact and_high_bits (by omega)

/-- A header inside the buffer can be read. -/
lemma exists_nlmsgLen (h : w.nlh+4 ≤ buf.length) : ∃ size, nlmsgLen buf w.nlh = some size := by
  have hlen : ((buf.drop w.nlh).take 4).length = 4 := by
    rw [List.length_take,List.length_drop]
    omega
  unfold nlmsgLen
  match (buf.drop w.nlh).take 4,hlen with
  | [a,b,c,d],_ => exact ⟨_,rfl⟩

/-- The cursor is at a multiple of four, and `len` is what is left of the buffer from there. -/
structure NlCursor.On (buf : List UInt8) (w : NlCursor) : Prop where
  aligned : w.nlh % 4 = 0
  len : w.len.toInt = buf.length-w.nlh

/-- The message lies inside the buffer with its whole header. -/
structure NlCursor.Accepted (buf : List UInt8) (w : NlCursor) (size : UInt32) : Prop where
  read : nlmsgLen buf w.nlh = some size
  header : 16 ≤ size.toNat
  inside : w.nlh+size.toNat ≤ buf.length

lemma toNat_toUInt32 {len : Int32} (h : 0 ≤ len.toInt) : (len.toUInt32.toNat : ℤ) = len.toInt := by
  have hint : len.toInt = _ := toInt_toInt32 len.toUInt32
  have hlt := len.toUInt32.toNat_lt
  split at hint <;> omega

/-- No read of `NLMSG_OK` is outside of the buffer, and a message is accepted exactly if it is inside. -/
lemma NlCursor.On.ok (h : w.On buf) : nlmsgOk buf w = some false ∨
    nlmsgOk buf w = some true ∧ ∃ size, w.Accepted buf size := by
  unfold nlmsgOk
  split_ifs with hshort
  · exact .inl rfl
  · rw [Int32.lt_iff_toInt_lt] at hshort
    have hroom : 16 ≤ w.len.toInt := Int.not_lt.mp hshort
    have hlen := h.len
    obtain ⟨size,hsize⟩ : ∃ size, nlmsgLen buf w.nlh = some size := exists_nlmsgLen (by omega)
    simp only [hsize,Option.bind_eq_bind,Option.bind_some]
    split_ifs with hsmall
    · exact .inl rfl
    · by_cases hfit : size ≤ w.len.toUInt32
      · refine .inr ⟨by simp [hfit],size,hsize,?_,?_⟩
        · rw [UInt64.lt_iff_toNat_lt,UInt32.toNat_toUInt64] at hsmall
          exact Nat.not_lt.mp hsmall
        · rw [UInt32.le_iff_toNat_le] at hfit
          have hunsigned : (w.len.toUInt32.toNat : ℤ) = w.len.toInt := toNat_toUInt32 (by omega)
          omega
      · exact .inl (by simp [hfit])

/-- The step goes beyond the message and at most three bytes beyond the buffer; `len` follows it, below
zero if need be. -/
lemma NlCursor.On.next (h : w.On buf) (hbuf : buf.length < 2^31) {size : UInt32} (ha : w.Accepted buf size) :
    ∃ w', nlmsgNext buf w = some w' ∧ w'.On buf ∧ w.nlh+size.toNat ≤ w'.nlh := by
  have hin := ha.inside
  have halign : (nlmsgAlign size).toNat = (size.toNat+3)/4*4 := toNat_nlmsgAlign (by omega)
  have hlen := h.len
  have hunsigned : (w.len.toUInt32.toNat : ℤ) = w.len.toInt := toNat_toUInt32 (by omega)
  refine ⟨⟨w.nlh+(nlmsgAlign size).toNat,(w.len.toUInt32-nlmsgAlign size).toInt32⟩,?_,⟨?_,?_⟩,?_⟩
  · simp only [nlmsgNext,ha.read,Option.bind_eq_bind,Option.bind_some]
    rfl
  · have := h.aligned
    change (w.nlh+(nlmsgAlign size).toNat) % 4 = 0
    omega
  · change (w.len.toUInt32-nlmsgAlign size).toInt32.toInt = buf.length-(w.nlh+(nlmsgAlign size).toNat : ℕ)
    rw [toInt_toInt32,UInt32.toNat_sub]
    split <;> omega
  · change w.nlh+size.toNat ≤ w.nlh+(nlmsgAlign size).toNat
    omega

end Step

/-- The message under the cursor, `[nlh, nlh + nlmsg_len)`. -/
def NlCursor.extent (buf : List UInt8) (w : NlCursor) : Set ℕ :=
  Set.Ico w.nlh (w.nlh+((nlmsgLen buf w.nlh).map UInt32.toNat).getD 0)

/-- The headers that are read and the accepted messages are inside the buffer, the messages are apart
from each other and aligned, and `len` is what is left of the buffer at every one of them and at the end. -/
structure NlSafe (buf : List UInt8) (accepted : List NlCursor) (last : NlCursor) : Prop where
  header : ∀ w ∈ accepted ++ [last], 16 ≤ w.len → w.nlh+16 ≤ buf.length
  inside : ∀ w ∈ accepted, ∀ i ∈ w.extent buf, i < buf.length
  disjoint : accepted.Pairwise fun v w => ∀ i ∈ v.extent buf, i ∉ w.extent buf
  aligned : ∀ w ∈ accepted, w.nlh % 4 = 0
  len : ∀ w ∈ accepted ++ [last], w.len.toInt = buf.length-w.nlh

section Run
variable {buf : List UInt8} {w : NlCursor}

lemma NlCursor.Accepted.mem_extent {size : UInt32} (h : w.Accepted buf size) {i : ℕ} :
    i ∈ w.extent buf ↔ w.nlh ≤ i ∧ i < w.nlh+size.toNat := by
  rw [extent,h.read,Option.map_some,Option.getD_some,Set.mem_Ico]

lemma NlCursor.On.header (h : w.On buf) (hlen : 16 ≤ w.len) : w.nlh+16 ≤ buf.length := by
  have hroom : 16 ≤ w.len.toInt := Int32.le_iff_toInt_le.mp hlen
  have := h.len
  omega

/-- The walk from any place: every message lies behind the place. -/
lemma exists_nlmsgWalk (hbuf : buf.length < 2^31) (h : w.On buf) : ∃ accepted last,
    (∀ rounds, (buf.length-w.nlh)/16 < rounds → nlmsgWalk buf rounds w = some (accepted,last)) ∧
      NlSafe buf accepted last ∧ ∀ v ∈ accepted, w.nlh ≤ v.nlh := by
  induction hn : buf.length-w.nlh using Nat.strong_induction_on generalizing w with
  | _ n ih =>
    rcases h.ok with hok | ⟨hok,size,ha⟩
    · refine ⟨[],w,fun rounds hr => ?_,⟨?_,nofun,.nil,nofun,?_⟩,nofun⟩
      · obtain ⟨k,rfl⟩ : ∃ k, rounds = k+1 := ⟨rounds-1,by omega⟩
        simp [nlmsgWalk,hok]
      · simpa using h.header
      · simpa using h.len
    · obtain ⟨w',hnext,h',hbeyond⟩ := h.next hbuf ha
      have hin := ha.inside
      have hheader := ha.header
      obtain ⟨accepted,last,hrun,hsafe,hbehind⟩ := ih (buf.length-w'.nlh) (by omega) h' rfl
      refine ⟨w::accepted,last,fun rounds hr => ?_,⟨?_,?_,?_,?_,?_⟩,?_⟩
      · obtain ⟨k,rfl⟩ : ∃ k, rounds = k+1 := ⟨rounds-1,by omega⟩
        simp [nlmsgWalk,hok,hnext,hrun k (by omega)]
      · exact List.forall_mem_cons.mpr ⟨h.header,hsafe.header⟩
      · refine List.forall_mem_cons.mpr ⟨fun i hi => ?_,hsafe.inside⟩
        rw [ha.mem_extent] at hi
        omega
      · refine List.pairwise_cons.mpr ⟨fun v hv i hi hi' => ?_,hsafe.disjoint⟩
        rw [ha.mem_extent] at hi
        have hle := (Set.mem_Ico.mp hi').1
        have := hbehind v hv
        omega
      · exact List.forall_mem_cons.mpr ⟨h.aligned,hsafe.aligned⟩
      · exact List.forall_mem_cons.mpr ⟨h.len,hsafe.len⟩
      · refine List.forall_mem_cons.mpr ⟨le_rfl,fun v hv => ?_⟩
        have := hbehind v hv
        omega

/-- The walk over any buffer comes to an end without a read outside of it. -/
theorem nlmsgWalk_safe (buf : List UInt8) (hbuf : buf.length < 2^31) : ∃ accepted last,
    (∀ rounds, buf.length/16 < rounds → nlmsgWalk buf rounds (.start buf) = some (accepted,last)) ∧
      NlSafe buf accepted last := by
  have hstart : (NlCursor.start buf).On buf := by
    refine ⟨rfl,?_⟩
    change (Int32.ofNat buf.length).toInt = buf.length-(0 : ℕ)
    rw [Int32.toInt_ofNat_of_lt hbuf]
    omega
  obtain ⟨accepted,last,hrun,hsafe,-⟩ := exists_nlmsgWalk hbuf hstart
  exact ⟨accepted,last,hrun,hsafe⟩

/-- Two messages, the second one with three bytes of padding that the buffer does not have any more. -/
def twoMessages : List UInt8 := [16,0,0,0] ++ List.replicate 12 0 ++ [17,0,0,0] ++ List.replicate 13 0

theorem nlmsgWalk_safe_twoMessages : twoMessages.length < 2^31 ∧ ∃ accepted last,
    (∀ rounds, twoMessages.length/16 < rounds →
      nlmsgWalk twoMessages rounds (.start twoMessages) = some (accepted,last)) ∧ NlSafe twoMessages accepted last :=
  ⟨by decide,nlmsgWalk_safe twoMessages (by decide)⟩

end Run
end Linuxab.Net
