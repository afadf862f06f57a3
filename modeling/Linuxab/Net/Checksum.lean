import Mathlib.Tactic.Ring
import Mathlib.Tactic.NormNum
import Linuxab.Base.EndAround

/-! The two checksum routines of `net/af_inet.c` on little-endian byte strings. Both end with
the same folding loop; `ip_fast_csum` adds 32-bit words in a 32-bit accumulator, and
`ip_compute_csum` adds 16-bit words. -/
namespace Linuxab.Net
open Linuxab.Base

def le16 (a b : UInt8) : ℕ := a.toNat+256*b.toNat
def le32 (a b c d : UInt8) : ℕ := a.toNat+256*b.toNat+65536*c.toNat+16777216*d.toNat

lemma le16_lt (a b : UInt8) : le16 a b < 65536 := by
  have ha := a.toNat_lt
  have hb := b.toNat_lt
  simp only [le16]
  omega

/-- The `uint32_t` words of a buffer whose length is a multiple of four. -/
def words32 : List UInt8 → List ℕ
  | a::b::c::d::bs => le32 a b c d::words32 bs
  | _ => []

/-- The `uint16_t` words of a buffer; an odd last byte counts as one more word. -/
def words16 : List UInt8 → List ℕ
  | a::b::bs => le16 a b::words16 bs
  | [a] => [a.toNat]
  | [] => []

/-- The accumulator `uint32_t sum`. -/
def sum32 (ws : List ℕ) : ℕ := ws.foldl (fun sum w => (sum+w) % 2^32) 0

/-- `while (sum >> 16) sum = (sum & 0xFFFF) + (sum >> 16); return ~sum;` -/
def csumFold (sum : ℕ) : UInt16 := ~~~(UInt16.ofNat (endAround 65536 sum))

/-- `iph` holds `4*ihl` bytes. -/
def ipFastCsum (iph : List UInt8) : UInt16 := csumFold (sum32 (words32 iph))

def ipComputeCsum (buff : List UInt8) : UInt16 := csumFold (sum32 (words16 buff))

lemma foldl_add_mod (ws : List ℕ) (s : ℕ) (hs : s < 2^32) :
    ws.foldl (fun sum w => (sum+w) % 2^32) s = (s+ws.sum) % 2^32 := by
  induction ws generalizing s with
  | nil => rw [List.foldl_nil,List.sum_nil,Nat.add_zero,Nat.mod_eq_of_lt hs]
  | cons w ws ih =>
    rw [List.foldl_cons,ih _ (Nat.mod_lt _ (by norm_num)),List.sum_cons,Nat.mod_add_mod,
      Nat.add_assoc]

theorem sum32_eq (ws : List ℕ) : sum32 ws = ws.sum % 2^32 := by
  rw [sum32,foldl_add_mod ws 0 (by norm_num),Nat.zero_add]

@[simp] theorem csumFold_toNat (sum : ℕ) : (csumFold sum).toNat = 65535-endAround 65536 sum := by
  have h := endAround_lt (r := 65536) (by norm_num) sum
  rw [csumFold,UInt16.toNat_not,UInt16.toNat_ofNat_of_lt' (by simpa using h)]
  rfl

/-- The check value is zero exactly on positive multiples of 65535. -/
theorem csumFold_eq_zero_iff {sum : ℕ} (hs : 0 < sum) : csumFold sum = 0 ↔ 65535 ∣ sum := by
  have hlt := endAround_lt (r := 65536) (by norm_num) sum
  have htop := endAround_eq_top_iff (r := 65536) (by norm_num) hs
  rw [← UInt16.toNat_inj,csumFold_toNat]
  change 65535-endAround 65536 sum = 0 ↔ _
  rw [← htop]
  omega

/-- Splitting every 32-bit word in two keeps the sum modulo 65535. -/
theorem words16_sum_modEq (bs : List UInt8) (h : 4 ∣ bs.length) :
    (words16 bs).sum ≡ (words32 bs).sum [MOD 65535] := by
  induction bs using words32.induct with
  | case1 a b c d bs ih =>
    have hl : 4 ∣ bs.length := by
      simp only [List.length_cons] at h
      omega
    simp only [words16,words32,List.sum_cons]
    rw [← Nat.add_assoc]
    refine Nat.ModEq.add ?_ (ih hl)
    simp only [le16,le32,Nat.ModEq]
    omega
  | case2 bs hbs =>
    match bs with
    | [] => rfl
    | [_] => simp at h
    | [_,_] => simp at h
    | [_,_,_] => simp at h
    | a::b::c::d::bs => exact absurd rfl (hbs a b c d bs)

lemma words16_sum_le (bs : List UInt8) : (words16 bs).sum ≤ 65535*bs.length := by
  induction bs using words16.induct with
  | case1 a b bs ih =>
    have := le16_lt a b
    simp only [words16,List.sum_cons,List.length_cons]
    omega
  | case2 a =>
    have := a.toNat_lt
    simp only [words16,List.sum_cons,List.sum_nil,List.length_cons,List.length_nil]
    omega
  | case3 => simp [words16]

lemma words32_sum_le (bs : List UInt8) : (words32 bs).sum ≤ 2^32*bs.length := by
  induction bs using words32.induct with
  | case1 a b c d bs ih =>
    have ha := a.toNat_lt
    have hb := b.toNat_lt
    have hc := c.toNat_lt
    have hd := d.toNat_lt
    simp only [words32,le32,List.sum_cons,List.length_cons]
    omega
  | case2 bs hbs =>
    match bs with
    | [] | [_] | [_,_] | [_,_,_] => simp [words32]
    | a::b::c::d::bs => exact absurd rfl (hbs a b c d bs)

/-- Storing the fast checksum in a cleared 16-bit field makes the verifying sum vanish exactly
when the 32-bit sum of the cleared buffer does not carry out of bit 31. `total` is the plain sum
of the 32-bit words and `other` that of the 16-bit words, the cleared field included. -/
theorem verify_fast_iff {total other : ℕ} (hpos : 0 < other) (hother : other+65535 < 2^32)
    (htotal : total < 65535*2^32) (hmod : other ≡ total [MOD 65535]) :
    csumFold (sum32 [other,(csumFold (total % 2^32)).toNat]) = 0 ↔ total < 2^32 := by
  have hlt := endAround_lt (r := 65536) (by norm_num) (total % 2^32)
  have hm := endAround_modEq (r := 65536) (by norm_num) (total % 2^32)
  simp only [Nat.ModEq,Nat.reduceSub] at hm hmod
  rw [csumFold_toNat,sum32_eq]
  set f := endAround 65536 (total % 2^32) with hf
  have hsum : [other,65535-f].sum = other+(65535-f) := by simp
  rw [hsum,Nat.mod_eq_of_lt (by omega),csumFold_eq_zero_iff (by omega)]
  have hdiv := Nat.mod_add_div total (2^32)
  set q := total / 2^32 with hq
  have hqlt : q < 65535 := by
    rw [hq]
    exact Nat.div_lt_of_lt_mul (by omega)
  constructor
  · intro hd
    have h1 : (other+(65535-f)) % 65535 = 0 := Nat.mod_eq_zero_of_dvd hd
    omega
  · intro ht
    have h1 : total % 2^32 = total := Nat.mod_eq_of_lt ht
    rw [h1] at hm
    apply Nat.dvd_of_mod_eq_zero
    omega

end Linuxab.Net
