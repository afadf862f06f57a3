import Linuxab.Net.Stack

/-! A checksum in the buffer it was computed over: `ip_compute_csum` of a buffer whose checksum field was
zero is stored into the field in host byte order, and the sum over the whole is then zero. -/
namespace Linuxab.Net
open Linuxab.Base

/-- The buffer with the 16-bit field at the offset replaced. -/
def setField (buff : List UInt8) (k : ℕ) (x : UInt16) : List UInt8 :=
  buff.take k ++ bytes16 x ++ buff.drop (k+2)

lemma le16_bytes16 (x : UInt16) : le16 (UInt8.ofNat x.toNat) (UInt8.ofNat (x.toNat / 256)) = x.toNat := by
  have := x.toNat_lt
  simp only [le16,UInt8.toNat_ofNat']
  omega

/-- Words do not cross an even offset. -/
lemma words16_append {xs : List UInt8} (h : xs.length % 2 = 0) (ys : List UInt8) :
    words16 (xs ++ ys) = words16 xs ++ words16 ys := by
  induction xs using words16.induct with
  | case1 a b xs ih =>
    rw [List.length_cons,List.length_cons] at h
    rw [List.cons_append,List.cons_append,words16,words16,ih (by omega),List.cons_append]
  | case2 a => simp at h
  | case3 => rfl

/-- A field of the buffer adds its value to the sum. -/
lemma words16_sum_field {xs : List UInt8} (h : xs.length % 2 = 0) (x : UInt16) (ys : List UInt8) :
    (words16 (xs ++ bytes16 x ++ ys)).sum = (words16 xs).sum+x.toNat+(words16 ys).sum := by
  have hfield : words16 (bytes16 x ++ ys) = x.toNat::words16 ys := by
    rw [bytes16,List.cons_append,List.cons_append,List.nil_append,words16,le16_bytes16]
  rw [List.append_assoc,words16_append h,hfield,List.sum_append,List.sum_cons]
  omega

/-- The check value of a sum and the sum itself add up to a multiple of 65535 that is not zero. -/
lemma csumFold_add_self {sum : ℕ} : csumFold (sum+(csumFold sum).toNat) = 0 := by
  have hlt := endAround_lt (r := 65536) (by norm_num) sum
  have hmod := endAround_modEq (r := 65536) (by norm_num) sum
  have hpos : 0 < sum+(csumFold sum).toNat := by
    rcases Nat.eq_zero_or_pos sum with rfl | hs
    · rw [csumFold_toNat,endAround]
      decide
    · omega
  rw [csumFold_eq_zero_iff hpos,csumFold_toNat]
  simp only [Nat.ModEq,Nat.reduceSub] at hmod
  apply Nat.dvd_of_mod_eq_zero
  omega

/-- The checksum of a buffer with a zero field, stored in the field. -/
theorem ipComputeCsum_field (xs ys : List UInt8) (heven : xs.length % 2 = 0)
    (hlen : xs.length+2+ys.length ≤ 65535) :
    ipComputeCsum (xs ++ bytes16 (ipComputeCsum (xs ++ bytes16 0 ++ ys)) ++ ys) = 0 := by
  have hxs := words16_sum_le xs
  have hys := words16_sum_le ys
  set sum := (words16 xs).sum+(words16 ys).sum with hsum
  have hzero : (words16 (xs ++ bytes16 0 ++ ys)).sum = sum := by
    rw [words16_sum_field heven,hsum]
    change _+0+_ = _
    omega
  have hcsum : ipComputeCsum (xs ++ bytes16 0 ++ ys) = csumFold sum := by
    rw [ipComputeCsum,sum32_eq,hzero,Nat.mod_eq_of_lt (by omega)]
  have hlt := (csumFold sum).toNat_lt
  have hstored : (words16 (xs ++ bytes16 (csumFold sum) ++ ys)).sum = sum+(csumFold sum).toNat := by
    rw [words16_sum_field heven,hsum]
    omega
  rw [hcsum,ipComputeCsum,sum32_eq,hstored,Nat.mod_eq_of_lt (by omega)]
  exact csumFold_add_self

/-- Storing the checksum in its field makes the checksum of the buffer zero. -/
theorem ipComputeCsum_setField (buff : List UInt8) (k : ℕ) (hlen : buff.length ≤ 65535) (heven : k % 2 = 0)
    (hk : k+2 ≤ buff.length) (hzero : (buff.drop k).take 2 = bytes16 0) :
    ipComputeCsum (setField buff k (ipComputeCsum buff)) = 0 := by
  have hsplit : buff = buff.take k ++ bytes16 0 ++ buff.drop (k+2) := by
    rw [← hzero,List.append_assoc,← List.drop_drop,List.take_append_drop,List.take_append_drop]
  have htake : (buff.take k).length = k := by rw [List.length_take,Nat.min_eq_left (by omega)]
  have hfield := ipComputeCsum_field (buff.take k) (buff.drop (k+2)) (by omega)
    (by rw [htake,List.length_drop]; omega)
  rwa [← hsplit] at hfield

theorem ipComputeCsum_setField_odd :
    ipComputeCsum (setField [8,0,0,0,1] 2 (ipComputeCsum [8,0,0,0,1])) = 0 :=
  ipComputeCsum_setField [8,0,0,0,1] 2 (by decide) (by decide) (by decide) rfl

end Linuxab.Net
