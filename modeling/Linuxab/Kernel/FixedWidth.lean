import Mathlib.Algebra.Group.Nat.Defs
import Mathlib.Data.Nat.Bitwise
import Mathlib.Tactic.SplitIfs

/-! The fixed-width formatting of the fmt module in rust/xarray.rs. The three functions fill a buffer of
zeros from its end; the decimal one stops one place too early. -/
namespace Linuxab.Kernel

/-- `HEX_DIGITS`: the bytes of "0123456789ABCDEF". -/
def hexDigits : Vector UInt8 16 := #v[48,49,50,51,52,53,54,55,56,57,65,66,67,68,69,70]

def formatHex (value : UInt64) : Vector UInt8 16 :=
  (List.range 16).foldl (fun result i =>
    result.setIfInBounds (15-i) (hexDigits.getD (value >>> UInt64.ofNat (i*4) &&& 0xF).toNat 0))
    (Vector.replicate 16 48)

/-- The loop of `format_dec`, with the place `i` it writes next. -/
def putDecimal : ℕ → UInt64 → Vector UInt8 20 → Vector UInt8 20
  | 0, _, result => result
  | i+1, n, result =>
    if n > 0 then putDecimal i (n/10) (result.setIfInBounds (i+1) (48+(n%10).toUInt8)) else result

def formatDec (value : UInt64) : Vector UInt8 20 := putDecimal 19 value (Vector.replicate 20 48)

def formatBin (value : UInt64) : Vector UInt8 64 :=
  (List.range 64).foldl (fun result i =>
    if value >>> UInt64.ofNat i &&& 1 ≠ 0 then result.setIfInBounds (63-i) 49 else result) (Vector.replicate 64 48)

/-! ## Numerals -/

/-- The digits up to sixteen, the letters as capitals. -/
def digitValue (c : UInt8) : Option ℕ :=
  if 48 ≤ c ∧ c ≤ 57 then some (c.toNat-48) else if 65 ≤ c ∧ c ≤ 70 then some (c.toNat-55) else none

/-- The number a text stands for in base `b`, if all of its bytes are digits of that base. -/
def readNumeral (b : ℕ) (text : List UInt8) : Option ℕ :=
  text.foldlM (fun r c => ((digitValue c).filter (· < b)).map (r*b + ·)) 0

section Numeral
variable {b w : ℕ} {digit : ℕ → UInt8}

theorem foldlM_digits (hdigit : ∀ d < b, digitValue (digit d) = some d) (hb : 0 < b) (n w r : ℕ) :
    ((List.range w).reverse.map fun i => digit (n/b^i%b)).foldlM
      (fun r c => ((digitValue c).filter (· < b)).map (r*b + ·)) r = some (r*b^w+n%b^w) := by
  induction w generalizing r with
  | zero => simp [Nat.mod_one]
  | succ w ih =>
    have hlt : n/b^w%b < b := Nat.mod_lt _ hb
    have hstep : ((digitValue (digit (n/b^w%b))).filter (· < b)).map (r*b + ·) = some (r*b+n/b^w%b) := by
      rw [hdigit _ hlt]
      simp [hlt]
    rw [List.range_succ,List.reverse_append,List.reverse_singleton,List.singleton_append,List.map_cons,
      List.foldlM_cons,hstep,Option.bind_eq_bind,Option.bind_some,ih,Nat.mod_pow_succ,Nat.pow_succ]
    congr 1
    rw [Nat.add_mul,Nat.mul_assoc,Nat.mul_comm b (b^w),Nat.mul_comm (n/b^w%b)]
    omega

/-- A buffer with the digit of `b^i` at the place `i` from its end stands for the number modulo `b^w`. -/
theorem readNumeral_of_digits (hdigit : ∀ d < b, digitValue (digit d) = some d) (hb : 0 < b) (n : ℕ)
    {buf : Vector UInt8 w} (hbuf : ∀ i < w, buf[w-1-i]? = some (digit (n/b^i%b))) :
    readNumeral b buf.toList = some (n%b^w) := by
  have hlist : buf.toList = (List.range w).reverse.map fun i => digit (n/b^i%b) := by
    apply List.ext_getElem?
    intro j
    rcases Nat.lt_or_ge j w with hj | hj
    · have hplace := hbuf (w-1-j) (by omega)
      rw [show w-1-(w-1-j) = j by omega] at hplace
      rw [Vector.getElem?_toList,hplace,List.getElem?_map,List.getElem?_reverse (by simpa using hj)]
      simp [show w-1-j < w by omega]
    · rw [List.getElem?_eq_none (by simpa using hj),List.getElem?_eq_none (by simpa using hj)]
  rw [readNumeral,hlist,foldlM_digits hdigit hb,Nat.zero_mul,Nat.zero_add]

theorem digitValue_hexDigits : ∀ d < 16, digitValue (hexDigits.getD d 0) = some d := by decide

theorem digitValue_decimal : ∀ d < 10, digitValue (48+UInt8.ofNat d) = some d := by decide

theorem digitValue_binary : ∀ d < 2, digitValue (if d = 1 then 49 else 48) = some d := by decide

end Numeral

/-! ## The loops -/

section Fill
variable {w : ℕ} {p : ℕ → Prop} [DecidablePred p] {g : ℕ → UInt8} {buf : Vector UInt8 w}

/-- One round of such a loop. -/
theorem getElem?_put {k i : ℕ} (hk : k < w) (hi : i < w) :
    (if p k then buf.setIfInBounds (w-1-k) (g k) else buf)[w-1-i]? =
      if i = k ∧ p k then some (g k) else buf[w-1-i]? := by
  by_cases hp : p k
  · obtain rfl | hne := eq_or_ne i k
    · rw [if_pos hp,if_pos ⟨rfl,hp⟩,Vector.getElem?_setIfInBounds_self_of_lt (by omega)]
    · rw [if_pos hp,if_neg (fun h => hne h.1),Vector.getElem?_setIfInBounds_ne (by omega)]
  · rw [if_neg hp,if_neg fun h => hp h.2]

/-- A loop that writes at most the place `i` from the end in round `i`. -/
theorem getElem?_fill {k i : ℕ} (hk : k ≤ w) (hi : i < w) :
    ((List.range k).foldl (fun result i => if p i then result.setIfInBounds (w-1-i) (g i) else result) buf)[w-1-i]? =
      if i < k ∧ p i then some (g i) else buf[w-1-i]? := by
  induction k with
  | zero => simp
  | succ k ih =>
    rw [List.range_succ,List.foldl_append,List.foldl_cons,List.foldl_nil,getElem?_put hk hi,ih (Nat.le_of_succ_le hk)]
    obtain rfl | hne := eq_or_ne i k
    · simp
    · have hlt : i < k+1 ↔ i < k := by omega
      simp [hne,hlt]

end Fill

section Places
variable (v : UInt64) {i : ℕ}

theorem formatHex_place (hi : i < 16) : (formatHex v)[15-i]? = some (hexDigits.getD (v.toNat/16^i%16) 0) := by
  have hfill := @getElem?_fill 16 (fun _ => True) _
    (fun i => hexDigits.getD (v >>> UInt64.ofNat (i*4) &&& 0xF).toNat 0) (Vector.replicate 16 48) 16 i
    (Nat.le_refl _) hi
  simp only [if_true,and_true,hi] at hfill
  rw [formatHex,hfill]
  have hshift : (UInt64.ofNat (i*4)).toNat%64 = i*4 := by
    rw [UInt64.toNat_ofNat']
    omega
  rw [UInt64.toNat_and,UInt64.toNat_shiftRight,hshift,Nat.shiftRight_eq_div_pow,Nat.mul_comm i,Nat.pow_mul]
  change some (hexDigits.getD (v.toNat/16^i &&& 2^4-1) 0) = _
  rw [Nat.and_two_pow_sub_one_eq_mod]

theorem formatBin_place (hi : i < 64) : (formatBin v)[63-i]? = some (if v.toNat/2^i%2 = 1 then 49 else 48) := by
  have hfill := @getElem?_fill 64 (fun i => v >>> UInt64.ofNat i &&& 1 ≠ 0) _ (fun _ => 49) (Vector.replicate 64 48)
    64 i (Nat.le_refl _) hi
  have hbit : v >>> UInt64.ofNat i &&& 1 ≠ 0 ↔ v.toNat/2^i%2 = 1 := by
    have hshift : (UInt64.ofNat i).toNat%64 = i := by
      rw [UInt64.toNat_ofNat']
      omega
    rw [Ne,← UInt64.toNat_inj,UInt64.toNat_and,UInt64.toNat_shiftRight,hshift,Nat.shiftRight_eq_div_pow]
    change ¬ v.toNat/2^i &&& 1 = 0 ↔ _
    rw [Nat.and_one_is_mod]
    omega
  rw [formatBin,hfill]
  simp only [hbit,hi,true_and,Vector.getElem?_replicate,show 64-1-i < 64 by omega,if_true]
  split_ifs <;> rfl

end Places

/-- The loop fills the places from `i` down to one; the place zero it never writes. -/
theorem putDecimal_place {i j : ℕ} (hi : i < 20) (n : UInt64) {result : Vector UInt8 20}
    (hzero : ∀ j ≤ i, result[j]? = some 48) :
    (putDecimal i n result)[j]? =
      if j ≤ i then some (if j = 0 then 48 else 48+UInt8.ofNat (n.toNat/10^(i-j)%10)) else result[j]? := by
  induction i generalizing n result with
  | zero =>
    rw [putDecimal]
    split_ifs with h h0
    · exact hzero j h
    · omega
    · rfl
  | succ i ih =>
    rw [putDecimal]
    by_cases hn : n > 0
    · have hdigit : (n%10).toUInt8 = UInt8.ofNat (n.toNat%10) := by
        rw [← UInt8.toNat_inj,UInt64.toNat_toUInt8,UInt64.toNat_mod,UInt8.toNat_ofNat']
        rfl
      have hzero' : ∀ j ≤ i, (result.setIfInBounds (i+1) (48+(n%10).toUInt8))[j]? = some 48 := by
        intro j hj
        rw [Vector.getElem?_setIfInBounds_ne (by omega)]
        exact hzero j (by omega)
      rw [if_pos hn,ih (by omega) _ hzero',UInt64.toNat_div]
      obtain rfl | hne := eq_or_ne j (i+1)
      · rw [if_neg (by omega),Vector.getElem?_setIfInBounds_self_of_lt hi,hdigit]
        simp
      · rw [Vector.getElem?_setIfInBounds_ne (Ne.symm hne)]
        by_cases hj : j ≤ i
        · have hpow : 10^(i+1-j) = 10*10^(i-j) := by rw [Nat.succ_sub hj,Nat.pow_succ']
          rw [if_pos hj,if_pos (Nat.le_succ_of_le hj),hpow,← Nat.div_div_eq_div_mul]
          rfl
        · rw [if_neg hj,if_neg (by omega)]
    · have hn0 : n.toNat = 0 := by
        rw [gt_iff_lt,UInt64.lt_iff_toNat_lt,UInt64.toNat_zero] at hn
        omega
      rw [if_neg hn,hn0]
      split_ifs with h h0
      · exact hzero j h
      · simpa using hzero j h
      · rfl

/-- Without the highest place the buffer holds the digits of the value. -/
theorem formatDec_place (v : UInt64) {i : ℕ} (hi : i < 20) :
    (formatDec v)[19-i]? = some (48+UInt8.ofNat (v.toNat%10^19/10^i%10)) := by
  have hzero : ∀ j ≤ 19, (Vector.replicate 20 (48 : UInt8))[j]? = some 48 := by
    intro j hj
    rw [Vector.getElem?_replicate,if_pos (by omega)]
  rw [formatDec,putDecimal_place (by decide) v hzero,if_pos (Nat.sub_le 19 i),show 19-(19-i) = i by omega]
  obtain rfl | hne := eq_or_ne i 19
  · rw [Nat.div_eq_of_lt (Nat.mod_lt _ (by decide))]
    rfl
  · have hlt : i < 19 := by omega
    have hdigit : v.toNat%10^19/10^i%10 = v.toNat/10^i%10 := by
      have hsplit : 10^19 = 10^i*10^(19-i) := by rw [← Nat.pow_add,Nat.add_sub_cancel' (Nat.le_of_lt hlt)]
      rw [hsplit,Nat.mod_mul_right_div_self,Nat.mod_mod_of_dvd _ (dvd_pow_self 10 (by omega))]
    rw [if_neg (by omega),hdigit]

theorem readNumeral_formatDec (v : UInt64) : readNumeral 10 (formatDec v).toList = some (v.toNat%10^19) := by
  have hread := readNumeral_of_digits digitValue_decimal (by decide) (v.toNat%10^19) fun i hi => formatDec_place v hi
  rw [hread,Nat.mod_eq_of_lt (Nat.lt_trans (Nat.mod_lt _ (by decide)) (by decide))]

/-- The hexadecimal and the binary text stand for the value; the decimal one lacks the twentieth digit and
stands for the value exactly below `10^19`. -/
theorem format_reads_back_iff (v : UInt64) :
    readNumeral 16 (formatHex v).toList = some v.toNat ∧ readNumeral 2 (formatBin v).toList = some v.toNat ∧
    readNumeral 10 (formatDec v).toList = some (v.toNat%10^19) ∧
    (readNumeral 10 (formatDec v).toList = some v.toNat ↔ v.toNat < 10^19) := by
  have hsize : v.toNat < 2^64 := v.toNat_lt
  refine ⟨?_,?_,readNumeral_formatDec v,?_⟩
  · rw [readNumeral_of_digits digitValue_hexDigits (by decide) v.toNat fun i hi => formatHex_place v hi]
    exact congrArg some (Nat.mod_eq_of_lt hsize)
  · rw [readNumeral_of_digits digitValue_binary (by decide) v.toNat fun i hi => formatBin_place v hi]
    exact congrArg some (Nat.mod_eq_of_lt hsize)
  · rw [readNumeral_formatDec,Option.some_inj]
    exact Nat.mod_eq_iff_lt (by decide)

/-- All of the digits that the loop reaches are zero and the leading one is missing. -/
theorem formatDec_ten_pow : formatDec 10000000000000000000 = Vector.replicate 20 48 ∧
    readNumeral 10 (formatDec 10000000000000000000).toList = some 0 := by
  decide +kernel

end Linuxab.Kernel
