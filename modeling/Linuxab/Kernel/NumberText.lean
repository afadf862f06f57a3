import Linuxab.Base.Numeral
import Linuxab.Base.Store
import Linuxab.Base.While
import Mathlib.Data.Int.Notation

/-! The conversions between numbers and texts of types.c, over a memory of bytes. The functions of one kind
differ in the width of the number only. -/
namespace Linuxab.Kernel
open Linuxab.Base

section Print

/-- The variables `buf`, `p` and `uv` of the loop that writes the digits. -/
structure DigitLoop (w : ℕ) where
  mem : ℕ → UInt8
  p : ℕ
  uv : BitVec w

/-- One round; `rem` is less than the base and so a number of one digit. -/
def DigitLoop.put {w : ℕ} (base : BitVec w) (s : DigitLoop w) : DigitLoop w :=
  ⟨Function.update s.mem s.p (digitChar (s.uv % base).toNat),s.p+1,s.uv/base⟩

def putDigits {w : ℕ} (rounds : ℕ) (base : BitVec w) (s : DigitLoop w) : Option (DigitLoop w) :=
  whileLoop (fun s => decide (s.uv > 0)) (DigitLoop.put base) rounds (s.put base)

/-- The variables of the loop that reverses the text. -/
structure ReverseLoop where
  mem : ℕ → UInt8
  p1 : ℕ
  p2 : ℕ

def ReverseLoop.swap (s : ReverseLoop) : ReverseLoop :=
  ⟨Function.update (Function.update s.mem s.p1 (s.mem s.p2)) s.p2 (s.mem s.p1),s.p1+1,s.p2-1⟩

def reverseText (rounds : ℕ) (s : ReverseLoop) : Option ReverseLoop :=
  whileLoop (fun s => decide (s.p1 < s.p2)) ReverseLoop.swap rounds s

/-- From the digits on; the return value is `buf`, with the memory. -/
def printDigits {w : ℕ} (rounds : ℕ) (uv : BitVec w) (sign : Bool) (mem : ℕ → UInt8) (buf : ℕ) (base : ℤ) :
    Option (ℕ × (ℕ → UInt8)) := do
  let s ← putDigits rounds (BitVec.ofInt w base) ⟨mem,buf,uv⟩
  let s := if sign then { s with mem := Function.update s.mem s.p 45, p := s.p+1 } else s
  let r ← reverseText rounds ⟨Function.update s.mem s.p 0,buf,s.p-1⟩
  return (buf,r.mem)

/-- `itoa`, `ltoa` and `lltoa` for a number of `w` bits. -/
def printSigned {w : ℕ} (rounds : ℕ) (val : BitVec w) (mem : ℕ → UInt8) (buf : ℕ) (base : ℤ) :
    Option (ℕ × (ℕ → UInt8)) :=
  if base < 2 ∨ base > 16 then some (buf,Function.update mem buf 0)
  else if val.toInt < 0 ∧ base = 10 then printDigits rounds (-val) true mem buf base
  else printDigits rounds val false mem buf base

def itoa (rounds : ℕ) (val : Int32) (mem : ℕ → UInt8) (buf : ℕ) (base : ℤ) : Option (ℕ × (ℕ → UInt8)) :=
  printSigned rounds val.toBitVec mem buf base

def ltoa (rounds : ℕ) (val : Int64) (mem : ℕ → UInt8) (buf : ℕ) (base : ℤ) : Option (ℕ × (ℕ → UInt8)) :=
  printSigned rounds val.toBitVec mem buf base

def lltoa (rounds : ℕ) (val : Int64) (mem : ℕ → UInt8) (buf : ℕ) (base : ℤ) : Option (ℕ × (ℕ → UInt8)) :=
  printSigned rounds val.toBitVec mem buf base

def utoa (rounds : ℕ) (val : UInt32) (mem : ℕ → UInt8) (buf : ℕ) (base : ℤ) : Option (ℕ × (ℕ → UInt8)) :=
  if base < 2 ∨ base > 16 then some (buf,Function.update mem buf 0)
  else printDigits rounds val.toBitVec false mem buf base

end Print

section Parse
variable (rounds : ℕ) (mem : ℕ → UInt8) (s : ℕ)

/-- The sign and where the digits begin. -/
def readSign {w : ℕ} : BitVec w × ℕ :=
  if mem s = 45 then (-1,s+1) else if mem s = 43 then (1,s+1) else (1,s)

/-- `atoi`, `atol` and `atoll` for a number of `w` bits. -/
def parseSigned (w : ℕ) : Option (BitVec w) := do
  let s ← whileLoop (fun s => decide (mem s = 32 ∨ mem s = 9)) (·+1) rounds s
  let (sign,s) := readSign mem s
  let (_,res) ← whileLoop (fun r : ℕ × BitVec w => decide (48 ≤ mem r.1 ∧ mem r.1 ≤ 57))
    (fun r => (r.1+1,r.2*10+BitVec.ofInt w ((mem r.1).toNat-48))) rounds (s,0)
  return res*sign

def atoi : Option Int32 := (parseSigned rounds mem s 32).map Int32.ofBitVec
def atol : Option Int64 := (parseSigned rounds mem s 64).map Int64.ofBitVec
def atoll : Option Int64 := (parseSigned rounds mem s 64).map Int64.ofBitVec

/-- The digit that a character stands for. -/
def digitOf (c : UInt8) : Option ℤ :=
  if 48 ≤ c ∧ c ≤ 57 then some (c.toNat-48)
  else if 97 ≤ c ∧ c ≤ 122 then some (c.toNat-97+10)
  else if 65 ≤ c ∧ c ≤ 90 then some (c.toNat-65+10)
  else none

/-- With base 0 the text begins with a mark of its base. -/
def readBase (base : ℤ) : ℤ × ℕ :=
  if base = 0 then
    if mem s = 48 ∧ (mem (s+1) = 120 ∨ mem (s+1) = 88) then (16,s+2)
    else if mem s = 48 then (8,s+1)
    else (10,s)
  else (base,s)

/-- `strtoul` and `strtoull`: the number, and where `*endptr` points to. -/
def parseUnsigned (base : ℤ) : Option (BitVec 64 × ℕ) := do
  let (base,s) := readBase mem s base
  let (s,res) ← whileLoop (fun r : ℕ × BitVec 64 => (digitOf (mem r.1)).any fun digit => decide (digit < base))
    (fun r => (r.1+1,r.2*BitVec.ofInt 64 base+BitVec.ofInt 64 ((digitOf (mem r.1)).getD 0))) rounds (s,0)
  return (res,s)

def strtoul (base : ℤ) : Option (UInt64 × ℕ) := (parseUnsigned rounds mem s base).map fun r => (⟨r.1⟩,r.2)
def strtoull (base : ℤ) : Option (UInt64 × ℕ) := (parseUnsigned rounds mem s base).map fun r => (⟨r.1⟩,r.2)

end Parse

section Printing
variable {w b n : ℕ} {base : BitVec w}

lemma toNat_ofInt_base (hw : 5 ≤ w) (hb : b ≤ 16) : (BitVec.ofInt w b).toNat = b := by
  have hpow : 2^5 ≤ 2^w := Nat.pow_le_pow_right (by decide) hw
  rw [BitVec.ofInt_natCast,BitVec.toNat_ofNat,Nat.mod_eq_of_lt (by omega)]

/-- The loop writes the digits with the lowest first. -/
lemma putDigits_eq (hbase : 1 < base.toNat) (mem : ℕ → UInt8) (p : ℕ) (uv : BitVec w) {rounds : ℕ}
    (hr : (digitsOf base.toNat uv.toNat).length ≤ rounds) : putDigits rounds base ⟨mem,p,uv⟩ = some
      ⟨storeList mem p ((digitsOf base.toNat uv.toNat).map digitChar),p+(digitsOf base.toNat uv.toNat).length,0⟩ := by
  induction rounds generalizing mem p uv with
  | zero => exact absurd (List.length_eq_zero_iff.mp (Nat.le_zero.mp hr)) (digitsOf_ne_nil _ _)
  | succ rounds ih =>
    have hdiv : (uv/base).toNat = uv.toNat/base.toNat := BitVec.toNat_udiv
    rw [digitsOf_eq hbase] at hr ⊢
    by_cases hq : uv.toNat/base.toNat = 0
    · have hzero : uv/base = 0 := BitVec.eq_of_toNat_eq (hdiv.trans hq)
      rw [putDigits,whileLoop_of_false (by simp [DigitLoop.put,hzero]),if_pos hq,DigitLoop.put,hzero]
      rfl
    · have hpos : uv/base > 0 := by
        rw [gt_iff_lt,BitVec.lt_def,hdiv]
        exact Nat.pos_of_ne_zero hq
      rw [if_neg hq] at hr ⊢
      rw [putDigits,whileLoop,if_pos (by simpa [DigitLoop.put] using hpos)]
      have hrest := ih (Function.update mem p (digitChar (uv % base).toNat)) (p+1) (uv/base)
        (by rw [hdiv]; exact Nat.le_of_succ_le_succ hr)
      rw [hdiv,BitVec.toNat_umod] at hrest
      refine Eq.trans ?_ (hrest.trans ?_)
      · rw [← BitVec.toNat_umod]
        rfl
      · simp only [List.map_cons,storeList,List.length_cons,Nat.add_assoc,Nat.add_comm 1]

lemma reverseText_of_le {s : ReverseLoop} (h : s.p2 ≤ s.p1) (rounds : ℕ) : reverseText rounds s = some s :=
  whileLoop_of_false (s := s) (decide_eq_false (Nat.not_lt.mpr h)) rounds

/-- The text is reversed in place. -/
lemma exists_reverseText (mem : ℕ → UInt8) (p : ℕ) (l : List UInt8) {rounds : ℕ} (hr : l.length ≤ rounds) :
    ∃ r, reverseText rounds ⟨storeList mem p l,p,p+l.length-1⟩ = some r ∧ r.mem = storeList mem p l.reverse := by
  induction l using List.bidirectionalRec generalizing mem p rounds with
  | nil => exact ⟨_,reverseText_of_le (Nat.sub_le p 1) rounds,rfl⟩
  | singleton a => exact ⟨_,reverseText_of_le (Nat.le_refl p) rounds,rfl⟩
  | cons_append a l b ih =>
    have hlength : (a::(l ++ [b])).length = l.length+2 := by simp
    obtain ⟨k,rfl⟩ : ∃ k, rounds = k+1 := ⟨rounds-1,by omega⟩
    have hlast : p+(a::(l ++ [b])).length-1 = p+1+l.length := by omega
    have hgo : decide (p < p+1+l.length) = true := decide_eq_true (by omega)
    obtain ⟨r,hrun,hmem⟩ := ih (Function.update (Function.update mem p b) (p+1+l.length) a) (p+1)
      (by omega : l.length ≤ k)
    refine ⟨r,?_,?_⟩
    · rw [hlast,reverseText,whileLoop,if_pos hgo,ReverseLoop.swap,swap_storeList_ends,storeList_ends]
      exact hrun
    · rw [hmem,List.reverse_cons,List.reverse_append,List.reverse_singleton,List.singleton_append,List.cons_append,
        storeList_ends,List.length_reverse]

/-- With the NUL behind it. -/
lemma exists_reverseText_nul (mem : ℕ → UInt8) (p : ℕ) (l : List UInt8) {rounds : ℕ} (hr : l.length ≤ rounds) :
    ∃ r, reverseText rounds ⟨Function.update (storeList mem p l) (p+l.length) 0,p,p+l.length-1⟩ = some r ∧
      r.mem = storeList mem p (l.reverse ++ [0]) := by
  rw [← storeList_update (.inr le_rfl)]
  obtain ⟨r,hrun,hmem⟩ := exists_reverseText (Function.update mem (p+l.length) 0) p l hr
  refine ⟨r,hrun,?_⟩
  rw [hmem,storeList_update (.inr (by rw [List.length_reverse])),storeList_append,List.length_reverse,storeList,
    storeList]

lemma length_digits_le (hw : 0 < w) (hb : 2 ≤ b) (uv : BitVec w) : (digitsOf b uv.toNat).length ≤ w :=
  length_digitsOf_le hb hw (Nat.lt_of_lt_of_le uv.isLt (Nat.pow_le_pow_left hb w))

/-- The text of a number with its sign. -/
def signed (sign : Bool) (b n : ℕ) : List UInt8 := (if sign then [45] else []) ++ numeral b n

lemma printDigits_eq (hw : 5 ≤ w) (hb : 2 ≤ b) (hb' : b ≤ 16) {rounds : ℕ} (hr : w < rounds) (uv : BitVec w)
    (sign : Bool) (mem : ℕ → UInt8) (buf : ℕ) : printDigits rounds uv sign mem buf b =
      some (buf,storeList mem buf (signed sign b uv.toNat ++ [0])) := by
  have hbase := toNat_ofInt_base hw hb'
  have hlength := length_digits_le (Nat.zero_lt_of_lt hw) hb uv
  have hput : putDigits rounds (BitVec.ofInt w b) ⟨mem,buf,uv⟩ = _ :=
    putDigits_eq (by omega) mem buf uv (by rw [hbase]; omega)
  rw [hbase] at hput
  rw [printDigits,hput]
  set digits := (digitsOf b uv.toNat).map digitChar with hdigits
  have hsize : (digitsOf b uv.toNat).length = digits.length := (List.length_map ..).symm
  rw [hsize] at hlength ⊢
  have hnumeral : numeral b uv.toNat = digits.reverse := by rw [numeral,List.map_reverse]
  cases sign with
  | false =>
    obtain ⟨r,hrun,hmem⟩ := exists_reverseText_nul mem buf digits (hlength.trans hr.le)
    simp only [Option.bind_eq_bind,Option.bind_some,Bool.false_eq_true,if_false,hrun,hmem,signed,List.nil_append,
      hnumeral]
    rfl
  | true =>
    -- the sign is the last character before the reversal and the first one after it
    have hlast : (digits ++ [45]).length ≤ rounds := by
      rw [List.length_append,List.length_singleton]
      omega
    obtain ⟨r,hrun,hmem⟩ := exists_reverseText_nul mem buf (digits ++ [45]) hlast
    rw [storeList_append,storeList,storeList,List.length_append,List.length_singleton,← Nat.add_assoc] at hrun
    rw [List.reverse_append,List.reverse_singleton] at hmem
    simp only [Option.bind_eq_bind,Option.bind_some,if_true,hrun,hmem,signed,hnumeral]
    rfl

end Printing

section Parsing
variable {w b s rounds : ℕ} {mem : ℕ → UInt8}

lemma digitOf_digitChar : ∀ d < 16, digitOf (digitChar d) = some (d : ℤ) := by decide

lemma digitChar_decimal :
    ∀ d < 10, (48 ≤ digitChar d ∧ digitChar d ≤ 57) ∧ ((digitChar d).toNat : ℤ)-48 = d := by decide

lemma digitChar_ne : ∀ d < 16, digitChar d ∉ ([0,9,32,43,45] : List UInt8) := by decide

/-- A loop that goes on at digits only, and multiplies and adds, reads a number. -/
lemma whileLoop_digits {c : ℕ × BitVec w → Bool} {f : ℕ × BitVec w → ℕ × BitVec w} {ds : List ℕ}
    (hgo : ∀ d ∈ ds, ∀ r, mem r.1 = digitChar d → c r = true ∧ f r = (r.1+1,r.2*BitVec.ofNat w b+BitVec.ofNat w d))
    (hstop : ∀ r, mem r.1 = 0 → c r = false) (hmem : Holds mem s (ds.map digitChar ++ [0])) (hr : ds.length ≤ rounds)
    (v : ℕ) : whileLoop c f rounds (s,BitVec.ofNat w v) =
      some (s+ds.length,BitVec.ofNat w (ds.foldl (fun r d => r*b+d) v)) := by
  induction ds generalizing s v rounds with
  | nil => exact whileLoop_of_false (hstop _ hmem.1) rounds
  | cons d ds ih =>
    obtain ⟨k,rfl⟩ : ∃ k, rounds = k+1 := ⟨rounds-1,by rw [List.length_cons] at hr; omega⟩
    obtain ⟨hc,hf⟩ := hgo d List.mem_cons_self (s,BitVec.ofNat w v) hmem.1
    rw [whileLoop,if_pos hc,hf,← BitVec.ofNat_mul,← BitVec.ofNat_add,
      ih (fun d' hd => hgo d' (List.mem_cons_of_mem d hd)) hmem.2 (Nat.le_of_succ_le_succ hr),List.foldl_cons,
      List.length_cons,Nat.add_assoc,Nat.add_comm 1]

/-- A numeral begins with a digit. -/
lemma exists_numeral (hb : 1 < b) (n : ℕ) : ∃ d l, d < b ∧ numeral b n = digitChar d::l := by
  cases hdigits : (digitsOf b n).reverse with
  | nil => exact absurd (List.reverse_eq_nil_iff.mp hdigits) (digitsOf_ne_nil b n)
  | cons d ds =>
    have hd : d ∈ (digitsOf b n).reverse := by rw [hdigits]; exact List.mem_cons_self
    exact ⟨d,ds.map digitChar,lt_of_mem_digitsOf hb (List.mem_reverse.mp hd),by rw [numeral,hdigits,List.map_cons]⟩

/-- Such a loop on a numeral. -/
lemma whileLoop_numeral {c : ℕ × BitVec w → Bool} {f : ℕ × BitVec w → ℕ × BitVec w} (hb : 1 < b)
    (hgo : ∀ d < b, ∀ r, mem r.1 = digitChar d → c r = true ∧ f r = (r.1+1,r.2*BitVec.ofNat w b+BitVec.ofNat w d))
    (hstop : ∀ r, mem r.1 = 0 → c r = false) (n : ℕ) (hmem : Holds mem s (numeral b n ++ [0]))
    (hr : (numeral b n).length ≤ rounds) :
    whileLoop c f rounds (s,0) = some (s+(numeral b n).length,BitVec.ofNat w n) := by
  rw [length_numeral,← List.length_reverse] at hr ⊢
  have hread := whileLoop_digits (fun d hd => hgo d (lt_of_mem_digitsOf hb (List.mem_reverse.mp hd))) hstop hmem hr 0
  rw [foldl_digitsOf] at hread
  exact hread

/-- The loop of `atoi` on a decimal number. -/
lemma readDecimal (n : ℕ) (hmem : Holds mem s (numeral 10 n ++ [0])) (hr : (numeral 10 n).length ≤ rounds) :
    whileLoop (fun r : ℕ × BitVec w => decide (48 ≤ mem r.1 ∧ mem r.1 ≤ 57))
      (fun r => (r.1+1,r.2*10+BitVec.ofInt w ((mem r.1).toNat-48))) rounds (s,0) =
      some (s+(numeral 10 n).length,BitVec.ofNat w n) := by
  refine whileLoop_numeral (by decide) ?_ ?_ n hmem hr
  · intro d hd r hchar
    obtain ⟨hdigit,hvalue⟩ := digitChar_decimal d hd
    rw [hchar,hvalue,BitVec.ofInt_natCast]
    exact ⟨decide_eq_true hdigit,rfl⟩
  · intro r hchar
    rw [hchar]
    decide

/-- The text begins with no space. -/
lemma skip_eq (h : mem s ≠ 32) (h' : mem s ≠ 9) (rounds : ℕ) :
    whileLoop (fun s => decide (mem s = 32 ∨ mem s = 9)) (·+1) rounds s = some s :=
  whileLoop_of_false (s := s) (decide_eq_false (not_or.mpr ⟨h,h'⟩)) rounds

lemma parseSigned_numeral (n : ℕ) (hmem : Holds mem s (signed false 10 n ++ [0]))
    (hr : (numeral 10 n).length ≤ rounds) : parseSigned rounds mem s w = some (BitVec.ofNat w n) := by
  obtain ⟨d,l,hd,htext⟩ := exists_numeral (b := 10) (by decide) n
  have hfirst : mem s = digitChar d := by
    rw [signed,htext] at hmem
    exact hmem.1
  have hne := digitChar_ne d (by omega)
  rw [← hfirst] at hne
  simp only [List.mem_cons,List.not_mem_nil,or_false,not_or] at hne
  obtain ⟨-,htab,hspace,hplus,hminus⟩ := hne
  rw [parseSigned,skip_eq hspace htab,Option.bind_eq_bind,Option.bind_some,readSign,if_neg hminus,if_neg hplus]
  simp only [readDecimal n hmem hr,Option.bind_eq_bind,Option.bind_some]
  exact congrArg some (BitVec.mul_one _)

lemma parseSigned_negative (n : ℕ) (hmem : Holds mem s (signed true 10 n ++ [0]))
    (hr : (numeral 10 n).length ≤ rounds) : parseSigned rounds mem s w = some (-BitVec.ofNat w n) := by
  have hfirst : mem s = 45 := hmem.1
  rw [parseSigned,skip_eq (by rw [hfirst]; decide) (by rw [hfirst]; decide),Option.bind_eq_bind,Option.bind_some,
    readSign,if_pos hfirst]
  simp only [readDecimal n hmem.2 hr,Option.bind_eq_bind,Option.bind_some,BitVec.mul_neg]
  exact congrArg (some <| -·) (BitVec.mul_one _)

lemma parseUnsigned_numeral (hb : 2 ≤ b) (hb' : b ≤ 16) (n : ℕ) (hmem : Holds mem s (numeral b n ++ [0]))
    (hr : (numeral b n).length ≤ rounds) :
    parseUnsigned rounds mem s b = some (BitVec.ofNat 64 n,s+(numeral b n).length) := by
  have hbase : (b : ℤ) ≠ 0 := by omega
  rw [parseUnsigned,readBase,if_neg hbase]
  simp only
  rw [whileLoop_numeral hb ?_ ?_ n hmem hr]
  · rfl
  · intro d hd r hchar
    rw [hchar,digitOf_digitChar d (by omega),Option.any_some,Option.getD_some,BitVec.ofInt_natCast,BitVec.ofInt_natCast]
    exact ⟨decide_eq_true (Int.ofNat_lt.mpr hd),rfl⟩
  · intro r hchar
    rw [hchar]
    rfl

end Parsing

section RoundTrip
variable {w rounds : ℕ}

/-- The text at `s` ends with the NUL at `e`. -/
def EndsAt (mem : ℕ → UInt8) (s e : ℕ) : Prop := s ≤ e ∧ mem e = 0 ∧ ∀ i, s ≤ i → i < e → mem i ≠ 0

lemma endsAt_numeral {mem : ℕ → UInt8} {s b n : ℕ} (hb : 1 < b) (hb' : b ≤ 16)
    (hmem : Holds mem s (numeral b n ++ [0])) : EndsAt mem s (s+(numeral b n).length) := by
  obtain ⟨htext,hnul⟩ := holds_append.mp hmem
  refine ⟨Nat.le_add_right _ _,hnul.1,fun i hi hlt hzero => ?_⟩
  have hchar := htext.mem_of_lt hi hlt
  rw [hzero] at hchar
  obtain ⟨d,hd,heq⟩ := List.mem_map.mp hchar
  have hlt := lt_of_mem_digitsOf hb (List.mem_reverse.mp hd)
  exact digitChar_ne d (by omega) (heq ▸ List.mem_cons_self)

lemma parseSigned_printSigned (hw : 5 ≤ w) (hr : w < rounds) (val : BitVec w) (mem : ℕ → UInt8) (buf : ℕ) :
    ∃ s mem', printSigned rounds val mem buf 10 = some (s,mem') ∧ parseSigned rounds mem' s w = some val := by
  have hlength (uv : BitVec w) : (numeral 10 uv.toNat).length ≤ rounds := by
    rw [length_numeral]
    exact (length_digits_le (Nat.zero_lt_of_lt hw) (by decide) uv).trans hr.le
  have hprint := printDigits_eq (b := 10) hw (by decide) (by decide) hr
  rw [printSigned,if_neg (by decide)]
  split_ifs with hneg
  · -- the minimum is its own negation, and the product with the sign brings it back
    refine ⟨_,_,hprint (-val) true mem buf,?_⟩
    rw [parseSigned_negative _ (holds_storeList _ _ _) (hlength _),BitVec.ofNat_toNat,BitVec.setWidth_eq,BitVec.neg_neg]
  · refine ⟨_,_,hprint val false mem buf,?_⟩
    rw [parseSigned_numeral _ (holds_storeList _ _ _) (hlength _),BitVec.ofNat_toNat,BitVec.setWidth_eq]

lemma strtoul_utoa (hr : 32 < rounds) (v : UInt32) (mem : ℕ → UInt8) (buf : ℕ) (base : ℤ) (hb : 2 ≤ base)
    (hb' : base ≤ 16) : ∃ s mem' e, utoa rounds v mem buf base = some (s,mem') ∧
      strtoul rounds mem' s base = some (v.toUInt64,e) ∧ EndsAt mem' s e := by
  obtain ⟨b,rfl⟩ := Int.eq_ofNat_of_zero_le (by omega : 0 ≤ base)
  replace hb : 2 ≤ b := by omega
  replace hb' : b ≤ 16 := by omega
  have hlength : (numeral b v.toBitVec.toNat).length ≤ rounds := by
    rw [length_numeral]
    exact (length_digits_le (by decide) hb v.toBitVec).trans hr.le
  have hmem := holds_storeList mem buf (numeral b v.toBitVec.toNat ++ [0])
  refine ⟨buf,_,_,?_,?_,endsAt_numeral hb hb' hmem⟩
  · rw [utoa,if_neg (by omega),printDigits_eq (by decide) hb hb' hr]
    rfl
  · have hvalue : (⟨BitVec.ofNat 64 v.toBitVec.toNat⟩ : UInt64) = v.toUInt64 := by
      rw [BitVec.ofNat_toNat,← UInt32.toBitVec_toUInt64]
    rw [strtoul,parseUnsigned_numeral hb hb' _ hmem hlength,Option.map_some,hvalue]

/-- What is printed is read back. -/
theorem number_round_trip (hr : 64 < rounds) (mem : ℕ → UInt8) (buf : ℕ) :
    (∀ (v : UInt32) (base : ℤ), 2 ≤ base → base ≤ 16 → ∃ s mem' e, utoa rounds v mem buf base = some (s,mem') ∧
      strtoul rounds mem' s base = some (v.toUInt64,e) ∧ EndsAt mem' s e) ∧
    (∀ v : Int32, ∃ s mem', itoa rounds v mem buf 10 = some (s,mem') ∧ atoi rounds mem' s = some v) ∧
    (∀ v : Int64, ∃ s mem', ltoa rounds v mem buf 10 = some (s,mem') ∧ atol rounds mem' s = some v) ∧
    (∀ v : Int64, ∃ s mem', lltoa rounds v mem buf 10 = some (s,mem') ∧ atoll rounds mem' s = some v) := by
  have hlong (v : Int64) : ∃ s mem', ltoa rounds v mem buf 10 = some (s,mem') ∧ atol rounds mem' s = some v := by
    obtain ⟨s,mem',hprint,hparse⟩ := parseSigned_printSigned (by decide) hr v.toBitVec mem buf
    exact ⟨s,mem',hprint,by rw [atol,hparse]; rfl⟩
  refine ⟨fun v base => strtoul_utoa (by omega) v mem buf base,fun v => ?_,hlong,hlong⟩
  obtain ⟨s,mem',hprint,hparse⟩ := parseSigned_printSigned (by decide) (by omega : 32 < rounds) v.toBitVec mem buf
  exact ⟨s,mem',hprint,by rw [atoi,hparse]; rfl⟩

theorem number_round_trip_min : 64 < 65 ∧ ∃ s mem', itoa 65 (-2147483648) (fun _ => 0) 0 10 = some (s,mem') ∧
    atoi 65 mem' s = some (-2147483648) :=
  ⟨by decide,(number_round_trip (by decide) (fun _ => 0) 0).2.1 (-2147483648)⟩

end RoundTrip

example : (itoa 64 (-1204) (fun _ => 1) 7 10).map (fun r => (List.range 7).map fun i => r.2 (7+i))
    = some [45,49,50,48,52,0,1] := by
  decide +kernel

end Linuxab.Kernel
