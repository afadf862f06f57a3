import Linuxab.Base.While
import Linuxab.Elf.SymbolTable
import Mathlib.Data.Int.Order.Basic

/-! The string comparisons of string.h. `strcmp` is assembler text; `lodsb` takes a byte of the second string and
`scasb` subtracts the byte of the first one from it, so that the carry tells which is less the wrong way round. -/
namespace Linuxab.Kernel
open Linuxab.Base Linuxab.Elf

/-- The instructions of the text; a jump has the number of the instruction it goes to. -/
inductive StringInstr
  | lodsb
  | scasb
  | jne (target : ℕ)
  | testbAl
  | xorlEax
  | jmp (target : ℕ)
  | sbblEax
  | orbAl (imm : UInt8)

/-- The registers and flags that the text uses, and the addresses it has read from. -/
structure StringCpu where
  pc : ℕ
  eax : UInt32
  rsi : UInt64
  rdi : UInt64
  zf : Bool
  cf : Bool
  siReads : List UInt64
  diReads : List UInt64

namespace StringCpu

def al (s : StringCpu) : UInt8 := s.eax.toUInt8

/-- The string instructions count upwards: a function is entered with the direction flag clear. -/
def exec (mem : UInt64 → UInt8) (s : StringCpu) : StringInstr → StringCpu
  | .lodsb => { s with
      pc := s.pc+1, eax := s.eax &&& 0xFFFFFF00 ||| (mem s.rsi).toUInt32, rsi := s.rsi+1, siReads := s.rsi::s.siReads }
  | .scasb => { s with
      pc := s.pc+1, zf := s.al = mem s.rdi, cf := s.al < mem s.rdi, rdi := s.rdi+1, diReads := s.rdi::s.diReads }
  | .jne target => { s with pc := if s.zf then s.pc+1 else target }
  | .testbAl => { s with pc := s.pc+1, zf := s.al = 0, cf := false }
  | .xorlEax => { s with pc := s.pc+1, eax := s.eax ^^^ s.eax, zf := true, cf := false }
  | .jmp target => { s with pc := target }
  | .sbblEax => { s with pc := s.pc+1, eax := s.eax-s.eax-s.cf.toUInt32, zf := !s.cf }
  | .orbAl imm => { s with pc := s.pc+1, eax := s.eax ||| imm.toUInt32, zf := s.al ||| imm = 0, cf := false }

end StringCpu

/-- The labels 1, 2 and 3 of the text are the instructions 0 and 7 and its end. -/
def strcmpCode : List StringInstr :=
  [.lodsb,.scasb,.jne 7,.testbAl,.jne 0,.xorlEax,.jmp 9,.sbblEax,.orbAl 1]

def strcmpStep (mem : UInt64 → UInt8) (s : StringCpu) : StringCpu :=
  match strcmpCode[s.pc]? with
  | none => s
  | some i => s.exec mem i

/-- The text for at most so many instructions. -/
def strcmpRun (mem : UInt64 → UInt8) : ℕ → StringCpu → Option StringCpu :=
  whileLoop (fun s => decide (s.pc < strcmpCode.length)) (strcmpStep mem)

/-- The operands are bound, the other registers are as they happen to be. -/
def strcmpStart (s1 s2 : UInt64) (eax : UInt32) (zf cf : Bool) : StringCpu := ⟨0,eax,s2,s1,zf,cf,[],[]⟩

/-- `res` as the integer it is returned as. -/
def StringCpu.res (s : StringCpu) : ℤ := s.eax.toInt32.toInt

/-- The loop of `strncmp`, with the count that is left. -/
def strncmpLoop (mem : UInt64 → UInt8) : UInt64 → UInt64 → ℕ → ℤ
  | _,_,0 => 0
  | s1,s2,n+1 =>
    if mem s1 ≠ 0 ∧ mem s1 = mem s2 then strncmpLoop mem (s1+1) (s2+1) n else (mem s1).toNat-(mem s2).toNat

def strncmp (mem : UInt64 → UInt8) (s1 s2 n : UInt64) : ℤ := strncmpLoop mem s1 s2 n.toNat

/-! ## The text -/

section Blocks
variable {mem : UInt64 → UInt8} {eax : UInt32} {si di : UInt64} {zf cf : Bool} {rs rd : List UInt64}

/-- What `lodsb` leaves in `eax`. -/
def loaded (eax : UInt32) (c : UInt8) : UInt32 := eax &&& 0xFFFFFF00 ||| c.toUInt32

theorem loaded_al (eax : UInt32) (c : UInt8) : (loaded eax c).toUInt8 = c := by
  have hmask : (0xFFFFFF00 : UInt32).toUInt8 = 0 := by decide
  rw [loaded,UInt32.toUInt8_or,UInt32.toUInt8_and,hmask,UInt8.and_zero,UInt8.zero_or,UInt8.toUInt8_toUInt32]

/-- Both bytes are read and compared. -/
theorem run_compare (n : ℕ) : strcmpRun mem (n+2) ⟨0,eax,si,di,zf,cf,rs,rd⟩ =
    strcmpRun mem n ⟨2,loaded eax (mem si),si+1,di+1,mem si = mem di,mem si < mem di,si::rs,di::rd⟩ := by
  have hrun : strcmpRun mem (n+2) ⟨0,eax,si,di,zf,cf,rs,rd⟩ = strcmpRun mem n ⟨2,loaded eax (mem si),si+1,di+1,
      (loaded eax (mem si)).toUInt8 = mem di,(loaded eax (mem si)).toUInt8 < mem di,si::rs,di::rd⟩ := rfl
  simpa only [loaded_al] using hrun

/-- Equal bytes are tested for the end of the strings. -/
theorem run_equal (heq : mem si = mem di) (n : ℕ) : strcmpRun mem (n+4) ⟨0,eax,si,di,zf,cf,rs,rd⟩ =
    strcmpRun mem n ⟨4,loaded eax (mem si),si+1,di+1,mem si = 0,false,si::rs,di::rd⟩ := by
  have htest : ∀ cf, strcmpRun mem (n+2) ⟨2,loaded eax (mem si),si+1,di+1,true,cf,si::rs,di::rd⟩ =
      strcmpRun mem n ⟨4,loaded eax (mem si),si+1,di+1,(loaded eax (mem si)).toUInt8 = 0,false,si::rs,di::rd⟩ :=
    fun _ => rfl
  rw [run_compare (n+2),decide_eq_true heq,htest,loaded_al]

/-- The bytes are equal and not the end. -/
theorem run_continue (heq : mem si = mem di) (hne : mem di ≠ 0) (n : ℕ) :
    strcmpRun mem (n+5) ⟨0,eax,si,di,zf,cf,rs,rd⟩ =
      strcmpRun mem n ⟨0,loaded eax (mem si),si+1,di+1,false,false,si::rs,di::rd⟩ := by
  rw [run_equal heq (n+1),heq,decide_eq_false hne]
  rfl

/-- Both strings end. -/
theorem run_end (hsi : mem si = 0) (hdi : mem di = 0) (n : ℕ) :
    strcmpRun mem (n+7) ⟨0,eax,si,di,zf,cf,rs,rd⟩ = some ⟨9,0,si+1,di+1,true,false,si::rs,di::rd⟩ := by
  have hzero : strcmpRun mem (n+3) ⟨4,loaded eax (mem si),si+1,di+1,true,false,si::rs,di::rd⟩ =
      some ⟨9,loaded eax (mem si) ^^^ loaded eax (mem si),si+1,di+1,true,false,si::rs,di::rd⟩ := by
    cases n <;> rfl
  rw [run_equal (hsi.trans hdi.symm) (n+3),decide_eq_true hsi,hzero,UInt32.xor_self]

/-- The bytes differ; the carry says that the byte of the second string is less. -/
theorem run_differ (hne : mem si ≠ mem di) (n : ℕ) :
    strcmpRun mem (n+5) ⟨0,eax,si,di,zf,cf,rs,rd⟩ =
      some ⟨9,if mem si < mem di then 0xFFFFFFFF else 1,si+1,di+1,false,false,si::rs,di::rd⟩ := by
  have hsbb : ∀ e : UInt32, ∀ cf, strcmpRun mem (n+3) ⟨2,e,si+1,di+1,false,cf,si::rs,di::rd⟩ =
      some ⟨9,e-e-cf.toUInt32 ||| 1,si+1,di+1,(e-e-cf.toUInt32).toUInt8 ||| 1 = 0,false,si::rs,di::rd⟩ := by
    intro e cf
    cases n <;> rfl
  rw [run_compare (n+3),decide_eq_false hne,hsbb,UInt32.sub_self]
  by_cases hlt : mem si < mem di
  · rw [decide_eq_true hlt,if_pos hlt]
    rfl
  · rw [decide_eq_false hlt,if_neg hlt]
    rfl

end Blocks

/-! ## Strings -/

section Strings
variable {mem : UInt64 → UInt8}

/-- The addresses from the first byte of a string up to its NUL. -/
def Within (p : UInt64) (text : List UInt8) (q : UInt64) : Prop := ∃ i ≤ text.length, q = p+UInt64.ofNat i

theorem within_head (p : UInt64) (text : List UInt8) : Within p text p := ⟨0,Nat.zero_le _,(UInt64.add_zero p).symm⟩

theorem Within.tail {p q : UInt64} {c : UInt8} {text : List UInt8} (h : Within (p+1) text q) :
    Within p (c::text) q := by
  obtain ⟨i,hi,rfl⟩ := h
  refine ⟨i+1,Nat.succ_le_succ hi,?_⟩
  rw [UInt64.add_assoc,UInt64.ofNat_add,UInt64.add_comm 1]
  rfl

/-- What the text comes to for the strings `a` and `b` at `p1` and `p2`. It reads up to the ends of the strings at
most, and the sign of its result is the opposite one. -/
structure Compared (mem : UInt64 → UInt8) (p1 p2 : UInt64) (a b : List UInt8) (s t : StringCpu) : Prop where
  first : ∀ q ∈ t.diReads, q ∈ s.diReads ∨ Within p1 a q
  second : ∀ q ∈ t.siReads, q ∈ s.siReads ∨ Within p2 b q
  sign : ∀ n, a.length < n → b.length < n → t.res.sign = -(strncmpLoop mem p1 p2 n).sign

section Loop
variable {p1 p2 : UInt64} {a b : List UInt8} {eax : UInt32} {zf cf : Bool} {rs rd : List UInt64}

/-- The addresses after a single pair of bytes. -/
theorem reads_head (p : UInt64) (text : List UInt8) (reads : List UInt64) :
    ∀ q ∈ p::reads, q ∈ reads ∨ Within p text q := by
  intro q hq
  rcases List.mem_cons.mp hq with rfl | hq
  · exact .inr (within_head q text)
  · exact .inl hq

theorem reads_tail (p : UInt64) (c : UInt8) (text : List UInt8) (reads : List UInt64) {q : UInt64}
    (h : q ∈ p::reads ∨ Within (p+1) text q) : q ∈ reads ∨ Within p (c::text) q := by
  rcases h with h | h
  · exact reads_head p (c::text) reads q h
  · exact .inr h.tail

theorem compared_end (h1 : mem p1 = 0) (h2 : mem p2 = 0) (a b : List UInt8) :
    ∃ n t, strcmpRun mem n ⟨0,eax,p2,p1,zf,cf,rs,rd⟩ = some t ∧ Compared mem p1 p2 a b ⟨0,eax,p2,p1,zf,cf,rs,rd⟩ t := by
  refine ⟨7,_,run_end h2 h1 0,reads_head p1 a rd,reads_head p2 b rs,fun n hn _ => ?_⟩
  obtain ⟨n,rfl⟩ := Nat.exists_eq_add_of_lt hn
  rw [strncmpLoop,if_neg fun h => h.1 h1,h1,h2]
  rfl

theorem compared_differ (hne : mem p2 ≠ mem p1) (a b : List UInt8) :
    ∃ n t, strcmpRun mem n ⟨0,eax,p2,p1,zf,cf,rs,rd⟩ = some t ∧ Compared mem p1 p2 a b ⟨0,eax,p2,p1,zf,cf,rs,rd⟩ t := by
  refine ⟨5,_,run_differ hne 0,reads_head p1 a rd,reads_head p2 b rs,fun n hn _ => ?_⟩
  obtain ⟨n,rfl⟩ := Nat.exists_eq_add_of_lt hn
  have hloop : strncmpLoop mem p1 p2 (a.length+n+1) = (mem p1).toNat-(mem p2).toNat := if_neg fun h => hne h.2.symm
  rw [hloop,StringCpu.res]
  rcases UInt8.lt_or_lt_of_ne hne with hlt | hlt
  · have hpos : 0 < ((mem p1).toNat : ℤ)-(mem p2).toNat := by
      have := UInt8.lt_iff_toNat_lt.mp hlt
      omega
    rw [if_pos hlt,Int.sign_eq_one_of_pos hpos]
    rfl
  · have hneg : ((mem p1).toNat : ℤ)-(mem p2).toNat < 0 := by
      have := UInt8.lt_iff_toNat_lt.mp hlt
      omega
    rw [if_neg (UInt8.lt_asymm hlt),Int.sign_eq_neg_one_of_neg hneg]
    rfl

/-- By induction on the first string: a pair of equal bytes that is not the end is one round of the loop. -/
theorem exists_compared (ha : StringAt mem p1 a) (hb : StringAt mem p2 b) :
    ∃ n t, strcmpRun mem n ⟨0,eax,p2,p1,zf,cf,rs,rd⟩ = some t ∧ Compared mem p1 p2 a b ⟨0,eax,p2,p1,zf,cf,rs,rd⟩ t := by
  induction a generalizing b p1 p2 eax zf cf rs rd with
  | nil =>
    by_cases hend : mem p2 = 0
    · exact compared_end ha hend [] b
    · exact compared_differ (fun h => hend (h.trans ha)) [] b
  | cons c a ih =>
    obtain ⟨hc,hc0,ha⟩ := ha
    by_cases heq : mem p2 = mem p1
    · cases b with
      | nil => exact absurd (hc.symm.trans (heq.symm.trans hb)) hc0
      | cons d b =>
        have hne : mem p1 ≠ 0 := hc ▸ hc0
        obtain ⟨n,t,hrun,ht⟩ := @ih _ _ b (loaded eax (mem p2)) false false (p2::rs) (p1::rd) ha hb.2.2
        refine ⟨n+5,t,(run_continue heq hne n).trans hrun,?_,?_,?_⟩
        · exact fun q hq => reads_tail p1 c a rd (ht.first q hq)
        · exact fun q hq => reads_tail p2 d b rs (ht.second q hq)
        · intro n h1 h2
          obtain ⟨n,rfl⟩ : ∃ k, n = k+1 := ⟨n-1,by omega⟩
          rw [strncmpLoop,if_pos ⟨hne,heq.symm⟩]
          exact ht.sign n (Nat.lt_of_succ_lt_succ h1) (Nat.lt_of_succ_lt_succ h2)
    · exact compared_differ heq (c::a) b

end Loop

theorem byte_sub_eq_zero_iff (x y : UInt8) : (x.toNat : ℤ)-y.toNat = 0 ↔ x = y := by
  rw [← UInt8.toNat_inj]
  omega

/-- A count beyond the length does not cut the comparison short. -/
theorem strncmpLoop_eq_zero_iff {p1 p2 : UInt64} {a b : List UInt8} (ha : StringAt mem p1 a) (hb : StringAt mem p2 b)
    {n : ℕ} (hn : a.length < n) : strncmpLoop mem p1 p2 n = 0 ↔ a = b := by
  induction a generalizing b p1 p2 n with
  | nil =>
    obtain ⟨n,rfl⟩ : ∃ k, n = k+1 := ⟨n-1,by omega⟩
    have hzero : mem p1 = 0 := ha
    rw [strncmpLoop,if_neg fun h => h.1 hzero,byte_sub_eq_zero_iff,hzero]
    cases b with
    | nil => exact iff_of_true (Eq.symm hb) rfl
    | cons d b => exact iff_of_false (fun h => hb.2.1 (hb.1.symm.trans h.symm)) (List.cons_ne_nil d b).symm
  | cons c a ih =>
    obtain ⟨n,rfl⟩ : ∃ k, n = k+1 := ⟨n-1,by omega⟩
    obtain ⟨hc,hc0,ha⟩ := ha
    by_cases heq : mem p1 = mem p2
    · cases b with
      | nil => exact absurd (hc.symm.trans (heq.trans hb)) hc0
      | cons d b =>
        have hcd : c = d := hc.symm.trans (heq.trans hb.1)
        rw [strncmpLoop,if_pos ⟨hc ▸ hc0,heq⟩,ih ha hb.2.2 (Nat.lt_of_succ_lt_succ hn),List.cons.injEq]
        exact (and_iff_right hcd).symm
    · rw [strncmpLoop,if_neg fun h => heq h.2,byte_sub_eq_zero_iff]
      refine iff_of_false heq ?_
      rintro rfl
      exact heq (hc.trans hb.1.symm)

end Strings

/-- The text comes to its end and reads no string beyond its NUL; its sign is that of `strncmp` turned round,
so that the two agree exactly on equal strings. -/
theorem strcmp_sign_iff (mem : UInt64 → UInt8) {s1 s2 : UInt64} {a b : List UInt8} (ha : StringAt mem s1 a)
    (hb : StringAt mem s2 b) (eax : UInt32) (zf cf : Bool) :
    ∃ rounds t, strcmpRun mem rounds (strcmpStart s1 s2 eax zf cf) = some t ∧
      (∀ q ∈ t.diReads, Within s1 a q) ∧ (∀ q ∈ t.siReads, Within s2 b q) ∧
      ∀ n : UInt64, a.length < n.toNat → b.length < n.toNat →
        t.res.sign = -(strncmp mem s1 s2 n).sign ∧ (t.res.sign = (strncmp mem s1 s2 n).sign ↔ a = b) := by
  obtain ⟨rounds,t,hrun,ht⟩ := @exists_compared mem s1 s2 a b eax zf cf [] [] ha hb
  refine ⟨rounds,t,hrun,fun q hq => ?_,fun q hq => ?_,fun n h1 h2 => ?_⟩
  · exact (ht.first q hq).resolve_left List.not_mem_nil
  · exact (ht.second q hq).resolve_left List.not_mem_nil
  · have hsign : t.res.sign = -(strncmp mem s1 s2 n).sign := ht.sign n.toNat h1 h2
    refine ⟨hsign,?_⟩
    rw [hsign,← strncmpLoop_eq_zero_iff ha hb h1,← Int.sign_eq_zero_iff_zero]
    change _ ↔ (strncmp mem s1 s2 n).sign = 0
    omega

/-- A memory with the text "a" at 16 and the text "b" at 32. -/
def twoTexts (p : UInt64) : UInt8 := if p = 16 then 97 else if p = 32 then 98 else 0

/-- A text compared with itself. -/
theorem strcmp_sign_same : ∃ rounds t, strcmpRun twoTexts rounds (strcmpStart 16 16 0 false false) = some t ∧
    t.res.sign = (strncmp twoTexts 16 16 2).sign := by
  have ha : StringAt twoTexts 16 [97] := ⟨rfl,by decide,rfl⟩
  obtain ⟨rounds,t,hrun,-,-,hsign⟩ := strcmp_sign_iff twoTexts ha ha 0 false false
  exact ⟨rounds,t,hrun,(hsign 2 (by decide) (by decide)).2.mpr rfl⟩

/-- "a" is before "b" for `strncmp` and behind it for `strcmp`. -/
theorem strcmp_sign_reversed : ((strcmpRun twoTexts 5 (strcmpStart 16 32 0 false false)).map StringCpu.res) = some 1 ∧
    strncmp twoTexts 16 32 2 = -1 := by
  decide +kernel

end Linuxab.Kernel
