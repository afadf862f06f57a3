import Mathlib.Logic.Nontrivial.Basic

/-! The masked array access of rust/SMR.h. The mask is made by three instructions, of which the second one reads
the carry of the first. -/
namespace Linuxab.Hardening

/-- The operands of the assembler text: `%0` is the mask and starts as the index, `%1` is the size. -/
inductive Operand
  | op0
  | op1
  deriving DecidableEq

/-- Source first, destination last. -/
inductive Instr
  | cmp (src dst : Operand)
  | sbb (src dst : Operand)
  | neg (dst : Operand)

structure Cpu where
  regs : Operand → UInt64
  cf : Bool

namespace Cpu

/-- The destination minus the source and a carry. -/
def sub (s : Cpu) (src dst : Operand) (carry : Bool) : UInt64 := s.regs dst-s.regs src-carry.toUInt64

/-- The subtraction borrows. -/
def borrow (s : Cpu) (src dst : Operand) (carry : Bool) : Bool := (s.regs dst).toNat < (s.regs src).toNat+carry.toNat

def exec (s : Cpu) : Instr → Cpu
  | .cmp src dst => { s with cf := s.borrow src dst false }
  | .sbb src dst => ⟨Function.update s.regs dst (s.sub src dst s.cf),s.borrow src dst s.cf⟩
  | .neg dst => ⟨Function.update s.regs dst (-s.regs dst),s.regs dst ≠ 0⟩

end Cpu

def maskCode : List Instr := [.cmp .op1 .op0,.sbb .op0 .op0,.neg .op0]

/-- The registers before the code; `cf` is whatever the flag was. -/
def maskStart (cf : Bool) (index size : UInt64) : Cpu := ⟨fun | .op0 => index | .op1 => size,cf⟩

def arrayIndexMaskNospec (cf : Bool) (index size : UInt64) : UInt64 :=
  (maskCode.foldl Cpu.exec (maskStart cf index size)).regs .op0

/-- The element that is read; the barrier behind it changes no value. -/
def arrayAccessNospec {α : Type*} (cf : Bool) (arr : UInt64 → α) (idx size : UInt64) : α :=
  arr (idx &&& arrayIndexMaskNospec cf idx size)

section Mask
variable (cf : Bool) {i n : UInt64}

/-- The subtraction spreads the carry over all bits, and the negation makes one bit of it again. -/
lemma arrayIndexMaskNospec_eq (i n : UInt64) : arrayIndexMaskNospec cf i n = if i < n then 1 else 0 := by
  have hcarry : (maskStart cf i n).borrow .op1 .op0 false = decide (i < n) :=
    decide_eq_decide.mpr UInt64.lt_iff_toNat_lt.symm
  have hmask : arrayIndexMaskNospec cf i n = -(i-i-(decide (i < n)).toUInt64) := by
    rw [← hcarry]
    rfl
  rw [hmask,UInt64.sub_self]
  by_cases h : i < n
  · rw [decide_eq_true h,if_pos h]
    rfl
  · rw [decide_eq_false h,if_neg h]
    rfl

/-- Of an index in range only the lowest bit is left. -/
lemma arrayAccessNospec_eq {α : Type*} (h : i < n) (arr : UInt64 → α) :
    arrayAccessNospec cf arr i n = arr (i &&& 1) := by
  rw [arrayAccessNospec,arrayIndexMaskNospec_eq,if_pos h]

lemma and_one_eq_self_iff (i : UInt64) : i &&& 1 = i ↔ i < 2 := by
  have hone : (1 : UInt64).toNat = 2^1-1 := rfl
  have htwo : (2 : UInt64).toNat = 2 := rfl
  rw [← UInt64.toNat_inj,UInt64.toNat_and,hone,Nat.and_two_pow_sub_one_eq_mod,UInt64.lt_iff_toNat_lt,htwo]
  omega

end Mask

/-- The mask is right exactly for an index out of range, and the access to one in range exactly if it is 0 or 1. -/
theorem index_mask_iff {α : Type*} [Nontrivial α] (cf : Bool) (i n : UInt64) :
    (arrayIndexMaskNospec cf i n = (if i < n then 0xFFFFFFFFFFFFFFFF else 0) ↔ n ≤ i) ∧
    (i < n → ((∀ arr : UInt64 → α, arrayAccessNospec cf arr i n = arr i) ↔ i < 2)) := by
  constructor
  · rw [arrayIndexMaskNospec_eq,← UInt64.not_lt]
    by_cases h : i < n <;> simp [h]
  · intro h
    simp only [arrayAccessNospec_eq cf h]
    rw [← and_one_eq_self_iff]
    constructor
    · intro hall
      obtain ⟨a,b,hne⟩ := exists_pair_ne α
      by_contra hi
      -- an array with another element at the masked index
      have hread := hall (Function.update (fun _ => a) i b)
      rw [Function.update_self,Function.update_of_ne hi] at hread
      exact hne hread
    · intro hi arr
      rw [hi]

theorem index_mask_iff_second : (1 : UInt64) < 5 ∧
    ∀ arr : UInt64 → Bool, arrayAccessNospec false arr 1 5 = arr 1 :=
  ⟨by decide,((index_mask_iff false 1 5).2 (by decide)).mpr (by decide)⟩

/-- The mask of index 2 of 5 is 1, and the element that is read is the first one. -/
theorem index_mask_wrong : arrayIndexMaskNospec false 2 5 = 1 ∧
    arrayAccessNospec false (fun i => i) 2 5 = 0 := by
  decide

end Linuxab.Hardening
