import Linuxab.Base.Fold
import Linuxab.Kernel.Credentials

/-! The operations of kernel/capability.c on a set of capabilities. The 41 flags lie in two words, and
`cap_set_full`, `cap_is_full` and `cap_is_empty` go over all 64 bits of them. -/
namespace Linuxab.Kernel
open Linuxab.Base

section Source
variable (cap : KernelCap) (flag : ℤ)

def capRaised : Bool :=
  if flag < 0 ∨ flag > CAP_LAST_CAP then false else cap.cap (capToIndex flag) &&& capToMask flag ≠ 0

def capRaise : KernelCap :=
  if flag < 0 ∨ flag > CAP_LAST_CAP then cap
  else ⟨Function.update cap.cap (capToIndex flag) (cap.cap (capToIndex flag) ||| capToMask flag)⟩

def capLower : KernelCap :=
  if flag < 0 ∨ flag > CAP_LAST_CAP then cap
  else ⟨Function.update cap.cap (capToIndex flag) (cap.cap (capToIndex flag) &&& ~~~capToMask flag)⟩

def capSetFull : KernelCap := ⟨fun _ => ~~~0⟩

def capIsFull : Bool := (List.finRange 2).all fun i => cap.cap i == ~~~0
def capIsEmpty : Bool := (List.finRange 2).all fun i => cap.cap i == 0

end Source

inductive CapOp
  | raise (flag : ℤ)
  | lower (flag : ℤ)
  | clear
  | setFull
  deriving DecidableEq, Repr

namespace CapOp

def apply (cap : KernelCap) : CapOp → KernelCap
  | raise flag => capRaise cap flag
  | lower flag => capLower cap flag
  | clear => capClear
  | setFull => capSetFull

/-- The operation raises the flag. -/
def Raises (flag : ℤ) (op : CapOp) : Prop := op = raise flag ∨ op = setFull

/-- The operation lowers the flag. -/
def Lowers (flag : ℤ) (op : CapOp) : Prop := op = lower flag ∨ op = clear

end CapOp

/-- A cleared set after the operations. -/
def capAfter (ops : List CapOp) : KernelCap := ops.foldl CapOp.apply capClear

def IsFlag (flag : ℤ) : Prop := 0 ≤ flag ∧ flag ≤ CAP_LAST_CAP

instance (flag : ℤ) : Decidable (IsFlag flag) := inferInstanceAs (Decidable (_ ∧ _))

/-- The last operation on the flag raised it. -/
def LastRaised (ops : List CapOp) (flag : ℤ) : Prop :=
  ∃ pre op post, ops = pre ++ op::post ∧ op.Raises flag ∧ ∀ o ∈ post, ¬o.Lowers flag

/-- The set was filled by `cap_set_full` and not cleared by `cap_clear` since. -/
def Filled (ops : List CapOp) : Prop := ∃ pre op post, ops = pre ++ op::post ∧ op = .setFull ∧ ∀ o ∈ post, o ≠ .clear

namespace KernelCap
variable {cap : KernelCap} {flag : ℤ} {k j : ℕ}

/-- The bits of both words, those without a flag included. -/
def bit (cap : KernelCap) (k : ℕ) : Bool := bitAt (fun i => cap.cap (wordOf2 i)) k

lemma bit_update (v : BitVec 32) (hk : k < 64) (hj : j < 64) :
    bit ⟨Function.update cap.cap (wordOf2 (k/32)) v⟩ j =
      bitAt (Function.update (fun i => cap.cap (wordOf2 i)) (k/32) v) j := by
  have hword : wordOf2 (j/32) = wordOf2 (k/32) ↔ j/32 = k/32 := by
    simp only [wordOf2,Fin.mk.injEq]
    omega
  simp only [bit,bitAt,Function.update_apply,hword]

lemma capToIndex_eq (flag : ℤ) : capToIndex flag = wordOf2 (flag.toNat/32) := by
  rw [capToIndex,Nat.shiftRight_eq_div_pow]

lemma capToMask_eq (flag : ℤ) : capToMask flag = 1#32 <<< (flag.toNat%32) := by
  have hmask : flag.toNat &&& 31 = flag.toNat%32 := Nat.and_two_pow_sub_one_eq_mod flag.toNat 5
  rw [capToMask,hmask]

lemma isFlag_iff (flag : ℤ) : IsFlag flag ↔ ∃ k : ℕ, k < 41 ∧ flag = k := by
  rw [IsFlag,CAP_LAST_CAP]
  constructor
  · intro h
    exact ⟨flag.toNat,by omega,by omega⟩
  · rintro ⟨k,hk,rfl⟩
    omega

/-- The check that the functions begin with. -/
lemma out_of_range_iff (flag : ℤ) : flag < 0 ∨ flag > CAP_LAST_CAP ↔ ¬IsFlag flag := by
  rw [IsFlag]
  omega

lemma capRaised_eq (cap : KernelCap) (hf : IsFlag flag) : capRaised cap flag = cap.bit flag.toNat := by
  have hlt : flag.toNat%32 < 32 := Nat.mod_lt _ (by decide)
  simp only [capRaised,out_of_range_iff,hf,not_true_eq_false,if_false,capToIndex_eq,capToMask_eq]
  rw [Bool.eq_iff_iff,decide_eq_true_iff,and_mask_ne_zero_iff hlt]
  rfl

lemma bit_capRaise (cap : KernelCap) (flag : ℤ) (hj : j < 64) :
    (capRaise cap flag).bit j = true ↔ j < 41 ∧ flag = j ∨ cap.bit j = true := by
  simp only [capRaise,out_of_range_iff]
  split_ifs with hf
  · obtain ⟨k,hk,rfl⟩ := (isFlag_iff flag).mp hf
    rw [capToIndex_eq,capToMask_eq,Int.toNat_natCast,bit_update _ (by omega) hj,bitAt_set (by decide),Bool.or_eq_true,
      decide_eq_true_iff,or_comm]
    exact or_congr_left (by omega)
  · have hnot : ¬(j < 41 ∧ flag = j) := fun h => hf ((isFlag_iff flag).mpr ⟨j,h⟩)
    simp [hnot]

lemma bit_capLower (cap : KernelCap) (flag : ℤ) (hj : j < 64) :
    (capLower cap flag).bit j = true ↔ cap.bit j = true ∧ ¬(j < 41 ∧ flag = j) := by
  simp only [capLower,out_of_range_iff]
  split_ifs with hf
  · obtain ⟨k,hk,rfl⟩ := (isFlag_iff flag).mp hf
    rw [capToIndex_eq,capToMask_eq,Int.toNat_natCast,bit_update _ (by omega) hj,bitAt_clear (by decide),
      Bool.and_eq_true,Bool.not_eq_true',decide_eq_false_iff_not]
    exact and_congr_right' (by omega)
  · have hnot : ¬(j < 41 ∧ flag = j) := fun h => hf ((isFlag_iff flag).mpr ⟨j,h⟩)
    simp [hnot]

lemma bit_capClear (k : ℕ) : capClear.bit k = false := BitVec.getLsbD_zero

lemma bit_capSetFull (k : ℕ) : capSetFull.bit k = true := by
  have hlt : k%32 < 32 := Nat.mod_lt _ (by decide)
  rw [bit,bitAt,capSetFull,BitVec.getLsbD_not]
  simp [hlt]

/-- The step lemma, for any of the 64 bits: one with a flag is set by raising that flag and by
`cap_set_full`, one without a flag by the latter only; bits are lost in the same two ways. -/
lemma bit_apply (cap : KernelCap) (op : CapOp) (hj : j < 64) : (op.apply cap).bit j = true ↔
    (j < 41 ∧ op = .raise j ∨ op = .setFull) ∨ cap.bit j = true ∧ ¬(j < 41 ∧ op = .lower j ∨ op = .clear) := by
  cases op with
  | raise flag => simp [CapOp.apply,bit_capRaise cap flag hj]
  | lower flag => simp [CapOp.apply,bit_capLower cap flag hj]
  | clear => simp [CapOp.apply,bit_capClear]
  | setFull => simp [CapOp.apply,bit_capSetFull]

/-- The bits of both words are the 64 bits. -/
lemma forall_bit_iff (cap : KernelCap) (b : Bool) :
    (∀ j < 64, cap.bit j = b) ↔ ∀ i : Fin 2, ∀ k < 32, (cap.cap i).getLsbD k = b := by
  constructor
  · intro h i k hk
    have hi : wordOf2 i.val = i := Fin.ext (Nat.mod_eq_of_lt i.isLt)
    have hbit := h (i.val*32+k) (by omega)
    rwa [bit,bitAt_mul_add hk,hi] at hbit
  · intro h j _
    exact h (wordOf2 (j/32)) (j%32) (Nat.mod_lt _ (by decide))

/-- Both words are compared with one whose bits are all the same. -/
lemma all_words_iff (cap : KernelCap) {v : BitVec 32} {b : Bool} (hv : ∀ k < 32, v.getLsbD k = b) :
    ((List.finRange 2).all fun i => cap.cap i == v) = true ↔ ∀ j < 64, cap.bit j = b := by
  rw [forall_bit_iff]
  simp only [List.all_eq_true,List.mem_finRange,true_imp_iff,beq_iff_eq]
  refine forall_congr' fun i => ⟨fun h k hk => ?_,fun h => BitVec.eq_of_getLsbD_eq fun k hk => ?_⟩
  · rw [h,hv k hk]
  · rw [h k hk,hv k hk]

lemma capIsFull_iff (cap : KernelCap) : capIsFull cap = true ↔ ∀ j < 64, cap.bit j = true := by
  apply all_words_iff
  intro k hk
  rw [BitVec.getLsbD_not]
  simp [hk]

lemma capIsEmpty_iff (cap : KernelCap) : capIsEmpty cap = true ↔ ∀ j < 64, cap.bit j = false :=
  all_words_iff cap fun _ _ => BitVec.getLsbD_zero

end KernelCap

section Run
open KernelCap
variable (ops : List CapOp) {flag : ℤ}

/-- A flag is raised exactly if the last operation on it raised it. -/
lemma capRaised_capAfter (hf : IsFlag flag) : capRaised (capAfter ops) flag = true ↔ LastRaised ops flag := by
  obtain ⟨k,hk,rfl⟩ := (isFlag_iff flag).mp hf
  rw [capRaised_eq _ hf,Int.toNat_natCast]
  apply foldl_last_iff (P := fun cap : KernelCap => cap.bit k = true)
  · intro cap op
    rw [bit_apply cap op (by omega)]
    simp only [hk,true_and]
    rfl
  · simp [bit_capClear]

/-- The bits without a flag are ones exactly while the set is filled. -/
lemma bit_capAfter_spare {j : ℕ} (hj : 41 ≤ j) (hlt : j < 64) : (capAfter ops).bit j = true ↔ Filled ops := by
  apply foldl_last_iff (P := fun cap : KernelCap => cap.bit j = true)
  · intro cap op
    rw [bit_apply cap op hlt]
    simp only [Nat.not_lt.mpr hj,false_and,false_or]
  · simp [bit_capClear]

/-- What holds of all bits holds of the flags and of the bits without one. -/
lemma forall_capAfter_iff (b : Bool) : (∀ j < 64, (capAfter ops).bit j = b) ↔
    (∀ flag, IsFlag flag → capRaised (capAfter ops) flag = b) ∧ ∀ j, 41 ≤ j → j < 64 → (capAfter ops).bit j = b := by
  constructor
  · intro h
    refine ⟨fun flag hf => ?_,fun j _ hj => h j hj⟩
    obtain ⟨k,hk,rfl⟩ := (isFlag_iff flag).mp hf
    rw [capRaised_eq _ hf]
    exact h k (by omega)
  · rintro ⟨hflags,hspare⟩ j hj
    rcases Nat.lt_or_ge j 41 with hlt | hge
    · have hf : IsFlag j := (isFlag_iff j).mpr ⟨j,hlt,rfl⟩
      have hraised := hflags j hf
      rwa [capRaised_eq _ hf] at hraised
    · exact hspare j hge hj

lemma capIsFull_capAfter : capIsFull (capAfter ops) = true ↔
    (∀ flag, IsFlag flag → capRaised (capAfter ops) flag = true) ∧ Filled ops := by
  rw [capIsFull_iff,forall_capAfter_iff]
  refine and_congr_right' ⟨fun h => ?_,fun h j hj hlt => ?_⟩
  · exact (bit_capAfter_spare ops (by decide : 41 ≤ 63) (by decide)).mp (h 63 (by decide) (by decide))
  · exact (bit_capAfter_spare ops hj hlt).mpr h

lemma capIsEmpty_capAfter : capIsEmpty (capAfter ops) = true ↔
    (∀ flag, IsFlag flag → capRaised (capAfter ops) flag = false) ∧ ¬Filled ops := by
  rw [capIsEmpty_iff,forall_capAfter_iff]
  refine and_congr_right' ⟨fun h hfilled => ?_,fun h j hj hlt => ?_⟩
  · have hset := (bit_capAfter_spare ops (by decide : 41 ≤ 63) (by decide)).mpr hfilled
    rw [h 63 (by decide) (by decide)] at hset
    cases hset
  · rw [← Bool.not_eq_true,bit_capAfter_spare ops hj hlt]
    exact h

end Run

/-- The predicates say what the operations on the flags have left. -/
structure CapAgrees (ops : List CapOp) : Prop where
  raised : ∀ flag, IsFlag flag → (capRaised (capAfter ops) flag = true ↔ LastRaised ops flag)
  full : capIsFull (capAfter ops) = true ↔ ∀ flag, IsFlag flag → capRaised (capAfter ops) flag = true
  empty : capIsEmpty (capAfter ops) = true ↔ ∀ flag, IsFlag flag → capRaised (capAfter ops) flag = false

/-- They do exactly if a set with all flags raised was filled by `cap_set_full`, and one with none raised
was not, since the last `cap_clear`. -/
theorem capAgrees_iff (ops : List CapOp) : CapAgrees ops ↔
    ((∀ flag, IsFlag flag → capRaised (capAfter ops) flag = true) → Filled ops) ∧
    ((∀ flag, IsFlag flag → capRaised (capAfter ops) flag = false) → ¬Filled ops) := by
  constructor
  · intro h
    constructor
    · intro hall
      exact ((capIsFull_capAfter ops).mp (h.full.mpr hall)).2
    · intro hnone
      exact ((capIsEmpty_capAfter ops).mp (h.empty.mpr hnone)).2
  · rintro ⟨hfull,hempty⟩
    refine ⟨fun flag hf => capRaised_capAfter ops hf,?_,?_⟩
    · rw [capIsFull_capAfter]
      exact ⟨And.left,fun hall => ⟨hall,hfull hall⟩⟩
    · rw [capIsEmpty_capAfter]
      exact ⟨And.left,fun hnone => ⟨hnone,hempty hnone⟩⟩

/-- With all 41 flags raised one by one the set is not full, and filled and with all of them lowered it is
not empty. -/
theorem cap_predicates_disagree :
    (∀ flag ∈ (List.range 41).map Int.ofNat,
      capRaised (capAfter ((List.range 41).map fun k => .raise k)) flag = true) ∧
    capIsFull (capAfter ((List.range 41).map fun k => .raise k)) = false ∧
    (∀ flag ∈ (List.range 41).map Int.ofNat,
      capRaised (capAfter (.setFull::(List.range 41).map fun k => .lower k)) flag = false) ∧
    capIsEmpty (capAfter (.setFull::(List.range 41).map fun k => .lower k)) = false := by
  decide +kernel

end Linuxab.Kernel
