import Linuxab.Base.Slots
import Mathlib.Algebra.Order.BigOperators.Group.Finset

/-! The reader/writer lock of `kernel/spinlock.h` under every interleaving of loads, compare-and-swaps and
unlocks, by processors that may take the read lock several times. -/
namespace Linuxab.Lock
open Linuxab.Base

/-- `__sync_bool_compare_and_swap`: the new word if the swap takes place. -/
def compareAndSwap (lock old new : UInt32) : Option UInt32 := if lock = old then some new else none

/-- The rest of a round of `arch_read_lock` after the load of `tmp`. -/
def archReadLockTry (lock tmp : UInt32) : Option UInt32 :=
  if tmp &&& 1 = 0 ∧ tmp ≠ ~~~0 then compareAndSwap lock tmp (tmp+2) else none

/-- The rest of a round of `arch_write_lock` after the load of `tmp`. -/
def archWriteLockTry (lock tmp : UInt32) : Option UInt32 :=
  if tmp = 0 then compareAndSwap lock 0 1 else none

def archReadUnlock (lock : UInt32) : UInt32 := lock-2

/-- `__sync_lock_release` stores 0. -/
def archWriteUnlock : UInt32 := 0

/-- Where a processor is in the two lock functions. -/
inductive RwPc
  | outside
  | readLoad
  | readSwap (tmp : UInt32)
  | writeLoad
  | writeSwap (tmp : UInt32)
  deriving DecidableEq

structure RwCpu where
  pc : RwPc
  reads : ℕ
  writing : Bool
  deriving DecidableEq

structure RwSystem (ι : Type*) where
  lock : UInt32
  cpu : ι → RwCpu

inductive RwAction
  | readLock
  | writeLock
  | resume
  | readUnlock
  | writeUnlock

namespace RwSystem

section Counts
variable {ι : Type*} [Fintype ι] {s : RwSystem ι}

def readLocks (s : RwSystem ι) : ℕ := ∑ i, (s.cpu i).reads

def writeLocks (s : RwSystem ι) : ℕ := ∑ i, (s.cpu i).writing.toNat

lemma writing_le (s : RwSystem ι) (i : ι) : (s.cpu i).writing.toNat ≤ s.writeLocks :=
  Finset.single_le_sum (fun j _ => Nat.zero_le (s.cpu j).writing.toNat) (Finset.mem_univ i)

lemma reads_le (s : RwSystem ι) (i : ι) : (s.cpu i).reads ≤ s.readLocks :=
  Finset.single_le_sum (fun j _ => Nat.zero_le (s.cpu j).reads) (Finset.mem_univ i)

lemma writeLocks_eq_zero : s.writeLocks = 0 ↔ ¬ ∃ i, (s.cpu i).writing := by
  simp [writeLocks]

end Counts

variable {ι : Type*} [DecidableEq ι]

/-- `__ARCH_RW_LOCK_UNLOCKED`, with every processor outside. -/
def unlocked : RwSystem ι := ⟨0,fun _ => ⟨.outside,0,false⟩⟩

def goto (s : RwSystem ι) (i : ι) (pc : RwPc) : RwSystem ι :=
  { s with cpu := Function.update s.cpu i { s.cpu i with pc := pc } }

/-- One step of the loop that the processor is in. -/
def resume (s : RwSystem ι) (i : ι) : Option (RwSystem ι) :=
  match (s.cpu i).pc with
  | .outside => none
  | .readLoad => some (s.goto i (.readSwap s.lock))
  | .readSwap tmp =>
    match archReadLockTry s.lock tmp with
    | some lock => some ⟨lock,Function.update s.cpu i { s.cpu i with pc := .outside, reads := (s.cpu i).reads+1 }⟩
    | none => some (s.goto i .readLoad)
  | .writeLoad => some (s.goto i (.writeSwap s.lock))
  | .writeSwap tmp =>
    match archWriteLockTry s.lock tmp with
    | some lock => some ⟨lock,Function.update s.cpu i { s.cpu i with pc := .outside, writing := true }⟩
    | none => some (s.goto i .writeLoad)

/-- The lock functions are entered from outside, the unlocks are for holders. -/
def step (s : RwSystem ι) (i : ι) : RwAction → Option (RwSystem ι)
  | .readLock => if (s.cpu i).pc = .outside then some (s.goto i .readLoad) else none
  | .writeLock => if (s.cpu i).pc = .outside then some (s.goto i .writeLoad) else none
  | .resume => s.resume i
  | .readUnlock =>
    if (s.cpu i).pc = .outside ∧ 0 < (s.cpu i).reads then
      some ⟨archReadUnlock s.lock,Function.update s.cpu i { s.cpu i with reads := (s.cpu i).reads-1 }⟩
    else none
  | .writeUnlock =>
    if (s.cpu i).pc = .outside ∧ (s.cpu i).writing then
      some ⟨archWriteUnlock,Function.update s.cpu i { s.cpu i with writing := false }⟩
    else none

/-- What a step can do: move a processor, take or give back a read lock or the write lock. Whatever was
loaded before, a swap that takes place has tested the present word. -/
inductive Effect (s : RwSystem ι) (i : ι) : RwSystem ι → Prop
  | moved (pc : RwPc) : Effect s i (s.goto i pc)
  | readTaken (pc : RwPc) (h : s.lock &&& 1 = 0) :
      Effect s i ⟨s.lock+2,Function.update s.cpu i { s.cpu i with pc := pc, reads := (s.cpu i).reads+1 }⟩
  | writeTaken (pc : RwPc) (h : s.lock = 0) :
      Effect s i ⟨1,Function.update s.cpu i { s.cpu i with pc := pc, writing := true }⟩
  | readGiven (h : 0 < (s.cpu i).reads) :
      Effect s i ⟨s.lock-2,Function.update s.cpu i { s.cpu i with reads := (s.cpu i).reads-1 }⟩
  | writeGiven (h : (s.cpu i).writing = true) :
      Effect s i ⟨0,Function.update s.cpu i { s.cpu i with writing := false }⟩

variable {s s' : RwSystem ι} {i : ι}

lemma archReadLockTry_eq_some {lock tmp new : UInt32} (h : archReadLockTry lock tmp = some new) :
    lock &&& 1 = 0 ∧ new = lock+2 := by
  simp only [archReadLockTry,compareAndSwap] at h
  split_ifs at h with htest heq
  subst heq
  exact ⟨htest.1,(Option.some.inj h).symm⟩

lemma archWriteLockTry_eq_some {lock tmp new : UInt32} (h : archWriteLockTry lock tmp = some new) :
    lock = 0 ∧ new = 1 := by
  simp only [archWriteLockTry,compareAndSwap] at h
  split_ifs at h with htest heq
  exact ⟨heq,(Option.some.inj h).symm⟩

lemma effect_of_resume (h : s.resume i = some s') : Effect s i s' := by
  cases hpc : (s.cpu i).pc with
  | outside => simp [resume,hpc] at h
  | readLoad =>
    simp only [resume,hpc,Option.some.injEq] at h
    exact h ▸ .moved _
  | readSwap tmp =>
    simp only [resume,hpc] at h
    cases htry : archReadLockTry s.lock tmp with
    | none =>
      simp only [htry,Option.some.injEq] at h
      exact h ▸ .moved _
    | some lock =>
      obtain ⟨heven,rfl⟩ := archReadLockTry_eq_some htry
      simp only [htry,Option.some.injEq] at h
      exact h ▸ .readTaken _ heven
  | writeLoad =>
    simp only [resume,hpc,Option.some.injEq] at h
    exact h ▸ .moved _
  | writeSwap tmp =>
    simp only [resume,hpc] at h
    cases htry : archWriteLockTry s.lock tmp with
    | none =>
      simp only [htry,Option.some.injEq] at h
      exact h ▸ .moved _
    | some lock =>
      obtain ⟨hfree,rfl⟩ := archWriteLockTry_eq_some htry
      simp only [htry,Option.some.injEq] at h
      exact h ▸ .writeTaken _ hfree

lemma effect_of_step {a : RwAction} (h : s.step i a = some s') : Effect s i s' := by
  cases a with
  | readLock =>
    simp only [step,Option.ite_none_right_eq_some,Option.some.injEq] at h
    exact h.2 ▸ .moved _
  | writeLock =>
    simp only [step,Option.ite_none_right_eq_some,Option.some.injEq] at h
    exact h.2 ▸ .moved _
  | resume => exact effect_of_resume h
  | readUnlock =>
    simp only [step,Option.ite_none_right_eq_some,Option.some.injEq] at h
    exact h.2 ▸ .readGiven h.1.2
  | writeUnlock =>
    simp only [step,Option.ite_none_right_eq_some,Option.some.injEq] at h
    exact h.2 ▸ .writeGiven h.1.2

section Invariant
variable [Fintype ι]

/-- The states reached while there are fewer than 2³¹-1 read locks. -/
inductive Reachable : RwSystem ι → Prop
  | start : Reachable unlocked
  | step {s s' : RwSystem ι} {i : ι} {a : RwAction} (h : Reachable s) (hs : s.step i a = some s')
      (hreads : s'.readLocks < 2^31-1) : Reachable s'

/-- The word counts a writer once and a reader twice. -/
structure Counted (s : RwSystem ι) : Prop where
  bound : s.readLocks < 2^31-1
  lock : s.lock.toNat = s.writeLocks+2*s.readLocks
  excl : s.writeLocks = 0 ∨ s.writeLocks = 1 ∧ s.readLocks = 0

/-- A step that replaces one processor and the word, from what it adds to the counts. -/
lemma counted_update {lock : UInt32} {c : RwCpu} (hbound : readLocks ⟨lock,Function.update s.cpu i c⟩ < 2^31-1)
    (h : ∀ r w, r+(s.cpu i).reads = s.readLocks+c.reads →
      w+(s.cpu i).writing.toNat = s.writeLocks+c.writing.toNat → r < 2^31-1 →
      lock.toNat = w+2*r ∧ (w = 0 ∨ w = 1 ∧ r = 0)) : Counted ⟨lock,Function.update s.cpu i c⟩ := by
  obtain ⟨hlock,hexcl⟩ := h _ _ (sum_slots_update RwCpu.reads s.cpu i c)
    (sum_slots_update (fun c => c.writing.toNat) s.cpu i c) hbound
  exact ⟨hbound,hlock,hexcl⟩

/-- The step lemma; `hbound` bounds the read locks after the step. -/
lemma Counted.effect (h : s.Counted) (he : Effect s i s') (hbound : s'.readLocks < 2^31-1) : s'.Counted := by
  obtain ⟨hreads,hlock,hexcl⟩ := h
  have hiw := writing_le s i
  have hir := reads_le s i
  cases he with
  | moved pc =>
    apply counted_update hbound
    intro r w hr hw _
    simp only at hr hw
    omega
  | readTaken pc heven =>
    have hmod : s.lock.toNat % 2 = 0 := by simpa [Nat.and_one_is_mod] using congrArg UInt32.toNat heven
    have htwo : (2 : UInt32).toNat = 2 := rfl
    apply counted_update hbound
    intro r w hr hw hb
    simp only [UInt32.toNat_add,htwo] at hr hw ⊢
    omega
  | writeTaken pc hfree =>
    have hzero : s.lock.toNat = 0 := congrArg UInt32.toNat hfree
    have hone : (1 : UInt32).toNat = 1 := rfl
    apply counted_update hbound
    intro r w hr hw _
    simp only [hone,Bool.toNat_true] at hr hw ⊢
    omega
  | readGiven hpos =>
    have htwo : (2 : UInt32).toNat = 2 := rfl
    apply counted_update hbound
    intro r w hr hw hb
    simp only [UInt32.toNat_sub,htwo] at hr hw ⊢
    omega
  | writeGiven hwriting =>
    have hzero : (0 : UInt32).toNat = 0 := rfl
    apply counted_update hbound
    intro r w hr hw _
    simp only [hzero,hwriting,Bool.toNat_true,Bool.toNat_false] at hr hw hiw ⊢
    omega

lemma Reachable.counted (h : Reachable s) : s.Counted := by
  induction h with
  | start => exact ⟨by simp [readLocks,unlocked],by simp [readLocks,writeLocks,unlocked],
      .inl (by simp [writeLocks,unlocked])⟩
  | step _ hs hreads ih => exact ih.effect (effect_of_step hs) hreads

/-- Two writers count twice. -/
lemma writers_eq {j : ι} (h : s.writeLocks ≤ 1) (hi : (s.cpu i).writing) (hj : (s.cpu j).writing) : i = j := by
  by_contra hne
  have hpair : ∑ k ∈ {i,j}, (s.cpu k).writing.toNat ≤ s.writeLocks :=
    Finset.sum_le_univ_sum_of_nonneg fun k => Nat.zero_le _
  rw [Finset.sum_pair hne,hi,hj] at hpair
  simp only [Bool.toNat_true] at hpair
  omega

/-- A writer holds the lock alone, and the lock word tells who holds it. -/
theorem rwlock_exclusive (s : RwSystem ι) (h : Reachable s) :
    (∀ i j, (s.cpu i).writing → (s.cpu j).writing → i = j) ∧
      (∀ i j, (s.cpu i).writing → (s.cpu j).reads = 0) ∧
      s.lock.toNat = if ∃ i, (s.cpu i).writing then 1 else 2*s.readLocks := by
  obtain ⟨-,hlock,hexcl⟩ := h.counted
  refine ⟨fun i j => writers_eq (by omega),fun i j hi => ?_,?_⟩
  · have hw := writing_le s i
    have hr := reads_le s j
    rw [hi,Bool.toNat_true] at hw
    omega
  · by_cases hw : ∃ i, (s.cpu i).writing
    · have hpos := mt writeLocks_eq_zero.mp (not_not.mpr hw)
      rw [if_pos hw]
      omega
    · have hzero := writeLocks_eq_zero.mpr hw
      rw [if_neg hw]
      omega

/-- One processor has the read lock, the other one has loaded its word for writing. -/
theorem rwlock_exclusive_reader : ∃ s : RwSystem (Fin 2), Reachable s ∧ (s.cpu 0).reads = 1 ∧
    (s.cpu 1).pc = .writeSwap 2 ∧ ∀ i, ¬ (s.cpu i).writing := by
  have h₁ : Reachable (goto (unlocked (ι := Fin 2)) 0 .readLoad) :=
    .step (i := 0) (a := .readLock) .start rfl (by decide)
  have h₂ := Reachable.step (i := 0) (a := .resume) h₁ rfl (by decide)
  have h₃ := Reachable.step (i := 0) (a := .resume) h₂ rfl (by decide)
  have h₄ := Reachable.step (i := 1) (a := .writeLock) h₃ rfl (by decide)
  have h₅ := Reachable.step (i := 1) (a := .resume) h₄ rfl (by decide)
  refine ⟨_,h₅,rfl,rfl,fun i hi => ?_⟩
  exact absurd ((rwlock_exclusive _ h₅).2.1 i 0 hi) (by decide)

end Invariant
end RwSystem
end Linuxab.Lock
