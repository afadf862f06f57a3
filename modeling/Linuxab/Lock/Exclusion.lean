import Linuxab.Lock.Spinlock
import Linuxab.Lock.Tickets
import Mathlib.Order.Fin.Basic

/-! Processors that lock and unlock one ticket lock in a loop, under every interleaving of their atomic
steps. The lock words refine the ticket counters; from fifteen processors on two of them can get in. -/
namespace Linuxab.Lock
open Linuxab.Base

inductive SpinPc
  | idle
  | loaded (new : UInt32)
  | waiting (ticket : UInt16)
  | holding
  deriving DecidableEq

structure SpinSystem (n : ℕ) where
  lock : ArchSpinlock
  pc : Fin n → SpinPc

namespace SpinSystem
variable {n : ℕ} {s : SpinSystem n}

def start (n : ℕ) : SpinSystem n := ⟨.unlocked,fun _ => .idle⟩

/-- The next atomic step of a processor: the read of the tail, the xadd, a test of the loop, the unlock. -/
def step (s : SpinSystem n) (i : Fin n) : SpinSystem n :=
  match s.pc i with
  | .idle => { s with pc := Function.update s.pc i (.loaded (loadNew s.lock)) }
  | .loaded new =>
    let (old,lock) := xaddTail s.lock new
    ⟨lock,Function.update s.pc i (.waiting (ticketOf old))⟩
  | .waiting ticket => if isServed s.lock ticket then { s with pc := Function.update s.pc i .holding } else s
  | .holding => ⟨archSpinUnlock s.lock,Function.update s.pc i .idle⟩

def run (n : ℕ) (schedule : List (Fin n)) : SpinSystem n := schedule.foldl step (start n)

def Exclusive (s : SpinSystem n) : Prop := ∀ i j, s.pc i = .holding → s.pc j = .holding → i = j

section Refinement

/-- The low half of the tail stays 0. -/
structure Aligned (s : SpinSystem n) : Prop where
  tail : s.lock.tail.toNat % 65536 = 0
  new : ∀ i new, s.pc i = .loaded new → new.toNat % 65536 = 0

/-- The tail that was read is the value to add without the increment. -/
def absPc : SpinPc → TicketPc
  | .idle => .idle
  | .loaded new => .loaded ((new-65536).toNat/65536)
  | .waiting ticket => .waiting ticket.toNat
  | .holding => .holding

def abs (s : SpinSystem n) : Tickets n where
  head := s.lock.head.toNat % 65536
  next := s.lock.tail.toNat/65536
  pc := absPc ∘ s.pc

lemma absPc_eq_holding {pc : SpinPc} : absPc pc = .holding ↔ pc = .holding := by
  cases pc <;> simp [absPc]

lemma toNat_ticketOf (old : UInt32) : (ticketOf old).toNat = old.toNat/65536 := by
  have := old.toNat_lt
  simp [ticketOf,Nat.shiftRight_eq_div_pow]
  omega

lemma isServed_iff {lock : ArchSpinlock} {ticket : UInt16} :
    isServed lock ticket ↔ lock.head.toNat % 65536 = ticket.toNat := by
  simp [isServed,← UInt16.toNat_inj]

lemma seen_loadNew (lock : ArchSpinlock) : (loadNew lock-65536).toNat/65536 = lock.tail.toNat/65536 := by
  have h : loadNew lock-65536 = lock.tail := UInt32.add_sub_cancel _ _
  rw [h]

lemma mod_loadNew {lock : ArchSpinlock} (h : lock.tail.toNat % 65536 = 0) : (loadNew lock).toNat % 65536 = 0 := by
  have hinc : ((1 : UInt32) <<< 16).toNat = 65536 := by decide
  rw [loadNew,UInt32.toNat_add,hinc]
  omega

lemma mod_xaddTail {tail new : UInt32} (ht : tail.toNat % 65536 = 0) (hn : new.toNat % 65536 = 0) :
    (tail+new).toNat % 65536 = 0 := by
  rw [UInt32.toNat_add]
  omega

lemma next_xaddTail {tail new : UInt32} (ht : tail.toNat % 65536 = 0) (hn : new.toNat % 65536 = 0) :
    (tail+new).toNat/65536 = (tail.toNat/65536+((new-65536).toNat/65536+1)) % 65536 := by
  have htail := tail.toNat_lt
  have hnew := new.toNat_lt
  have hinc : (65536 : UInt32).toNat = 65536 := rfl
  rw [UInt32.toNat_add,UInt32.toNat_sub,hinc]
  omega

lemma Aligned.step (h : s.Aligned) (i : Fin n) : (s.step i).Aligned := by
  cases hpc : s.pc i with
  | idle =>
    simp only [SpinSystem.step,hpc]
    refine ⟨h.tail,fun j new hj => ?_⟩
    by_cases hnew : loadNew s.lock = new
    · exact hnew ▸ mod_loadNew h.tail
    · exact h.new j new (of_slots_update hj (by simpa using hnew)).2
  | loaded new =>
    simp only [SpinSystem.step,hpc]
    exact ⟨mod_xaddTail h.tail (h.new i new hpc),fun j new hj => h.new j new (of_slots_update hj (by simp)).2⟩
  | waiting ticket =>
    simp only [SpinSystem.step,hpc]
    split
    · exact ⟨h.tail,fun j new hj => h.new j new (of_slots_update hj (by simp)).2⟩
    · exact h
  | holding =>
    simp only [SpinSystem.step,hpc]
    exact ⟨h.tail,fun j new hj => h.new j new (of_slots_update hj (by simp)).2⟩

lemma abs_step (h : s.Aligned) (i : Fin n) : (s.step i).abs = s.abs.step i := by
  cases hpc : s.pc i with
  | idle => simp [step,Tickets.step,abs,hpc,absPc,Function.comp_update,seen_loadNew]
  | loaded new =>
    simp [step,Tickets.step,abs,hpc,absPc,Function.comp_update,xaddTail,toNat_ticketOf,
      next_xaddTail h.tail (h.new i new hpc),-UInt32.toNat_add]
  | waiting ticket =>
    by_cases hs : isServed s.lock ticket
    · simp [step,Tickets.step,abs,hpc,absPc,hs,isServed_iff.mp hs,Function.comp_update]
    · simp [step,Tickets.step,abs,hpc,absPc,hs,mt isServed_iff.mpr hs]
  | holding => simp [step,Tickets.step,abs,hpc,absPc,Function.comp_update,archSpinUnlock]

/-- The system of lock words and the one of ticket counters take the same steps. -/
lemma abs_run (schedule : List (Fin n)) :
    (run n schedule).Aligned ∧ (run n schedule).abs = schedule.foldl Tickets.step (Tickets.start n) := by
  induction schedule using List.reverseRecOn with
  | nil =>
    refine ⟨⟨rfl,fun i new h => by cases h⟩,?_⟩
    simp [run,start,abs,Tickets.start,ArchSpinlock.unlocked,Function.comp_def,absPc]
  | append_singleton schedule i ih =>
    simp only [run,List.foldl_append,List.foldl_cons,List.foldl_nil] at ih ⊢
    exact ⟨ih.1.step i,by rw [abs_step ih.1,ih.2]⟩

lemma exclusive_of_abs (h : s.abs.Exclusive) : s.Exclusive :=
  fun i j hi hj => h i j (absPc_eq_holding.mpr hi) (absPc_eq_holding.mpr hj)

end Refinement

section More

/-- The same system with more processors, all of them idle. -/
def extend {m : ℕ} (s : SpinSystem m) (n : ℕ) : SpinSystem n :=
  ⟨s.lock,fun i => if h : i.val < m then s.pc ⟨i,h⟩ else .idle⟩

lemma extend_update {m : ℕ} (h : m ≤ n) (lock : ArchSpinlock) (pc : Fin m → SpinPc) (i : Fin m) (a : SpinPc) :
    extend ⟨lock,Function.update pc i a⟩ n = ⟨lock,Function.update (extend ⟨lock,pc⟩ n).pc (i.castLE h) a⟩ := by
  simp only [extend,mk.injEq,true_and]
  funext j
  by_cases hj : j = i.castLE h
  · subst hj
    simp
  · have hne : ∀ hlt : j.val < m, (⟨j,hlt⟩ : Fin m) ≠ i := by
      rintro hlt rfl
      exact hj rfl
    simp only [Function.update_of_ne hj]
    split
    · rw [Function.update_of_ne (hne _)]
    · rfl

lemma extend_step {m : ℕ} (h : m ≤ n) (s : SpinSystem m) (i : Fin m) :
    (s.step i).extend n = (s.extend n).step (i.castLE h) := by
  have hpc : (s.extend n).pc (i.castLE h) = s.pc i := by simp [extend]
  unfold step
  rw [hpc]
  cases hi : s.pc i with
  | idle => exact extend_update h ..
  | loaded new => exact extend_update h ..
  | waiting ticket =>
    simp only
    by_cases hs : isServed s.lock ticket
    · simpa [hs,extend] using extend_update h s.lock s.pc i .holding
    · simp [hs,extend]
  | holding => exact extend_update h ..

lemma extend_run {m : ℕ} (h : m ≤ n) (schedule : List (Fin m)) :
    (run m schedule).extend n = run n (schedule.map (Fin.castLE h)) := by
  induction schedule using List.reverseRecOn with
  | nil => simp [run,start,extend]
  | append_singleton schedule i ih =>
    simp only [run,List.map_append,List.map_cons,List.map_nil,List.foldl_append,List.foldl_cons,
      List.foldl_nil] at ih ⊢
    rw [extend_step h,ih]

lemma Exclusive.of_extend {m : ℕ} (h : m ≤ n) {s : SpinSystem m} (hs : (s.extend n).Exclusive) : s.Exclusive := by
  intro i j hi hj
  exact Fin.castLE_injective h (hs (i.castLE h) (j.castLE h) (by simpa [extend] using hi) (by simpa [extend] using hj))

/-- Seven processors read a tail of 0 and take the first seven tickets. Of two that then read 7 one gets
in; fresh ones double the tail until the other's stale value takes it round to 7 again. -/
def twoHolders : List (Fin 15) :=
  [1,2,3,4,5,6,7] ++ [1,2,3,4,5,6,7].flatMap (List.replicate 3) ++ [0,8,0,0]
    ++ [1,2,3,4,5,6,7,9,10,11,12,13].flatMap (List.replicate 2) ++ [8,14,14,14]

lemma twoHolders_run : (run 15 twoHolders).pc 0 = .holding ∧ (run 15 twoHolders).pc 14 = .holding := by
  decide +kernel

lemma not_exclusive_twoHolders : ¬ (run 15 twoHolders).Exclusive := by
  intro h
  exact absurd (h 0 14 twoHolders_run.1 twoHolders_run.2) (by decide)

/-- Up to thirteen processors exclude each other in every interleaving, fifteen and more do not. -/
theorem spinlock_exclusive_iff (n : ℕ) (hn : n ≠ 14) : (∀ schedule, (run n schedule).Exclusive) ↔ n ≤ 13 := by
  constructor
  · intro h
    by_contra hlt
    have hle : 15 ≤ n := by omega
    have hrun := h (twoHolders.map (Fin.castLE hle))
    rw [← extend_run hle] at hrun
    exact not_exclusive_twoHolders (Exclusive.of_extend hle hrun)
  · intro hle schedule
    apply exclusive_of_abs
    rw [(abs_run schedule).2]
    exact Tickets.exclusive_run hle schedule

theorem spinlock_exclusive_iff_eight : (∀ schedule, (run 8 schedule).Exclusive) ∧ 8 ≤ 13 :=
  ⟨(spinlock_exclusive_iff 8 (by decide)).mpr (by decide),by decide⟩

/-- Processors 0 and 14 are both between lock and unlock. -/
theorem spinlock_not_exclusive : ∃ i j, i ≠ j ∧ (run 15 twoHolders).pc i = .holding ∧
    (run 15 twoHolders).pc j = .holding :=
  ⟨0,14,by decide,twoHolders_run⟩

end More
end SpinSystem
end Linuxab.Lock
