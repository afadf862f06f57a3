import Mathlib.Algebra.Group.Nat.Defs
import Mathlib.Data.Finset.Card
import Mathlib.Data.Finset.Filter
import Mathlib.Data.Int.Notation

/-! The address spaces of fork.c. Leaving an address space takes one from its count; sharing it through
`copy_mm` with `CLONE_VM` adds nothing. -/
namespace Linuxab.Kernel

def CLONE_VM : UInt64 := 0x100

/-- The tasks there are with their pointers, and the counts of the address spaces. -/
structure TaskTable (T M : Type*) where
  tasks : Finset T
  mm : T → Option M
  activeMm : T → Option M
  refcount : M → UInt32

inductive MmCall (T : Type*)
  | copyMm (current : T) (cloneFlags : UInt64) (tsk : T)
  | exitMm (tsk : T)

section Shares
variable {T : Type*}

/-- The call, with what it returned, put a task into an address space. -/
def Shared (c : MmCall T × ℤ) : Bool :=
  match c.1 with
  | .copyMm _ _ _ => c.2 = 0
  | .exitMm _ => false

def shares (calls : List (MmCall T × ℤ)) : ℕ := calls.countP Shared

theorem shares_append_singleton (calls : List (MmCall T × ℤ)) (c : MmCall T × ℤ) :
    shares (calls ++ [c]) = shares calls+if Shared c then 1 else 0 := by
  rw [shares,List.countP_append,List.countP_singleton,shares]

end Shares

namespace TaskTable
variable {T M : Type*} [DecidableEq T] [DecidableEq M]

/-- A write through a pointer; `none` if it is the null pointer. -/
def setRefcount (mm : Option M) (count : UInt32) (s : TaskTable T M) : Option (TaskTable T M) :=
  mm.map fun m => { s with refcount := Function.update s.refcount m count }

/-- The pointer it fills in is null. -/
def mmAlloc (s : TaskTable T M) : Option (Option M × TaskTable T M) :=
  (s.setRefcount none 1).map fun s => (none,s)

/-- Nothing is freed when the count gets to zero. -/
def mmput (mm : Option M) (s : TaskTable T M) : TaskTable T M :=
  match mm with
  | none => s
  | some m => { s with refcount := Function.update s.refcount m (s.refcount m-1) }

def dupMm (current : T) (s : TaskTable T M) : Option (Option M × TaskTable T M) :=
  match s.mm current with
  | none => some (none,s)
  | some _ => s.mmAlloc

def setMm (tsk : T) (mm : M) (s : TaskTable T M) : TaskTable T M :=
  { s with mm := Function.update s.mm tsk (some mm), activeMm := Function.update s.activeMm tsk (some mm) }

/-- The return value and the state; `none` if the kernel writes through the null pointer. -/
def copyMm (current : T) (cloneFlags : UInt64) (tsk : T) (s : TaskTable T M) : Option (ℤ × TaskTable T M) :=
  if cloneFlags &&& CLONE_VM ≠ 0 then
    match s.mm current with
    | none => some (-1,s)
    | some mm => some (0,s.setMm tsk mm)
  else do
    let (mm,s) ← s.dupMm current
    match mm with
    | none => return (-1,s)
    | some mm => return (0,s.setMm tsk mm)

def exitMm (tsk : T) (s : TaskTable T M) : TaskTable T M :=
  match s.mm tsk with
  | none => s
  | some mm => { s with mm := Function.update s.mm tsk none }.mmput (some mm)

/-! ## Runs -/

/-- A call with its result; the task that is copied into is one of the tasks from then on. -/
def call (s : TaskTable T M) : MmCall T → Option (ℤ × TaskTable T M)
  | .copyMm current cloneFlags tsk =>
    (s.copyMm current cloneFlags tsk).map fun r => (r.1,{ r.2 with tasks := insert tsk r.2.tasks })
  | .exitMm tsk => some (0,s.exitMm tsk)

/-- A task shares its address space with a fresh one, or one of the tasks leaves. -/
def Allowed (s : TaskTable T M) : MmCall T → Prop
  | .copyMm current cloneFlags tsk => current ∈ s.tasks ∧ tsk ∉ s.tasks ∧ cloneFlags &&& CLONE_VM ≠ 0
  | .exitMm tsk => tsk ∈ s.tasks

/-- The calls with what they returned, and the state they lead to. -/
inductive Run (start : TaskTable T M) : List (MmCall T × ℤ) → TaskTable T M → Prop
  | nil : Run start [] start
  | snoc {calls : List (MmCall T × ℤ)} {s s' : TaskTable T M} {c : MmCall T} {r : ℤ} (h : Run start calls s)
      (allowed : s.Allowed c) (hcall : s.call c = some (r,s')) : Run start (calls ++ [(c,r)]) s'

/-- One task with an address space that is counted once. -/
def single (tsk : T) (m : M) (activeMm : T → Option M) (refcount : M → UInt32) : TaskTable T M :=
  ⟨{tsk},fun t => if t = tsk then some m else none,activeMm,Function.update refcount m 1⟩

def users (s : TaskTable T M) (m : M) : ℕ := (s.tasks.filter fun t => s.mm t = some m).card

section Users
variable {s : TaskTable T M} {tsk : T} {m : M}

theorem users_setMm (hfresh : tsk ∉ s.tasks) :
    users { s.setMm tsk m with tasks := insert tsk s.tasks } m = s.users m+1 := by
  have hold : s.tasks.filter (fun t => Function.update s.mm tsk (some m) t = some m) =
      s.tasks.filter fun t => s.mm t = some m := by
    apply Finset.filter_congr
    intro t ht
    have hne : t ≠ tsk := fun heq => hfresh (heq ▸ ht)
    rw [Function.update_of_ne hne]
  change ((insert tsk s.tasks).filter fun t => Function.update s.mm tsk (some m) t = some m).card = _
  rw [Finset.filter_insert,if_pos (Function.update_self ..),Finset.card_insert_of_notMem,hold,users]
  exact fun h => hfresh (Finset.mem_filter.mp h).1

theorem users_exitMm (htask : tsk ∈ s.tasks) (hmm : s.mm tsk = some m) : (s.exitMm tsk).users m+1 = s.users m := by
  have hleft : s.tasks.filter (fun t => Function.update s.mm tsk none t = some m) =
      (s.tasks.filter fun t => s.mm t = some m).erase tsk := by
    apply Finset.ext
    intro t
    rw [Finset.mem_erase,Finset.mem_filter,Finset.mem_filter]
    obtain rfl | hne := eq_or_ne t tsk
    · simp
    · rw [Function.update_of_ne hne]
      exact ⟨fun h => ⟨hne,h⟩,fun h => h.2⟩
  rw [exitMm,hmm]
  change (s.tasks.filter fun t => Function.update s.mm tsk none t = some m).card+1 = _
  rw [hleft,Finset.card_erase_add_one (Finset.mem_filter.mpr ⟨htask,hmm⟩),users]

end Users

/-- What holds after `k` calls that shared the address space: every user but for those is counted. -/
structure Accounts (m : M) (k : ℕ) (s : TaskTable T M) : Prop where
  fresh : ∀ t ∉ s.tasks, s.mm t = none
  only : ∀ t m', s.mm t = some m' → m' = m
  count : ((s.refcount m).toNat+k)%2^32 = s.users m%2^32
  bound : s.users m ≤ k+1

theorem accounts_single (tsk : T) (m : M) (activeMm : T → Option M) (refcount : M → UInt32) :
    Accounts m 0 (single tsk m activeMm refcount) := by
  have husers : users (single tsk m activeMm refcount) m = 1 := by
    simp [users,single,Finset.filter_singleton]
  refine ⟨?_,?_,?_,?_⟩
  · intro t ht
    exact if_neg (Finset.notMem_singleton.mp ht)
  · intro t m' h
    simp only [single] at h
    split at h
    · exact (Option.some.inj h).symm
    · cases h
  · rw [husers]
    simp [single]
  · rw [husers]

section Steps
variable {s s' : TaskTable T M} {m : M} {k : ℕ} {c : MmCall T} {r : ℤ}

/-- A fresh task without an address space is one of the tasks now. -/
theorem Accounts.enter (h : Accounts m k s) {tsk : T} (hmm : s.mm tsk = none) :
    Accounts m k { s with tasks := insert tsk s.tasks } := by
  have husers : users { s with tasks := insert tsk s.tasks } m = s.users m := by
    simp only [users]
    rw [Finset.filter_insert,if_neg]
    rw [hmm]
    exact nofun
  refine ⟨?_,h.only,?_,?_⟩
  · exact fun t ht => h.fresh t fun hmem => ht (Finset.mem_insert_of_mem hmem)
  · rw [husers]
    exact h.count
  · rw [husers]
    exact h.bound

/-- The user is new, the count is the old one. -/
theorem Accounts.share (h : Accounts m k s) {tsk : T} (hfresh : tsk ∉ s.tasks) :
    Accounts m (k+1) { s.setMm tsk m with tasks := insert tsk s.tasks } := by
  have husers := users_setMm (m := m) hfresh
  have hcount := h.count
  have hbound := h.bound
  refine ⟨?_,?_,?_,?_⟩
  · intro t ht
    have hne : t ≠ tsk := fun heq => ht (heq ▸ Finset.mem_insert_self tsk s.tasks)
    exact (Function.update_of_ne hne _ _).trans (h.fresh t fun hmem => ht (Finset.mem_insert_of_mem hmem))
  · intro t m' hmm
    obtain rfl | hne := eq_or_ne t tsk
    · exact (Option.some.inj ((Function.update_self t _ _).symm.trans hmm)).symm
    · exact h.only t m' ((Function.update_of_ne hne _ _).symm.trans hmm)
  · rw [husers]
    change ((s.refcount m).toNat+(k+1))%2^32 = _
    omega
  · omega

/-- The user and its place in the count go together. -/
theorem Accounts.exitMm (h : Accounts m k s) {tsk : T} (htask : tsk ∈ s.tasks) : Accounts m k (s.exitMm tsk) := by
  cases hmm : s.mm tsk with
  | none =>
    rw [TaskTable.exitMm,hmm]
    exact h
  | some m' =>
    obtain rfl := h.only tsk m' hmm
    have husers := users_exitMm htask hmm
    have hcount := h.count
    have hbound := h.bound
    have hleft : s.exitMm tsk = ⟨s.tasks,Function.update s.mm tsk none,s.activeMm,
        Function.update s.refcount m' (s.refcount m'-1)⟩ := by
      rw [TaskTable.exitMm,hmm]
      rfl
    refine ⟨?_,?_,?_,?_⟩
    · intro t ht
      rw [hleft] at ht ⊢
      obtain rfl | hne := eq_or_ne t tsk
      · exact Function.update_self ..
      · exact (Function.update_of_ne hne _ _).trans (h.fresh t ht)
    · intro t m₁ ht
      rw [hleft] at ht
      obtain rfl | hne := eq_or_ne t tsk
      · cases (Function.update_self t _ _).symm.trans ht
      · exact h.only t m₁ ((Function.update_of_ne hne _ _).symm.trans ht)
    · have hsub : ((s.exitMm tsk).refcount m').toNat = (2^32-1+(s.refcount m').toNat)%2^32 := by
        rw [hleft]
        simp only [Function.update_self,UInt32.toNat_sub]
        rfl
      rw [hsub]
      omega
    · omega

theorem Accounts.call (h : Accounts m k s) (hc : s.Allowed c) (hcall : s.call c = some (r,s')) :
    Accounts m (k+if Shared (c,r) then 1 else 0) s' := by
  cases c with
  | exitMm tsk =>
    obtain ⟨rfl,rfl⟩ := Prod.mk.inj (Option.some.inj hcall)
    exact h.exitMm hc
  | copyMm current cloneFlags tsk =>
    obtain ⟨-,hfresh,hflag⟩ := hc
    simp only [TaskTable.call,copyMm,if_pos hflag] at hcall
    cases hmm : s.mm current with
    | none =>
      rw [hmm] at hcall
      obtain ⟨rfl,rfl⟩ := Prod.mk.inj (Option.some.inj hcall)
      exact h.enter (h.fresh tsk hfresh)
    | some m' =>
      obtain rfl := h.only current m' hmm
      rw [hmm] at hcall
      obtain ⟨rfl,rfl⟩ := Prod.mk.inj (Option.some.inj hcall)
      exact h.share hfresh

end Steps

theorem Run.accounts {tsk : T} {m : M} {activeMm : T → Option M} {refcount : M → UInt32} {calls : List (MmCall T × ℤ)}
    {s : TaskTable T M} (h : Run (single tsk m activeMm refcount) calls s) : Accounts m (shares calls) s := by
  induction h with
  | nil => exact accounts_single tsk m activeMm refcount
  | snoc _ hallowed hcall ih =>
    rw [shares_append_singleton]
    exact ih.call hallowed hcall

end TaskTable
open TaskTable

section Results
variable {T M : Type*} [DecidableEq T] [DecidableEq M] {tsk : T} {m : M} {activeMm : T → Option M}
  {refcount : M → UInt32} {calls : List (MmCall T × ℤ)} {s : TaskTable T M}

end Results

/-- The task 0, alone in an address space. -/
def loneTask : TaskTable ℕ Unit := single 0 () (fun _ => none) fun _ => 0

/-- The task 0 and a task 1 that shares its address space. -/
def twoTasks : TaskTable ℕ Unit := { loneTask.setMm 1 () with tasks := insert 1 loneTask.tasks }

end Linuxab.Kernel
