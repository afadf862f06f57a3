import Mathlib.Data.List.Infix

/-! The ticket lock of `kernel/spinlock.h`. The value that `arch_spin_lock` adds to `tail` is not the
increment but the tail it read before plus the increment, so the tickets grow like powers of two. -/
namespace Linuxab.Lock

structure ArchSpinlock where
  head : UInt32
  tail : UInt32
  deriving DecidableEq

/-- `__ARCH_SPIN_LOCK_UNLOCKED` -/
def ArchSpinlock.unlocked : ArchSpinlock := ⟨0,0⟩

def archSpinIsLocked (lock : ArchSpinlock) : Bool := lock.tail != lock.head

section Acquire

/-- `uint32_t new = lock->tail + inc;` -/
def loadNew (lock : ArchSpinlock) : UInt32 := lock.tail+((1 : UInt32) <<< 16)

/-- `lock; xaddl`: the old tail, and the lock with `new` added to it. -/
def xaddTail (lock : ArchSpinlock) (new : UInt32) : UInt32 × ArchSpinlock :=
  (lock.tail,{ lock with tail := lock.tail+new })

/-- `uint16_t ticket = old >> 16;` -/
def ticketOf (old : UInt32) : UInt16 := (old >>> 16).toUInt16

/-- `uint16_t now = lock->head; now == ticket` -/
def isServed (lock : ArchSpinlock) (ticket : UInt16) : Bool := lock.head.toUInt16 == ticket

/-- The `for (;;)` loop on a lock that nobody else changes: the rounds of `rep; nop` before it is
left, if it is left within `fuel` tests. -/
def spin (lock : ArchSpinlock) (ticket : UInt16) : ℕ → Option ℕ
  | 0 => none
  | fuel+1 => if isServed lock ticket then some 0 else (spin lock ticket fuel).map (·+1)

/-- The rounds spent spinning and the lock afterwards. -/
def archSpinLock (fuel : ℕ) (lock : ArchSpinlock) : Option (ℕ × ArchSpinlock) :=
  let (old,lock) := xaddTail lock (loadNew lock)
  (spin lock (ticketOf old) fuel).map (·,lock)

def archSpinTrylock (lock : ArchSpinlock) : Bool × ArchSpinlock :=
  let old := lock.head
  let new := old+((1 : UInt32) <<< 16)
  if old ≠ lock.tail >>> 16 then (false,lock)
  -- cmpxchgl compares the tail with the head that was read
  else if lock.tail = old then (true,{ lock with tail := new })
  else (false,lock)

def archSpinUnlock (lock : ArchSpinlock) : ArchSpinlock := { lock with head := lock.head+1 }

/-- The loop is left at its first test or never. -/
lemma spin_eq_none {lock : ArchSpinlock} {ticket : UInt16} (h : isServed lock ticket = false) (fuel : ℕ) :
    spin lock ticket fuel = none := by
  induction fuel with
  | zero => rfl
  | succ fuel ih => simp [spin,h,ih]

end Acquire

section Uncontended

inductive SpinOp
  | lock
  | trylock
  | unlock
  deriving DecidableEq

/-- Acquisitions and unlocks take turns; `held` tells whose turn it is. -/
def Alternates : Bool → List SpinOp → Prop
  | _,[] => True
  | false,op::ops => op ≠ .unlock ∧ Alternates true ops
  | true,op::ops => op = .unlock ∧ Alternates false ops

/-- The lock after the operation. A lock operation has changed the tail even if it spins. -/
def SpinOp.apply (lock : ArchSpinlock) : SpinOp → ArchSpinlock
  | .lock => (xaddTail lock (loadNew lock)).2
  | .trylock => (archSpinTrylock lock).2
  | .unlock => archSpinUnlock lock

def lockAfter (ops : List SpinOp) : ArchSpinlock := ops.foldl SpinOp.apply .unlocked

/-- Whether the CPU holds the lock after the operations. -/
def heldAfter (ops : List SpinOp) : Bool := ops.foldl (fun _ op => op != .unlock) false

/-- `arch_spin_lock` finishes without spinning, `arch_spin_trylock` returns true. -/
def SpinOp.Succeeds (lock : ArchSpinlock) : SpinOp → Prop
  | .lock => ∃ fuel lock', archSpinLock fuel lock = some (0,lock')
  | .trylock => (archSpinTrylock lock).1 = true
  | .unlock => True

def AcquisitionsSucceed (ops : List SpinOp) : Prop :=
  ∀ pre op, pre ++ [op] <+: ops → op.Succeeds (lockAfter pre)

def LockedWhileHeld (ops : List SpinOp) : Prop :=
  ∀ pre, pre <+: ops → archSpinIsLocked (lockAfter pre) = heldAfter pre

lemma lock_succeeds_iff (lock : ArchSpinlock) :
    SpinOp.Succeeds lock .lock ↔ isServed (xaddTail lock (loadNew lock)).2 (ticketOf lock.tail) = true := by
  constructor
  · rintro ⟨fuel,lock',h⟩
    by_contra hs
    simp only [archSpinLock,xaddTail] at h hs
    rw [spin_eq_none (by simpa using hs)] at h
    cases h
  · intro hs
    refine ⟨1,(xaddTail lock (loadNew lock)).2,?_⟩
    simp only [xaddTail] at hs
    simp [archSpinLock,xaddTail,spin,hs]

instance (lock : ArchSpinlock) (op : SpinOp) : Decidable (op.Succeeds lock) :=
  match op with
  | .lock => decidable_of_iff _ (lock_succeeds_iff lock).symm
  | .trylock => inferInstanceAs (Decidable (_ = _))
  | .unlock => inferInstanceAs (Decidable True)

lemma AcquisitionsSucceed.of_initial {ops ops' : List SpinOp} (h : AcquisitionsSucceed ops') (hp : ops <+: ops') :
    AcquisitionsSucceed ops :=
  fun pre op hop => h pre op (hop.trans hp)

lemma acquisitionsSucceed_concat {ops : List SpinOp} {op : SpinOp} (h : AcquisitionsSucceed ops)
    (hop : op.Succeeds (lockAfter ops)) : AcquisitionsSucceed (ops ++ [op]) := by
  intro pre op' hp
  rcases List.prefix_concat_iff.mp hp with he | hp
  · obtain ⟨rfl,hlast⟩ := List.append_inj' he rfl
    rwa [List.singleton_inj.mp hlast]
  · exact h pre op' hp

/-- Two acquisitions succeed if the second one is not a trylock. -/
lemma acquisitionsSucceed_two {a : SpinOp} (ha : a ≠ .unlock) :
    AcquisitionsSucceed [a,.unlock,.lock,.unlock] := by
  have h₀ : AcquisitionsSucceed [] := by
    intro pre op hp
    simp at hp
  have h₁ : AcquisitionsSucceed [a] := acquisitionsSucceed_concat h₀ (by cases a <;> decide)
  have h₂ : AcquisitionsSucceed [a,.unlock] := acquisitionsSucceed_concat h₁ trivial
  have h₃ : AcquisitionsSucceed [a,.unlock,.lock] := by
    apply acquisitionsSucceed_concat h₂
    cases a with
    | lock => decide
    | trylock => decide
    | unlock => exact absurd rfl ha
  exact acquisitionsSucceed_concat h₃ trivial

/-- After the first unlock a trylock fails, and after the second one every acquisition. -/
lemma prefix_of_acquisitionsSucceed {ops : List SpinOp} (hops : Alternates false ops) (h : AcquisitionsSucceed ops) :
    ∃ a, ops <+: [a,.unlock,.lock,.unlock] := by
  match ops,hops with
  | [],_ => exact ⟨.lock,List.nil_prefix⟩
  | [a],_ => exact ⟨a,by simp⟩
  | [a,_],⟨_,rfl,_⟩ => exact ⟨a,by simp⟩
  | a::_::b::rest,⟨ha,rfl,hb,hrest⟩ =>
    have hsecond : b.Succeeds (lockAfter [a,.unlock]) := h [a,.unlock] b (by simp)
    have hlock : b = .lock := by
      cases a <;> cases b <;> first | rfl | exact absurd rfl ha | exact absurd rfl hb | exact absurd hsecond (by decide)
    subst hlock
    refine ⟨a,?_⟩
    match rest,hrest with
    | [],_ => simp
    | [_],⟨rfl,_⟩ => simp
    | _::c::_,⟨rfl,hc,_⟩ =>
      have hthird : c.Succeeds (lockAfter [a,.unlock,.lock,.unlock]) := h [a,.unlock,.lock,.unlock] c (by simp)
      cases a <;> cases c <;> first | exact absurd rfl ha | exact absurd rfl hc | exact absurd hthird (by decide)

/-- The first unlock leaves a lock that looks held. -/
lemma lockedWhileHeld_iff {ops : List SpinOp} (hops : Alternates false ops) :
    LockedWhileHeld ops ↔ .unlock ∉ ops := by
  match ops,hops with
  | [],_ =>
    have h : LockedWhileHeld [] := by
      intro pre hp
      rw [List.prefix_nil.mp hp]
      decide
    simpa using h
  | [a],⟨ha,_⟩ =>
    have h : LockedWhileHeld [a] := by
      intro pre hp
      rcases List.prefix_concat_iff.mp (show pre <+: [] ++ [a] from hp) with rfl | hp
      · cases a <;> first | decide | exact absurd rfl ha
      · rw [List.prefix_nil.mp hp]
        decide
    simpa [h] using Ne.symm ha
  | a::_::rest,⟨ha,rfl,_⟩ =>
    have h : ¬ LockedWhileHeld (a::.unlock::rest) := by
      intro h
      have := h [a,.unlock] (by simp)
      cases a <;> revert this <;> decide
    simp [h]

/-- Of the alternating sequences, those with at most two acquisitions of which the second is an
`arch_spin_lock` get the lock at once every time, and only before the first unlock is
`arch_spin_is_locked` right. -/
theorem uncontended_works_iff (ops : List SpinOp) (h : Alternates false ops) :
    (AcquisitionsSucceed ops ↔ ∃ a, ops <+: [a,.unlock,.lock,.unlock]) ∧
      (LockedWhileHeld ops ↔ .unlock ∉ ops) := by
  refine ⟨⟨prefix_of_acquisitionsSucceed h,?_⟩,lockedWhileHeld_iff h⟩
  rintro ⟨a,hp⟩
  by_cases ha : a = .unlock
  · -- an alternating sequence does not start with an unlock
    subst ha
    cases ops with
    | nil => exact (acquisitionsSucceed_two (show SpinOp.lock ≠ .unlock by decide)).of_initial List.nil_prefix
    | cons op ops =>
      obtain ⟨rfl,-⟩ := List.cons_prefix_cons.mp hp
      exact absurd rfl h.1
  · exact (acquisitionsSucceed_two ha).of_initial hp

theorem uncontended_works_iff_twice : AcquisitionsSucceed [.trylock,.unlock,.lock,.unlock] ∧ LockedWhileHeld [.lock] :=
  ⟨(uncontended_works_iff [.trylock,.unlock,.lock,.unlock] ⟨by decide,rfl,by decide,rfl,trivial⟩).1.mpr
      ⟨.trylock,List.prefix_refl _⟩,
    (uncontended_works_iff [.lock] ⟨by decide,trivial⟩).2.mpr (by decide)⟩

/-- After one lock and unlock the lock looks held and a trylock fails; after two, `arch_spin_lock`
never returns. -/
theorem uncontended_fails :
    archSpinIsLocked (lockAfter [.lock,.unlock]) = true ∧
      (archSpinTrylock (lockAfter [.lock,.unlock])).1 = false ∧
      ∀ fuel, archSpinLock fuel (lockAfter [.lock,.unlock,.lock,.unlock]) = none := by
  refine ⟨by decide,by decide,fun fuel => ?_⟩
  simp only [archSpinLock,xaddTail]
  rw [spin_eq_none (by decide)]
  rfl

end Uncontended
end Linuxab.Lock
