import Linuxab.Base.Bitmap
import Linuxab.Base.Fold
import Mathlib.Data.Int.Notation

/-! The mask of blocked signals of kernel/signal.c. -/
namespace Linuxab.Kernel
open Linuxab.Base

def NSIG : ℤ := 64
def SIGKILL : ℤ := 9
def SIGSTOP : ℤ := 19

def SIG_BLOCK : ℤ := 0
def SIG_UNBLOCK : ℤ := 1
def SIG_SETMASK : ℤ := 2

/-- `sigset_t`: 64 signals in two words. -/
structure Sigset where
  sig : Fin 2 → BitVec 32

def sigemptyset : Sigset := ⟨fun _ => 0⟩
def sigfillset : Sigset := ⟨fun _ => ~~~0⟩

/-- The word and the bit of a signal from 1 to `NSIG`. -/
def sigWord (signum : ℤ) : Fin 2 := wordOf2 ((signum-1).toNat/32)
def sigBit (signum : ℤ) : ℕ := (signum-1).toNat%32

/-- 0 or 1, as the comparison with 0 gives in C. -/
def sigismember (set : Sigset) (signum : ℤ) : ℤ :=
  if signum < 1 ∨ signum > NSIG then 0
  else if set.sig (sigWord signum) &&& 1#32 <<< sigBit signum ≠ 0 then 1 else 0

def sigorset (left right : Sigset) : Sigset := ⟨fun i => left.sig i ||| right.sig i⟩
def sigandset (left right : Sigset) : Sigset := ⟨fun i => left.sig i &&& right.sig i⟩
def signotset (src : Sigset) : Sigset := ⟨fun i => ~~~src.sig i⟩

/-- Where the argument `oldset` points to. -/
inductive Oldset
  | null
  | apart
  | sameAsSet
  deriving DecidableEq, Repr

/-- The set that `sys_sigprocmask` reads: the old mask is stored first, over the set if both are one. -/
def readSet (blocked : Sigset) (set : Option Sigset) : Oldset → Option Sigset
  | .sameAsSet => set.map fun _ => blocked
  | _ => set

/-- The return value, the new mask and what is stored at `oldset`. -/
def sysSigprocmask (blocked : Sigset) (how : ℤ) (set : Option Sigset) (oldset : Oldset) :
    ℤ × Sigset × Option Sigset :=
  let old := if oldset = .null ∨ oldset = .sameAsSet ∧ set.isNone then none else some blocked
  match readSet blocked set oldset with
  | none => (0,blocked,old)
  | some set =>
    if how = SIG_BLOCK then (0,sigorset blocked set,old)
    else if how = SIG_UNBLOCK then (0,sigandset blocked (signotset set),old)
    else if how = SIG_SETMASK then (0,set,old)
    else (-1,blocked,old)

inductive MaskCall
  | sigprocmask (how : ℤ) (set : Option Sigset) (oldset : Oldset)
  | blockAllSignals
  | unblockAllSignals

def MaskCall.apply (blocked : Sigset) : MaskCall → Sigset
  | .sigprocmask how set oldset => (sysSigprocmask blocked how set oldset).2.1
  | .blockAllSignals => sigfillset
  | .unblockAllSignals => sigemptyset

/-- The mask after `signal_init` and the calls. -/
def blockedSigs (calls : List MaskCall) : Sigset := calls.foldl MaskCall.apply sigemptyset

namespace Sigset

/-- The signal is in the set. -/
def Has (set : Sigset) (signum : ℤ) : Prop := sigismember set signum = 1

variable {signum : ℤ} (set left right : Sigset)

theorem has_iff (hsig : 1 ≤ signum ∧ signum ≤ NSIG) :
    set.Has signum ↔ (set.sig (sigWord signum)).getLsbD (sigBit signum) = true := by
  have hbit : sigBit signum < 32 := Nat.mod_lt _ (by decide)
  have hrange : ¬(signum < 1 ∨ signum > NSIG) := by omega
  rw [Has,sigismember,if_neg hrange,← and_mask_ne_zero_iff hbit]
  split <;> simp_all

theorem not_has_iff : ¬set.Has signum ↔ sigismember set signum = 0 := by
  rw [Has,sigismember]
  split
  · simp
  · split <;> simp

theorem not_has_empty : ¬sigemptyset.Has signum := by
  simp [Has,sigismember,sigemptyset]

variable (hsig : 1 ≤ signum ∧ signum ≤ NSIG)
include hsig

theorem has_fill : sigfillset.Has signum := by
  have hbit : sigBit signum < 32 := Nat.mod_lt _ (by decide)
  rw [has_iff _ hsig,sigfillset,BitVec.getLsbD_not]
  simp [hbit]

theorem has_or : (sigorset left right).Has signum ↔ left.Has signum ∨ right.Has signum := by
  simp [has_iff _ hsig,sigorset]

theorem has_diff : (sigandset left (signotset right)).Has signum ↔ left.Has signum ∧ ¬right.Has signum := by
  have hbit : sigBit signum < 32 := Nat.mod_lt _ (by decide)
  simp [has_iff _ hsig,sigandset,signotset,hbit]

end Sigset

namespace MaskCall

/-- The call puts the signal into the mask, whatever the mask was. -/
def Adds (signum : ℤ) : MaskCall → Prop
  | .sigprocmask how (some set) oldset =>
    (how = SIG_BLOCK ∨ how = SIG_SETMASK) ∧ oldset ≠ .sameAsSet ∧ set.Has signum
  | .sigprocmask _ none _ => False
  | .blockAllSignals => True
  | .unblockAllSignals => False

/-- The call takes the signal out of the mask. -/
def Removes (signum : ℤ) : MaskCall → Prop
  | .sigprocmask how (some set) oldset =>
    how = SIG_UNBLOCK ∧ (oldset = .sameAsSet ∨ set.Has signum) ∨
    how = SIG_SETMASK ∧ oldset ≠ .sameAsSet ∧ ¬set.Has signum
  | .sigprocmask _ none _ => False
  | .blockAllSignals => False
  | .unblockAllSignals => True

theorem apply_has_iff {signum : ℤ} (hsig : 1 ≤ signum ∧ signum ≤ NSIG) (blocked : Sigset) (c : MaskCall) :
    (c.apply blocked).Has signum ↔ c.Adds signum ∨ blocked.Has signum ∧ ¬c.Removes signum := by
  cases c with
  | blockAllSignals => simp [apply,Adds,Sigset.has_fill hsig]
  | unblockAllSignals => simp [apply,Adds,Removes,Sigset.not_has_empty]
  | sigprocmask how set oldset =>
    cases set with
    | none => cases oldset <;> simp [apply,sysSigprocmask,readSet,Adds,Removes]
    | some set =>
      by_cases hblock : how = SIG_BLOCK
      · subst hblock
        cases oldset <;>
          simp [apply,sysSigprocmask,readSet,Adds,Removes,Sigset.has_or _ _ hsig,SIG_BLOCK,SIG_UNBLOCK,SIG_SETMASK,
            or_comm]
      by_cases hunblock : how = SIG_UNBLOCK
      · subst hunblock
        cases oldset <;>
          simp [apply,sysSigprocmask,readSet,Adds,Removes,Sigset.has_diff _ _ hsig,SIG_BLOCK,SIG_UNBLOCK,SIG_SETMASK]
      by_cases hsetmask : how = SIG_SETMASK
      · subst hsetmask
        cases oldset <;>
          simp +contextual [apply,sysSigprocmask,readSet,Adds,Removes,SIG_BLOCK,SIG_UNBLOCK,SIG_SETMASK]
      · cases oldset <;> simp [apply,sysSigprocmask,readSet,Adds,Removes,hblock,hunblock,hsetmask]

end MaskCall

/-- A signal is blocked exactly if some call added it and no later one removed it. -/
theorem blockedSigs_has_iff {signum : ℤ} (hsig : 1 ≤ signum ∧ signum ≤ NSIG) (calls : List MaskCall) :
    (blockedSigs calls).Has signum ↔
      ∃ pre c post, calls = pre ++ c::post ∧ c.Adds signum ∧ ∀ d ∈ post, ¬d.Removes signum :=
  foldl_last_iff (P := fun set : Sigset => set.Has signum) (MaskCall.apply_has_iff hsig) Sigset.not_has_empty calls

/-- `SIGKILL` and `SIGSTOP` are unblocked exactly if each call that adds one of them is followed by one
that removes it: no function of the source treats the two specially. -/
theorem kill_stop_unblocked_iff (calls : List MaskCall) :
    (sigismember (blockedSigs calls) SIGKILL = 0 ∧ sigismember (blockedSigs calls) SIGSTOP = 0) ↔
      ∀ signum, signum = SIGKILL ∨ signum = SIGSTOP →
        ∀ pre c post, calls = pre ++ c::post → c.Adds signum → ∃ d ∈ post, d.Removes signum := by
  have hone : ∀ signum : ℤ, 1 ≤ signum ∧ signum ≤ NSIG → (sigismember (blockedSigs calls) signum = 0 ↔
      ∀ pre c post, calls = pre ++ c::post → c.Adds signum → ∃ d ∈ post, d.Removes signum) := by
    intro signum hsig
    rw [← Sigset.not_has_iff,blockedSigs_has_iff hsig]
    push Not
    rfl
  have hkill := hone SIGKILL (by decide)
  have hstop := hone SIGSTOP (by decide)
  rw [hkill,hstop]
  simp only [forall_eq_or_imp,forall_eq]

/-- A set with `SIGKILL` in it is blocked as it is. -/
theorem sigkill_blocked :
    sigismember (blockedSigs [.sigprocmask SIG_BLOCK (some ⟨fun _ => 0x100⟩) .null]) SIGKILL = 1 ∧
    sigismember (blockedSigs [.blockAllSignals]) SIGSTOP = 1 := by
  decide

end Linuxab.Kernel
