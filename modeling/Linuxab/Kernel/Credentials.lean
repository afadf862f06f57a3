import Linuxab.Base.Bitmap
import Mathlib.Data.Int.Notation
import Mathlib.Data.Nat.Notation

/-! Credentials and capabilities of kernel/capability.c. -/
namespace Linuxab.Kernel
open Linuxab.Base

def CAP_SETGID : ℤ := 6
def CAP_SETUID : ℤ := 7
def CAP_LAST_CAP : ℤ := 40

/-- `kernel_cap_t`: 41 capabilities in two words. -/
structure KernelCap where
  cap : Fin 2 → BitVec 32

structure Cred where
  usage : UInt32
  uid : UInt32
  gid : UInt32
  suid : UInt32
  sgid : UInt32
  euid : UInt32
  egid : UInt32
  fsuid : UInt32
  fsgid : UInt32
  capInheritable : KernelCap
  capPermitted : KernelCap
  capEffective : KernelCap
  capBset : KernelCap
  capAmbient : KernelCap

/-- Up to `CAP_LAST_CAP` the index `cap >> 5` is 0 or 1. -/
def capToIndex (cap : ℤ) : Fin 2 := wordOf2 (cap.toNat >>> 5)
def capToMask (cap : ℤ) : BitVec 32 := 1#32 <<< (cap.toNat &&& 31)

def capCapable (cred : Cred) (cap : ℤ) : Bool :=
  if cap < 0 ∨ cap > CAP_LAST_CAP then false
  else (cred.capEffective.cap (capToIndex cap) &&& capToMask cap) != 0

def capClear : KernelCap := ⟨fun _ => 0⟩

/-- The return value, with the credential that `new` points to afterwards. -/
def capSetuid (new old : Cred) (uid : UInt32) : ℤ × Cred :=
  if uid = old.uid ∨ uid = old.suid ∨ uid = old.euid then (0,{ new with uid := uid })
  else if !capCapable old CAP_SETUID then (-1,new)
  else (0,{ new with uid := uid, suid := uid, euid := uid, fsuid := uid, capAmbient := capClear })

def capSetgid (new old : Cred) (gid : UInt32) : ℤ × Cred :=
  if gid = old.gid ∨ gid = old.sgid ∨ gid = old.egid then (0,{ new with gid := gid })
  else if !capCapable old CAP_SETGID then (-1,new)
  else (0,{ new with gid := gid, sgid := gid, egid := gid, fsgid := gid })

inductive IdCall
  | setuid (uid : UInt32)
  | setgid (gid : UInt32)
  deriving DecidableEq, Repr

namespace Cred

/-- A call works on a copy of the current credential, which becomes current if the call returns 0. -/
def call (cred : Cred) : IdCall → Cred
  | .setuid uid => if (capSetuid cred cred uid).1 = 0 then (capSetuid cred cred uid).2 else cred
  | .setgid gid => if (capSetgid cred cred gid).1 = 0 then (capSetgid cred cred gid).2 else cred

def run (cred : Cred) (calls : List IdCall) : Cred := calls.foldl call cred

/-- The user ids of a credential. -/
def uids (cred : Cred) : List UInt32 := [cred.uid,cred.euid,cred.suid,cred.fsuid]

/-- The five capability sets. -/
def caps (cred : Cred) : List KernelCap :=
  [cred.capInheritable,cred.capPermitted,cred.capEffective,cred.capBset,cred.capAmbient]

/-- What an unprivileged process can make of the credential `start`: only its real user id and its group
ids change, and the real user id to one that the credential has. -/
structure Within (start cred : Cred) : Prop where
  uid : cred.uid = start.uid ∨ cred.uid = start.suid ∨ cred.uid = start.euid
  suid : cred.suid = start.suid
  euid : cred.euid = start.euid
  fsuid : cred.fsuid = start.fsuid
  caps : cred.caps = start.caps

variable {start cred : Cred}

theorem capCapable_congr (h : cred.caps = start.caps) (cap : ℤ) : capCapable cred cap = capCapable start cap := by
  have heff : cred.capEffective = start.capEffective := by
    simp only [Cred.caps,List.cons.injEq] at h
    exact h.2.2.1
  rw [capCapable,capCapable,heff]

theorem Within.refl (cred : Cred) : Within cred cred := ⟨.inl rfl,rfl,rfl,rfl,rfl⟩

/-- Without the capability, `cap_setuid` only goes back to an id of the credential. -/
theorem call_setuid (h : capCapable cred CAP_SETUID = false) (uid : UInt32) :
    (cred.call (.setuid uid) = { cred with uid := uid } ∧ (uid = cred.uid ∨ uid = cred.suid ∨ uid = cred.euid)) ∨
    cred.call (.setuid uid) = cred := by
  rw [call,capSetuid]
  by_cases hown : uid = cred.uid ∨ uid = cred.suid ∨ uid = cred.euid
  · exact .inl ⟨by simp [hown],hown⟩
  · exact .inr (by simp [hown,h])

theorem call_setgid (cred : Cred) (gid : UInt32) :
    ∃ g s e f, cred.call (.setgid gid) = { cred with gid := g, sgid := s, egid := e, fsgid := f } := by
  rw [call,capSetgid]
  by_cases hown : gid = cred.gid ∨ gid = cred.sgid ∨ gid = cred.egid
  · exact ⟨gid,_,_,_,by simp only [hown,if_true]; rfl⟩
  · by_cases hcap : capCapable cred CAP_SETGID = true
    · exact ⟨gid,gid,gid,gid,by simp [hown,hcap]⟩
    · exact ⟨_,_,_,_,by simp only [hown,hcap]; rfl⟩

theorem Within.call (h : Within start cred) (hcap : capCapable start CAP_SETUID = false) (c : IdCall) :
    Within start (cred.call c) := by
  cases c with
  | setuid uid =>
    have hcred : capCapable cred CAP_SETUID = false := (capCapable_congr h.caps _).trans hcap
    obtain ⟨he,hown⟩ | he := call_setuid hcred uid
    · rw [he]
      refine ⟨?_,h.suid,h.euid,h.fsuid,h.caps⟩
      -- the other ids are still those of the start, and the real id was one of them
      obtain rfl | rfl | rfl := hown
      · exact h.uid
      · exact .inr (.inl h.suid)
      · exact .inr (.inr h.euid)
    · rwa [he]
  | setgid gid =>
    obtain ⟨g,s,e,f,he⟩ := cred.call_setgid gid
    rw [he]
    exact ⟨h.uid,h.suid,h.euid,h.fsuid,h.caps⟩

theorem Within.run (h : Within start cred) (hcap : capCapable start CAP_SETUID = false) (calls : List IdCall) :
    Within start (cred.run calls) := by
  induction calls generalizing cred with
  | nil => exact h
  | cons c calls ih => exact ih (h.call hcap c)

theorem Within.uids_subset (h : Within start cred) : ∀ id ∈ cred.uids, id ∈ start.uids := by
  simp only [uids,h.suid,h.euid,h.fsuid,List.mem_cons,List.not_mem_nil,or_false]
  rintro id (rfl | hid)
  · obtain hu | hu | hu := h.uid <;> simp [hu]
  · exact .inr hid

end Cred

/-- A process without `CAP_SETUID` never gets a user id that it does not start with, nor any capability. -/
theorem unprivileged_keeps_identity (cred : Cred) (h : capCapable cred CAP_SETUID = false) (calls : List IdCall) :
    (∀ id ∈ (cred.run calls).uids, id ∈ cred.uids) ∧
    capCapable (cred.run calls) CAP_SETUID = false ∧ (cred.run calls).caps = cred.caps := by
  have hw := (Cred.Within.refl cred).run h calls
  exact ⟨hw.uids_subset,(Cred.capCapable_congr hw.caps _).trans h,hw.caps⟩

/-- A process of user 1000 with saved id 0 and all capabilities but `CAP_SETUID`. -/
def savedRoot : Cred :=
  ⟨1,1000,100,0,100,1000,100,1000,100,⟨fun _ => 0⟩,⟨fun _ => 0⟩,⟨fun _ => 0xFFFFFF7F⟩,⟨fun _ => 0⟩,⟨fun _ => 0⟩⟩

/-- It can become root in its real id, as which it started in its saved one, but not user 5. -/
theorem unprivileged_keeps_identity_saved :
    (savedRoot.run [.setuid 0,.setuid 5,.setgid 7]).uid = 0 ∧
    ∀ id ∈ (savedRoot.run [.setuid 0,.setuid 5,.setgid 7]).uids, id ∈ savedRoot.uids :=
  ⟨by decide,(unprivileged_keeps_identity savedRoot (by decide) _).1⟩

end Linuxab.Kernel
