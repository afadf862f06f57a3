import Linuxab.Base.Chain
import Linuxab.Base.Fold
import Mathlib.Data.Finset.Basic

/-! The chain of CPU notifiers of kernel/cpu.c. The callbacks may do anything, the chain included; what is
proved about `cpu_notify` is for callbacks that return 0 and leave the chain alone. -/
namespace Linuxab.Kernel
open Linuxab.Base

/-- `cpu_chain` with the links of the blocks. -/
structure CpuChain (B : Type) where
  list : Slist B
  count : UInt32

/-- The chain and everything else that a callback can see. -/
structure CpuWorld (B E : Type) where
  chain : CpuChain B
  rest : E

/-- `notifier_call`: a block, the action and its data to a return value. -/
abbrev NotifierFn (B E : Type) := B → UInt64 → UInt64 → CpuWorld B E → Int32 × CpuWorld B E

section Source
variable {B E : Type} [DecidableEq B]

def registerCpuNotifier (c : CpuChain B) (nb : B) : Int32 × CpuChain B := (0,⟨c.list.push nb,c.count+1⟩)

/-- Its body is a comment that the block is still to be removed. -/
def unregisterCpuNotifier (c : CpuChain B) (_nb : B) : Int32 × CpuChain B := (0,c)

omit [DecidableEq B] in
/-- The loop of `cpu_notify` from block `nb` on: the return value, what the callbacks left, and the blocks
that were called. -/
def notifyLoop (notifierCall : NotifierFn B E) (val v : UInt64) :
    ℕ → Option B → Int32 → CpuWorld B E → Option (Int32 × CpuWorld B E × List B)
  | 0,_,_,_ => none
  | _+1,none,ret,w => some (ret,w,[])
  | n+1,some nb,_,w =>
    let r := notifierCall nb val v w
    if r.1 &&& 1 ≠ 0 then some (r.1,r.2,[nb])
    else (notifyLoop notifierCall val v n (r.2.chain.list.next nb) r.1 r.2).map fun t => (t.1,t.2.1,nb::t.2.2)

omit [DecidableEq B] in
def cpuNotify (rounds : ℕ) (notifierCall : NotifierFn B E) (val v : UInt64) (w : CpuWorld B E) :
    Option (Int32 × CpuWorld B E × List B) :=
  notifyLoop notifierCall val v rounds w.chain.list.head 0 w

end Source

/-- The callbacks return 0 and do not modify the chain. -/
def Quiet {B E : Type} (notifierCall : NotifierFn B E) : Prop :=
  ∀ nb val v w, (notifierCall nb val v w).1 = 0 ∧ (notifierCall nb val v w).2.chain = w.chain

section Loop
variable {B E : Type} {notifierCall : NotifierFn B E} {val v : UInt64} {p : Option B} {ret : Int32}
  {w : CpuWorld B E} {n : ℕ}

theorem notifyLoop_quiet (h : Quiet notifierCall) (nb : B) :
    notifyLoop notifierCall val v (n+1) (some nb) ret w =
      (notifyLoop notifierCall val v n (w.chain.list.next nb) 0 (notifierCall nb val v w).2).map fun t =>
        (t.1,t.2.1,nb::t.2.2) := by
  obtain ⟨hret,hchain⟩ := h nb val v w
  simp [notifyLoop,hret,hchain]

/-- On a chain with an end, every block on it is called once, in its order. -/
theorem notifyLoop_of_chain (h : Quiet notifierCall) {xs : List B} (hc : Chain w.chain.list.next p xs)
    (hn : xs.length < n) : ∃ r t, notifyLoop notifierCall val v n p ret w = some (r,t,xs) := by
  induction n generalizing p ret w xs with
  | zero => omega
  | succ n ih =>
    cases xs with
    | nil =>
      obtain rfl : p = none := hc
      exact ⟨ret,w,rfl⟩
    | cons nb xs =>
      obtain ⟨rfl,hc⟩ := hc
      have hchain := (h nb val v w).2
      obtain ⟨r,t,he⟩ := ih (w := (notifierCall nb val v w).2) (by rwa [hchain]) (by simpa using hn)
      exact ⟨r,t,by rw [notifyLoop_quiet h,he]; rfl⟩

/-- Whatever the number of rounds, no other blocks are called. -/
theorem notifyLoop_log (h : Quiet notifierCall) {xs log : List B} (hc : Chain w.chain.list.next p xs)
    {r : Int32} {t : CpuWorld B E} (he : notifyLoop notifierCall val v n p ret w = some (r,t,log)) : log = xs := by
  induction n generalizing p ret w xs log r t with
  | zero => cases he
  | succ n ih =>
    cases xs with
    | nil =>
      obtain rfl : p = none := hc
      cases he
      rfl
    | cons nb xs =>
      obtain ⟨rfl,hc⟩ := hc
      have hchain := (h nb val v w).2
      rw [notifyLoop_quiet h,Option.map_eq_some_iff] at he
      obtain ⟨⟨r',t',log'⟩,he,heq⟩ := he
      cases heq
      rw [ih (w := (notifierCall nb val v w).2) (by rwa [hchain]) he]

/-- On an endless chain the loop goes on for any number of rounds. -/
theorem notifyLoop_endless (h : Quiet notifierCall) (hc : Endless w.chain.list.next p) :
    notifyLoop notifierCall val v n p ret w = none := by
  induction n generalizing p ret w with
  | zero => rfl
  | succ n ih =>
    obtain ⟨nb,rfl,hc⟩ := hc.exists_next
    have hchain := (h nb val v w).2
    rw [notifyLoop_quiet h,← hchain,ih (by rwa [hchain])]
    rfl

end Loop

inductive NotifierCall (B : Type)
  | register (nb : B)
  | unregister (nb : B)

/-- The chain, with the blocks that are registered according to the calls. -/
structure NotifierSession (B : Type) where
  chain : CpuChain B
  registered : Finset B

namespace NotifierSession
variable {B E : Type} [DecidableEq B]

def call (s : NotifierSession B) : NotifierCall B → NotifierSession B
  | .register nb => ⟨(registerCpuNotifier s.chain nb).2,insert nb s.registered⟩
  | .unregister nb => ⟨(unregisterCpuNotifier s.chain nb).2,s.registered.erase nb⟩

def run (s : NotifierSession B) (calls : List (NotifierCall B)) : NotifierSession B := calls.foldl call s

/-- `cpu_chain` is empty; the links of the blocks are what they are. -/
def start (next : B → Option B) : NotifierSession B := ⟨⟨⟨none,next⟩,0⟩,∅⟩

omit [DecidableEq B] in
/-- A call registers a block only while it is not registered. -/
def Allowed (s : NotifierSession B) : NotifierCall B → Prop
  | .register nb => nb ∉ s.registered
  | .unregister _ => True

omit [DecidableEq B] in
/-- The call does not unregister a block that is registered. -/
def NotRemoval (s : NotifierSession B) : NotifierCall B → Prop
  | .register _ => True
  | .unregister nb => nb ∉ s.registered

instance (s : NotifierSession B) : (c : NotifierCall B) → Decidable (s.Allowed c)
  | .register nb => inferInstanceAs (Decidable (nb ∉ s.registered))
  | .unregister _ => inferInstanceAs (Decidable True)

instance (s : NotifierSession B) : (c : NotifierCall B) → Decidable (s.NotRemoval c)
  | .register _ => inferInstanceAs (Decidable True)
  | .unregister nb => inferInstanceAs (Decidable (nb ∉ s.registered))

/-- Every block is registered only while it is not registered. -/
def Legal (s : NotifierSession B) (calls : List (NotifierCall B)) : Prop := Along call Allowed s calls

/-- No registered block is ever unregistered. -/
def NoRemoval (s : NotifierSession B) (calls : List (NotifierCall B)) : Prop := Along call NotRemoval s calls

instance (s : NotifierSession B) (calls : List (NotifierCall B)) : Decidable (s.Legal calls) :=
  Along.decidable s calls

instance (s : NotifierSession B) (calls : List (NotifierCall B)) : Decidable (s.NoRemoval calls) :=
  Along.decidable s calls

omit [DecidableEq B] in
/-- The chain ends and has the registered blocks on it. -/
def Exact (s : NotifierSession B) : Prop := ∃ xs, s.chain.list.Is xs ∧ ∀ nb, nb ∈ xs ↔ nb ∈ s.registered

omit [DecidableEq B] in
/-- The chain has no end, or a block on it that is no longer registered. -/
def Stale (s : NotifierSession B) : Prop :=
  Endless s.chain.list.next s.chain.list.head ∨ ∃ xs, s.chain.list.Is xs ∧ ∃ nb ∈ xs, nb ∉ s.registered

variable {s : NotifierSession B}

theorem Exact.call (h : s.Exact) {c : NotifierCall B} (hc : s.Allowed c) (hr : s.NotRemoval c) : (s.call c).Exact := by
  obtain ⟨xs,hxs,hmem⟩ := h
  cases c with
  | register nb =>
    have hnew : nb ∉ xs := fun hnb => hc ((hmem nb).mp hnb)
    exact ⟨nb::xs,hxs.push hnew,fun x => by simp [NotifierSession.call,hmem]⟩
  | unregister nb =>
    refine ⟨xs,hxs,fun x => ?_⟩
    rw [NotifierSession.call,Finset.erase_eq_of_notMem hr]
    exact hmem x

/-- Once a registered block has been unregistered, it stays on the chain. -/
theorem Exact.stale (h : s.Exact) {c : NotifierCall B} (hr : ¬s.NotRemoval c) : (s.call c).Stale := by
  obtain ⟨xs,hxs,hmem⟩ := h
  cases c with
  | register nb => exact absurd trivial hr
  | unregister nb =>
    have hnb : nb ∈ s.registered := not_not.mp hr
    exact .inr ⟨xs,hxs,nb,(hmem nb).mpr hnb,Finset.notMem_erase nb _⟩

theorem Stale.call (h : s.Stale) (c : NotifierCall B) : (s.call c).Stale := by
  cases c with
  | register nb =>
    obtain hend | ⟨xs,hxs,old,hold,hgone⟩ := h
    · exact .inl (hend.push nb)
    · by_cases hnb : nb ∈ xs
      · exact .inl (Chain.endless_push hxs hnb)
      · refine .inr ⟨nb::xs,hxs.push hnb,old,List.mem_cons_of_mem nb hold,?_⟩
        simp [NotifierSession.call,hgone,ne_of_mem_of_not_mem hold hnb]
  | unregister nb =>
    obtain hend | ⟨xs,hxs,old,hold,hgone⟩ := h
    · exact .inl hend
    · exact .inr ⟨xs,hxs,old,hold,fun hmem => hgone (Finset.mem_of_mem_erase hmem)⟩

theorem Stale.run (h : s.Stale) (calls : List (NotifierCall B)) : (s.run calls).Stale := by
  induction calls generalizing s with
  | nil => exact h
  | cons c calls ih => exact ih (h.call c)

theorem Exact.run (h : s.Exact) {calls : List (NotifierCall B)} (hl : s.Legal calls) :
    s.NoRemoval calls ∧ (s.run calls).Exact ∨ ¬s.NoRemoval calls ∧ (s.run calls).Stale := by
  induction calls generalizing s with
  | nil => exact .inl ⟨trivial,h⟩
  | cons c calls ih =>
    by_cases hr : s.NotRemoval c
    · obtain ⟨hno,hex⟩ | ⟨hrem,hst⟩ := ih (h.call hl.1 hr) hl.2
      · exact .inl ⟨⟨hr,hno⟩,hex⟩
      · exact .inr ⟨fun hno => hrem hno.2,hst⟩
    · exact .inr ⟨fun hno => hr hno.1,(h.stale hr).run calls⟩

omit [DecidableEq B] in
/-- `cpu_notify` returns after calling exactly the registered blocks, each once. -/
def Notifies (s : NotifierSession B) (notifierCall : NotifierFn B E) (val v : UInt64) (rest : E) : Prop :=
  ∃ rounds ret w log, cpuNotify rounds notifierCall val v ⟨s.chain,rest⟩ = some (ret,w,log) ∧
    log.Nodup ∧ ∀ nb, nb ∈ log ↔ nb ∈ s.registered

variable {notifierCall : NotifierFn B E} (hq : Quiet notifierCall) (val v : UInt64) (rest : E)
include hq

omit [DecidableEq B] in
theorem Exact.notifies (h : s.Exact) : s.Notifies notifierCall val v rest := by
  obtain ⟨xs,hxs,hmem⟩ := h
  obtain ⟨r,t,he⟩ := notifyLoop_of_chain (w := ⟨s.chain,rest⟩) hq hxs (Nat.lt_succ_self xs.length)
  exact ⟨_,r,t,xs,he,Chain.nodup hxs,hmem⟩

omit [DecidableEq B] in
theorem Stale.not_notifies (h : s.Stale) : ¬s.Notifies notifierCall val v rest := by
  rintro ⟨rounds,ret,w,log,he,-,hmem⟩
  obtain hend | ⟨xs,hxs,old,hold,hgone⟩ := h
  · rw [cpuNotify,notifyLoop_endless hq hend] at he
    cases he
  · have hlog : log = xs := notifyLoop_log (w := ⟨s.chain,rest⟩) hq hxs he
    exact hgone ((hmem old).mp (hlog ▸ hold))

end NotifierSession

/-- `cpu_notify` ends and calls exactly the registered blocks as long as no registered block has been
unregistered, and never again after that. -/
theorem cpu_notify_reaches_iff {B E : Type} [DecidableEq B] (next : B → Option B) (calls : List (NotifierCall B))
    (hl : (NotifierSession.start next).Legal calls) (notifierCall : NotifierFn B E) (hq : Quiet notifierCall)
    (val v : UInt64) (rest : E) :
    ((NotifierSession.start next).run calls).Notifies notifierCall val v rest ↔
      (NotifierSession.start next).NoRemoval calls := by
  have hstart : (NotifierSession.start next).Exact := ⟨[],rfl,fun nb => by simp [NotifierSession.start]⟩
  obtain ⟨hno,hex⟩ | ⟨hrem,hst⟩ := hstart.run hl
  · exact iff_of_true (hex.notifies hq val v rest) hno
  · exact iff_of_false (hst.not_notifies hq val v rest) hrem

/-- Callbacks that do nothing. -/
def quietCall (_nb : ℕ) (_val _v : UInt64) (w : CpuWorld ℕ Unit) : Int32 × CpuWorld ℕ Unit := (0,w)

theorem quietCall_quiet : Quiet quietCall := fun _ _ _ _ => ⟨rfl,rfl⟩

theorem cpu_notify_reaches_two :
    (NotifierSession.start fun _ => none).Legal [.register 1,.unregister 3,.register 2] ∧
    ((NotifierSession.start fun _ => none).run [.register 1,.unregister 3,.register 2]).Notifies quietCall 0 0 () :=
  ⟨by decide,(cpu_notify_reaches_iff _ _ (by decide) quietCall quietCall_quiet 0 0 ()).mpr (by decide)⟩

/-- A block that was registered, unregistered and registered again is its own successor. -/
theorem cpu_notify_endless :
    (NotifierSession.start fun _ => none).Legal [.register 1,.unregister 1,.register 1] ∧
    ¬((NotifierSession.start fun _ => none).run [.register 1,.unregister 1,.register 1]).Notifies quietCall 0 0 () := by
  refine ⟨by decide,?_⟩
  apply NotifierSession.Stale.not_notifies quietCall_quiet
  exact .inl ⟨{1},⟨1,rfl,rfl⟩,fun x hx => ⟨1,rfl,by rw [hx]; rfl⟩⟩

end Linuxab.Kernel
