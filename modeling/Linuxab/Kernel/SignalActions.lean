import Linuxab.Base.Sweep
import Linuxab.Kernel.Signals

/-! The table of signal actions of kernel/signal.c. It has `NSIG` entries, for the numbers 0 to 63, and
`do_sigaction` accepts the signals 1 to `NSIG`; what lies behind the table is kept with it. -/
namespace Linuxab.Kernel
open Linuxab.Base

def SIG_DFL : UInt64 := 0

/-- `struct sigaction`, with the functions as their addresses. -/
structure Sigaction where
  saHandler : UInt64
  saSigaction : UInt64
  saMask : Sigset
  saFlags : Int32
  saRestorer : UInt64

/-- The default action; the other two functions are as they were. -/
def Sigaction.reset (sa : Sigaction) : Sigaction :=
  { sa with saHandler := SIG_DFL, saMask := sigemptyset, saFlags := 0 }

/-- The part of `signal_init` that fills the table. -/
def signalInit (sigActions : ℕ → Sigaction) : ℕ → Sigaction :=
  sweep id (fun t i => (t i).reset) (List.range 64) sigActions

/-- A call of `sys_sigaction`; `act` and `oact` can be one buffer. -/
structure SigCall where
  sig : ℤ
  act : Option Sigaction
  oact : Oldset

/-- What a call returns, the table afterwards, what is stored at `oact`, and the indices at which the table
is accessed. -/
structure SigResult where
  ret : ℤ
  sigActions : ℕ → Sigaction
  oact : Option Sigaction
  accessed : List ℕ

namespace SigCall

/-- `oact` is not NULL. -/
def Asks (c : SigCall) : Prop := c.oact = .apart ∨ c.oact = .sameAsSet ∧ c.act.isSome

instance (c : SigCall) : Decidable c.Asks := inferInstanceAs (Decidable (_ ∨ _))

/-- What `*act` is when it is stored: the old action if it has been written over. -/
def read (c : SigCall) (old : Sigaction) : Option Sigaction :=
  if c.oact = .sameAsSet then c.act.map fun _ => old else c.act

end SigCall

def doSigaction (sigActions : ℕ → Sigaction) (c : SigCall) : SigResult :=
  if c.sig < 1 ∨ c.sig > NSIG then ⟨-1,sigActions,none,[]⟩
  else if c.sig = SIGKILL ∨ c.sig = SIGSTOP then ⟨-1,sigActions,none,[]⟩
  else
    let i := c.sig.toNat
    let oact := if c.Asks then some (sigActions i) else none
    let asked := if c.Asks then [i] else []
    match c.read (sigActions i) with
    | none => ⟨0,sigActions,oact,asked⟩
    | some act => ⟨0,Function.update sigActions i act,oact,asked ++ [i]⟩

def sysSigaction (sigActions : ℕ → Sigaction) (c : SigCall) : SigResult := doSigaction sigActions c

section Runs
variable (start : ℕ → Sigaction)

/-- The table after `signal_init` and the calls. -/
def tableAfter (calls : List SigCall) : ℕ → Sigaction :=
  calls.foldl (fun t c => (sysSigaction t c).sigActions) (signalInit start)

/-- The signals whose action can be changed. -/
def Changeable (sig : ℤ) : Prop := (1 ≤ sig ∧ sig ≤ NSIG) ∧ sig ≠ SIGKILL ∧ sig ≠ SIGSTOP

instance (sig : ℤ) : Decidable (Changeable sig) := inferInstanceAs (Decidable (_ ∧ _))

/-- What the table is for: a map from signals to actions, in which a call puts its action. -/
def SigCall.install (m : ℤ → Sigaction) (c : SigCall) : ℤ → Sigaction :=
  match c.act with
  | none => m
  | some act => if Changeable c.sig then Function.update m c.sig act else m

/-- The action that was installed last, or the default. -/
def installed (calls : List SigCall) : ℤ → Sigaction :=
  calls.foldl SigCall.install fun sig => (start sig.toNat).reset

/-- A call that asks for the action of a signal. -/
def query (sig : ℤ) : SigCall := ⟨sig,none,.apart⟩

/-- The table is the map, over all of the calls. After each of them any signal can be asked for whose entry is
in the table; a call that asks for the one behind it is out of bounds itself. -/
structure ActsAsMap (calls : List SigCall) : Prop where
  bounds : ∀ pre c, pre ++ [c] <+: calls → (sysSigaction (tableAfter start pre) c).ret = 0 →
    ∀ i ∈ (sysSigaction (tableAfter start pre) c).accessed, i < 64
  asked : ∀ pre, pre <+: calls → ∀ sig, Changeable sig → sig < 64 →
    (sysSigaction (tableAfter start pre) (query sig)).oact = some (installed start pre sig)
  others : ∀ pre c, pre ++ [c] <+: calls → ∀ sig, Changeable sig → sig ≠ c.sig →
    (sysSigaction (tableAfter start (pre ++ [c])) (query sig)).oact =
      (sysSigaction (tableAfter start pre) (query sig)).oact
  failed : ∀ pre c, pre ++ [c] <+: calls → (sysSigaction (tableAfter start pre) c).ret = -1 →
    tableAfter start (pre ++ [c]) = tableAfter start pre ∧ (sysSigaction (tableAfter start pre) c).oact = none

/-- The call does not touch the entry behind the table, and it does not pass an action in the buffer that
the old one is stored in first, unless the two are the same. -/
structure SigCall.Harmless (pre : List SigCall) (c : SigCall) : Prop where
  inside : c.sig = 64 → c.act = none ∧ ¬c.Asks
  kept : Changeable c.sig → c.oact = .sameAsSet → ∀ act, c.act = some act → act = installed start pre c.sig

end Runs

section Step
variable {t : ℕ → Sigaction} {c : SigCall}

/-- What a call does: it fails and changes nothing, or the signal can be changed and the entry is replaced. -/
lemma sysSigaction_cases (t : ℕ → Sigaction) (c : SigCall) :
    ¬Changeable c.sig ∧ sysSigaction t c = ⟨-1,t,none,[]⟩ ∨
    Changeable c.sig ∧ sysSigaction t c = ⟨0,
      Function.update t c.sig.toNat ((c.read (t c.sig.toNat)).getD (t c.sig.toNat)),
      if c.Asks then some (t c.sig.toNat) else none,
      (if c.Asks then [c.sig.toNat] else []) ++ if c.act.isSome then [c.sig.toNat] else []⟩ := by
  by_cases hrange : c.sig < 1 ∨ c.sig > NSIG
  · refine .inl ⟨?_,by rw [sysSigaction,doSigaction,if_pos hrange]⟩
    rw [Changeable]
    omega
  by_cases hfixed : c.sig = SIGKILL ∨ c.sig = SIGSTOP
  · refine .inl ⟨?_,by rw [sysSigaction,doSigaction,if_neg hrange,if_pos hfixed]⟩
    rw [Changeable]
    omega
  · refine .inr ⟨?_,?_⟩
    · rw [Changeable]
      omega
    · rw [sysSigaction,doSigaction,if_neg hrange,if_neg hfixed]
      cases hact : c.act with
      | none => simp [SigCall.read,hact]
      | some act => by_cases hsame : c.oact = .sameAsSet <;> simp [SigCall.read,hact,hsame]

lemma sysSigaction_query {sig : ℤ} (hsig : Changeable sig) (t : ℕ → Sigaction) :
    (sysSigaction t (query sig)).oact = some (t sig.toNat) := by
  obtain ⟨hnot,-⟩ | ⟨-,he⟩ := sysSigaction_cases t (query sig)
  · exact absurd hsig hnot
  · have hasks : (query sig).Asks := Or.inl rfl
    simp only [he,hasks,if_true]
    rfl

lemma mem_accessed_iff (t : ℕ → Sigaction) (c : SigCall) (i : ℕ) : i ∈ (sysSigaction t c).accessed ↔
    Changeable c.sig ∧ (c.Asks ∨ c.act ≠ none) ∧ i = c.sig.toNat := by
  obtain ⟨hc,he⟩ | ⟨hc,he⟩ := sysSigaction_cases t c
  · simp [he,hc]
  · rw [he]
    cases hact : c.act with
    | none => by_cases hasks : c.Asks <;> simp [hasks,hc]
    | some act => by_cases hasks : c.Asks <;> simp [hasks,hc]

lemma toNat_ne {sig sig' : ℤ} (h : Changeable sig) (h' : Changeable sig') (hne : sig ≠ sig') :
    sig.toNat ≠ sig'.toNat := by
  have hpos := h.1.1
  have hpos' := h'.1.1
  omega

lemma sysSigaction_ret (hc : Changeable c.sig) (t : ℕ → Sigaction) : (sysSigaction t c).ret = 0 := by
  obtain ⟨hnot,-⟩ | ⟨-,he⟩ := sysSigaction_cases t c
  · exact absurd hc hnot
  · rw [he]

lemma sysSigaction_own (hc : Changeable c.sig) (t : ℕ → Sigaction) : (sysSigaction t c).sigActions c.sig.toNat =
    (c.read (t c.sig.toNat)).getD (t c.sig.toNat) := by
  obtain ⟨hnot,-⟩ | ⟨-,he⟩ := sysSigaction_cases t c
  · exact absurd hc hnot
  · rw [he]
    exact Function.update_self _ _ _

/-- The entry of another signal stays. -/
lemma sysSigaction_other {sig : ℤ} (hsig : Changeable sig) (hne : sig ≠ c.sig) (t : ℕ → Sigaction) :
    (sysSigaction t c).sigActions sig.toNat = t sig.toNat := by
  obtain ⟨-,he⟩ | ⟨hc,he⟩ := sysSigaction_cases t c
  · rw [he]
  · rw [he]
    exact Function.update_of_ne (toNat_ne hsig hc hne) _ _

lemma read_sameAsSet {act : Sigaction} (hsame : c.oact = .sameAsSet) (hact : c.act = some act) (old : Sigaction) :
    c.read old = some old := by
  rw [SigCall.read,if_pos hsame,hact,Option.map_some]

lemma install_own {act : Sigaction} (hc : Changeable c.sig) (hact : c.act = some act) (m : ℤ → Sigaction) :
    c.install m c.sig = act := by
  simp only [SigCall.install,hact,if_pos hc,Function.update_self]

lemma install_other {sig : ℤ} (hne : sig ≠ c.sig) (m : ℤ → Sigaction) : c.install m sig = m sig := by
  rw [SigCall.install]
  cases c.act with
  | none => rfl
  | some act => by_cases hc : Changeable c.sig <;> simp [hc,hne]

/-- The table and the map have the same actions. -/
def Agrees (t : ℕ → Sigaction) (m : ℤ → Sigaction) : Prop := ∀ sig, Changeable sig → sig < 64 → t sig.toNat = m sig

/-- The step lemma. -/
lemma Agrees.step {m : ℤ → Sigaction} (h : Agrees t m)
    (hkept : Changeable c.sig → c.oact = .sameAsSet → ∀ act, c.act = some act → act = m c.sig) :
    Agrees (sysSigaction t c).sigActions (c.install m) := by
  intro sig hsig hlt
  obtain rfl | hne := eq_or_ne sig c.sig
  · rw [sysSigaction_own hsig]
    cases hact : c.act with
    | none => simpa [SigCall.install,SigCall.read,hact] using h c.sig hsig hlt
    | some act =>
      rw [install_own hsig hact]
      by_cases hsame : c.oact = .sameAsSet
      · rw [read_sameAsSet hsame hact,Option.getD_some,hkept hsig hsame act hact]
        exact h c.sig hsig hlt
      · rw [SigCall.read,if_neg hsame,hact,Option.getD_some]
  · rw [sysSigaction_other hsig hne,install_other hne]
    exact h sig hsig hlt

end Step

section Run
variable (start : ℕ → Sigaction) {pre calls : List SigCall} {c : SigCall}

lemma tableAfter_append : tableAfter start (pre ++ [c]) = (sysSigaction (tableAfter start pre) c).sigActions := by
  rw [tableAfter,List.foldl_append]
  rfl

lemma installed_append : installed start (pre ++ [c]) = c.install (installed start pre) := by
  rw [installed,List.foldl_append]
  rfl

lemma agrees_signalInit : Agrees (tableAfter start []) (installed start []) := by
  intro sig hsig hlt
  have hpos := hsig.1.1
  have hmem : sig.toNat ∈ List.range 64 := List.mem_range.mpr (by omega)
  exact (sweep_modify List.nodup_range Sigaction.reset sig.toNat).trans (if_pos hmem)

/-- The run lemma. -/
lemma agrees_of_harmless (h : ∀ pre c, pre ++ [c] <+: calls → c.Harmless start pre) (hpre : pre <+: calls) :
    Agrees (tableAfter start pre) (installed start pre) := by
  induction pre using List.reverseRecOn with
  | nil => exact agrees_signalInit start
  | append_singleton pre c ih =>
    rw [tableAfter_append,installed_append]
    exact (ih ((List.prefix_append pre [c]).trans hpre)).step (h pre c hpre).kept

end Run

/-- The table acts as a map exactly if every call is harmless. -/
theorem actsAsMap_iff (start : ℕ → Sigaction) (calls : List SigCall) :
    ActsAsMap start calls ↔ ∀ pre c, pre ++ [c] <+: calls → c.Harmless start pre := by
  constructor
  · intro h pre c hpre
    have hinside : c.sig = 64 → c.act = none ∧ ¬c.Asks := by
      intro h64
      have hc : Changeable c.sig := by
        rw [h64]
        decide
      by_contra htouch
      have haccess : c.sig.toNat ∈ (sysSigaction (tableAfter start pre) c).accessed := by
        rw [mem_accessed_iff]
        exact ⟨hc,by tauto,rfl⟩
      have hlt := h.bounds pre c hpre (sysSigaction_ret hc _) _ haccess
      omega
    refine ⟨hinside,fun hc hsame act hact => ?_⟩
    have hlt : c.sig < 64 := by
      by_contra hge
      have h64 : c.sig = 64 := by
        have := hc.1.2
        rw [NSIG] at this
        omega
      rw [(hinside h64).1] at hact
      cases hact
    -- the old action is stored again, and the map has the new one
    have hbefore := h.asked pre ((List.prefix_append pre [c]).trans hpre) c.sig hc hlt
    have hafter := h.asked (pre ++ [c]) hpre c.sig hc hlt
    rw [sysSigaction_query hc] at hbefore hafter
    rw [tableAfter_append,sysSigaction_own hc,installed_append,read_sameAsSet hsame hact,Option.getD_some,
      install_own hc hact] at hafter
    exact Option.some_inj.mp (hafter.symm.trans hbefore)
  · intro h
    refine ⟨fun pre c hpre _ i hi => ?_,fun pre hpre sig hsig hlt => ?_,fun pre c _ sig hsig hne => ?_,
      fun pre c _ hret => ?_⟩
    · obtain ⟨hc,htouch,rfl⟩ := (mem_accessed_iff _ c i).mp hi
      have hle := hc.1.2
      have hne : c.sig ≠ 64 := by
        intro h64
        have := (h pre c hpre).inside h64
        tauto
      rw [NSIG] at hle
      omega
    · rw [sysSigaction_query hsig,agrees_of_harmless start h hpre sig hsig hlt]
    · rw [sysSigaction_query hsig,sysSigaction_query hsig,tableAfter_append,sysSigaction_other hsig hne]
    · rw [tableAfter_append]
      obtain ⟨-,he⟩ | ⟨-,he⟩ := sysSigaction_cases (tableAfter start pre) c
      · rw [he]
        exact ⟨rfl,rfl⟩
      · simp [he] at hret

/-- An action with the given handler. -/
def handlerOnly (handler : UInt64) : Sigaction := ⟨handler,0,sigemptyset,0,0⟩

/-- Signal 64 is accepted and its entry is the one behind the table. With one buffer for both actions the
new one is not installed. -/
theorem sigaction_not_map :
    (sysSigaction (tableAfter (fun _ => handlerOnly 7) []) (query 64)).ret = 0 ∧
    (sysSigaction (tableAfter (fun _ => handlerOnly 7) []) (query 64)).accessed = [64] ∧
    (sysSigaction (tableAfter (fun _ => handlerOnly 7) []) (query 64)).oact.map Sigaction.saHandler = some 7 ∧
    (sysSigaction (tableAfter (fun _ => handlerOnly 7) [⟨10,some (handlerOnly 5),.sameAsSet⟩])
      (query 10)).oact.map Sigaction.saHandler = some SIG_DFL := by
  decide

end Linuxab.Kernel
