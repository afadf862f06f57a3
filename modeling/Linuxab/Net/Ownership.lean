import Linuxab.Net.Stack

/-! Who owns a buffer. On every path through the stack the buffer is given away exactly once, to
`kfree_skb`, to a driver's `hard_start_xmit` or to `arp_rcv`, and is not touched afterwards. The
answers to all commands are arbitrary, so no packet contents, device list or lookup result is
excluded. -/
namespace Linuxab.Net
open Linuxab.Base Linuxab.Base.Program

/-- The command reads or writes the buffer or its bytes. -/
def Touches : Event NetCmd → Bool
  | ⟨.getSkb,_⟩ | ⟨.setSkb _,_⟩ | ⟨.skbPull _,_⟩ | ⟨.load _ _,_⟩ | ⟨.store _ _,_⟩ => true
  | _ => false

/-- The command hands the buffer to its next owner. -/
def GivesAway : Event NetCmd → Bool
  | ⟨.kfreeSkb,_⟩ | ⟨.hardStartXmit _,_⟩ | ⟨.arpRcv,_⟩ => true
  | _ => false

def Allocates : Event NetCmd → Bool
  | ⟨.kmallocPage,some _⟩ => true
  | _ => false

/-- One event gives the buffer away; no other does, and nothing touches it afterwards. -/
def GivenAwayOnce (tr : List (Event NetCmd)) : Prop :=
  ∃ before give after, tr = before ++ give::after ∧ GivesAway give ∧
    (∀ e ∈ before, ¬ GivesAway e) ∧ ∀ e ∈ after, ¬ GivesAway e ∧ ¬ Touches e

/-- Every buffer obtained is given away once, and without one nothing is touched or given away. -/
def AllocationsGivenAway (tr : List (Event NetCmd)) : Prop :=
  (∀ before e after, tr = before ++ e::after → Allocates e → GivenAwayOnce after) ∧
  ((∀ e ∈ tr, ¬ Allocates e) → ∀ e ∈ tr, ¬ GivesAway e ∧ ¬ Touches e)

/-- The ghost state: no buffer yet, a buffer in hand, or one that was given away. -/
inductive Custody
  | none
  | held
  | gone
  deriving DecidableEq

def Custody.step (s : Custody) (e : Event NetCmd) : Option Custody :=
  if Touches e then if s = .held then some .held else Option.none
  else if GivesAway e then if s = .held then some .gone else Option.none
  else if Allocates e then if s = .none then some .held else Option.none
  else some s

section Traces
variable {tr : List (Event NetCmd)} {s t : Custody} {e : Event NetCmd}

lemma quiet_of_touches (h : Touches e) : ¬ GivesAway e ∧ ¬ Allocates e := by
  rcases e with ⟨c,b⟩
  cases c <;> simp_all [Touches,GivesAway,Allocates]

lemma not_allocates_of_givesAway (h : GivesAway e) : ¬ Allocates e := by
  rcases e with ⟨c,b⟩
  cases c <;> simp_all [GivesAway,Allocates]

/-- What the automaton can do: nothing, or touch, give away or obtain the buffer. -/
lemma Custody.step_cases (h : s.step e = some t) :
    (t = s ∧ ¬ Touches e ∧ ¬ GivesAway e ∧ ¬ Allocates e) ∨
    (s = .held ∧ t = .held ∧ ¬ GivesAway e ∧ ¬ Allocates e) ∨
    (s = .held ∧ t = .gone ∧ GivesAway e ∧ ¬ Allocates e) ∨
    (s = .none ∧ t = .held ∧ Allocates e) := by
  unfold Custody.step at h
  split_ifs at h with htouch hs hgive hs halloc hs <;> cases h
  · exact .inr (.inl ⟨hs,rfl,quiet_of_touches htouch⟩)
  · exact .inr (.inr (.inl ⟨hs,rfl,hgive,not_allocates_of_givesAway hgive⟩))
  · exact .inr (.inr (.inr ⟨hs,rfl,halloc⟩))
  · exact .inl ⟨rfl,htouch,hgive,halloc⟩

lemma gone_quiet (h : tr.foldlM Custody.step .gone = some t) : ∀ e ∈ tr, ¬ GivesAway e ∧ ¬ Touches e := by
  induction tr with
  | nil => simp
  | cons e tr ih =>
    obtain ⟨u,hu,h⟩ := foldlM_cons_eq_some.mp h
    obtain ⟨rfl,htouch,hgive,-⟩ | ⟨hs,-⟩ | ⟨hs,-⟩ | ⟨hs,-⟩ := Custody.step_cases hu
    · exact List.forall_mem_cons.mpr ⟨⟨hgive,htouch⟩,ih h⟩
    all_goals cases hs

lemma GivenAwayOnce.cons (h : GivenAwayOnce tr) (he : ¬ GivesAway e) : GivenAwayOnce (e::tr) := by
  obtain ⟨before,give,after,rfl,hgive,hbefore,hafter⟩ := h
  exact ⟨e::before,give,after,rfl,hgive,List.forall_mem_cons.mpr ⟨he,hbefore⟩,hafter⟩

/-- A path that the automaton takes from `held` to `gone` gives the buffer away once. -/
lemma givenAwayOnce_of_held (h : tr.foldlM Custody.step .held = some .gone) : GivenAwayOnce tr := by
  induction tr with
  | nil => cases h
  | cons e tr ih =>
    obtain ⟨u,hu,h⟩ := foldlM_cons_eq_some.mp h
    obtain ⟨rfl,-,hgive,-⟩ | ⟨-,rfl,hgive,-⟩ | ⟨-,rfl,hgive,-⟩ | ⟨hs,-⟩ := Custody.step_cases hu
    · exact (ih h).cons hgive
    · exact (ih h).cons hgive
    · exact ⟨[],e,tr,rfl,hgive,by simp,gone_quiet h⟩
    · cases hs

/-- Once there was a buffer, no second one is allocated. -/
lemma no_second_buffer (hs : s ≠ .none) (h : tr.foldlM Custody.step s = some t) :
    t ≠ .none ∧ ∀ e ∈ tr, ¬ Allocates e := by
  induction tr generalizing s with
  | nil => exact ⟨Option.some.inj h ▸ hs,by simp⟩
  | cons e tr ih =>
    obtain ⟨u,hu,h⟩ := foldlM_cons_eq_some.mp h
    have hstep : u ≠ .none ∧ ¬ Allocates e := by
      obtain ⟨rfl,-,-,ha⟩ | ⟨-,rfl,-,ha⟩ | ⟨-,rfl,-,ha⟩ | ⟨hn,-⟩ := Custody.step_cases hu
      · exact ⟨hs,ha⟩
      · exact ⟨by decide,ha⟩
      · exact ⟨by decide,ha⟩
      · exact absurd hn hs
    obtain ⟨hne,hno⟩ := ih hstep.1 h
    exact ⟨hne,List.forall_mem_cons.mpr ⟨hstep.2,hno⟩⟩

lemma AllocationsGivenAway.cons_quiet (h : AllocationsGivenAway tr) (he : ¬ GivesAway e ∧ ¬ Touches e)
    (ha : ¬ Allocates e) : AllocationsGivenAway (e::tr) := by
  constructor
  · intro before x after hsplit hx
    cases before with
    | nil =>
      cases hsplit
      exact absurd hx ha
    | cons y ys =>
      cases hsplit
      exact h.1 ys x after rfl hx
  · intro hall
    exact List.forall_mem_cons.mpr ⟨he,h.2 (List.forall_mem_cons.mp hall).2⟩

lemma allocationsGivenAway_cons_allocates (ha : Allocates e) (hgive : GivenAwayOnce tr)
    (hno : ∀ x ∈ tr, ¬ Allocates x) : AllocationsGivenAway (e::tr) := by
  constructor
  · intro before x after hsplit hx
    cases before with
    | nil =>
      cases hsplit
      exact hgive
    | cons y ys =>
      cases hsplit
      exact absurd hx (hno x (by simp))
  · intro hall
    exact absurd ha (hall e (by simp))

lemma allocationsGivenAway_of_none (h : tr.foldlM Custody.step .none = some t) (ht : t = .none ∨ t = .gone) :
    AllocationsGivenAway tr := by
  induction tr with
  | nil => exact ⟨by simp,by simp⟩
  | cons e tr ih =>
    obtain ⟨u,hu,h⟩ := foldlM_cons_eq_some.mp h
    obtain ⟨rfl,htouch,hgive,ha⟩ | ⟨hs,-⟩ | ⟨hs,-⟩ | ⟨-,rfl,ha⟩ := Custody.step_cases hu
    · exact (ih h).cons_quiet ⟨hgive,htouch⟩ ha
    · cases hs
    · cases hs
    · obtain ⟨hne,hno⟩ := no_second_buffer (by decide) h
      obtain rfl : t = .gone := ht.resolve_left hne
      exact allocationsGivenAway_cons_allocates ha (givenAwayOnce_of_held h) hno

end Traces

section Rules
variable {α : Type} {Q : α → Custody → Prop}

lemma held_getSkb {f : SkBuff → NetProg α} (h : ∀ skb, (f skb).Accepts Custody.step .held Q) :
    (getSkb >>= f).Accepts Custody.step .held Q := fun skb => ⟨.held,rfl,h skb⟩

lemma held_setSkb {f : Unit → NetProg α} {skb : SkBuff} (h : (f ()).Accepts Custody.step .held Q) :
    (setSkb skb >>= f).Accepts Custody.step .held Q := fun _ => ⟨.held,rfl,h⟩

lemma held_skbPull {f : Unit → NetProg α} {len : UInt32} (h : (f ()).Accepts Custody.step .held Q) :
    (skbPull len >>= f).Accepts Custody.step .held Q := fun _ => ⟨.held,rfl,h⟩

lemma held_store {f : Unit → NetProg α} {a : ℤ} {bytes : List UInt8}
    (h : (f ()).Accepts Custody.step .held Q) : (store a bytes >>= f).Accepts Custody.step .held Q :=
  fun _ => ⟨.held,rfl,h⟩

lemma held_load {f : List UInt8 → NetProg α} {a : ℤ} {n : ℕ}
    (h : ∀ bytes, (f bytes).Accepts Custody.step .held Q) :
    (load a n >>= f).Accepts Custody.step .held Q := fun v => ⟨.held,rfl,h v.toList⟩

lemma held_load8 {f : UInt8 → NetProg α} {a : ℤ} (h : ∀ b, (f b).Accepts Custody.step .held Q) :
    (load8 a >>= f).Accepts Custody.step .held Q := fun v => ⟨.held,rfl,h (v.get 0)⟩

lemma held_load16 {f : UInt16 → NetProg α} {a : ℤ} (h : ∀ b, (f b).Accepts Custody.step .held Q) :
    (load16 a >>= f).Accepts Custody.step .held Q := fun _ => ⟨.held,rfl,h _⟩

lemma held_load32 {f : UInt32 → NetProg α} {a : ℤ} (h : ∀ b, (f b).Accepts Custody.step .held Q) :
    (load32 a >>= f).Accepts Custody.step .held Q := fun _ => ⟨.held,rfl,h _⟩

lemma held_skbPush {f : ℤ → NetProg α} {len : UInt32} (h : ∀ a, (f a).Accepts Custody.step .held Q) :
    (skbPush len >>= f).Accepts Custody.step .held Q :=
  fun _ => ⟨.held,rfl,fun _ => ⟨.held,rfl,h _⟩⟩

lemma held_skbPut {f : ℤ → NetProg α} {len : UInt32} (h : ∀ a, (f a).Accepts Custody.step .held Q) :
    (skbPut len >>= f).Accepts Custody.step .held Q :=
  fun _ => ⟨.held,rfl,fun _ => ⟨.held,rfl,h _⟩⟩

lemma held_skbReserve {f : Unit → NetProg α} {len : ℤ} (h : (f ()).Accepts Custody.step .held Q) :
    (skbReserve len >>= f).Accepts Custody.step .held Q :=
  fun _ => ⟨.held,rfl,fun _ => ⟨.held,rfl,h⟩⟩

lemma held_reach {f : Unit → NetProg α} {place : Place} (h : (f ()).Accepts Custody.step .held Q) :
    (reach place >>= f).Accepts Custody.step .held Q := fun _ => ⟨.held,rfl,h⟩

lemma held_printk {f : Unit → NetProg α} {level : LogLevel} {format : String} {args : List ℕ}
    (h : (f ()).Accepts Custody.step .held Q) :
    (printk level format args >>= f).Accepts Custody.step .held Q := fun _ => ⟨.held,rfl,h⟩

lemma held_devGetByName {f : Option NetDevice → NetProg α} {name : String}
    (h : ∀ dev, (f dev).Accepts Custody.step .held Q) :
    (perform (.devGetByName name) >>= f).Accepts Custody.step .held Q := fun dev => ⟨.held,rfl,h dev⟩

lemma held_loadUninit {f : UInt8 → NetProg α} {received : UInt8}
    (h : ∀ b, (f b).Accepts Custody.step .held Q) :
    (perform (.loadUninit received) >>= f).Accepts Custody.step .held Q := fun b => ⟨.held,rfl,h b⟩

/-- Freeing the buffer and returning ends in `gone`. -/
lemma held_kfreeSkb {a : α} (h : Q a .gone) :
    (kfreeSkb >>= fun _ => ret a).Accepts Custody.step .held Q := fun _ => ⟨.gone,rfl,h⟩

end Rules

/-- The function takes the buffer in hand and gives it away. -/
def Consumes {α : Type} (p : NetProg α) : Prop :=
  p.Accepts Custody.step .held (fun _ s => s = .gone)

lemma Consumes.discard {α : Type} {p : NetProg α} (h : Consumes p) {β : Type} (b : β) :
    Consumes (p >>= fun _ => ret b) :=
  h.bind (fun _ _ hs => hs)

section Functions

lemma consumes_kfreeSkb : Consumes kfreeSkb := fun _ => ⟨.gone,rfl,rfl⟩

theorem consumes_devQueueXmit : Consumes devQueueXmit := by
  apply held_reach
  apply held_getSkb
  intro skb
  split
  · exact held_kfreeSkb rfl
  · split_ifs
    · exact held_kfreeSkb rfl
    · exact held_kfreeSkb rfl
    · exact fun _ => ⟨.gone,rfl,rfl⟩

theorem consumes_ipOutput : Consumes ipOutput := by
  apply held_getSkb
  intro skb
  apply held_devGetByName
  intro dev
  cases dev with
  | none => exact held_kfreeSkb rfl
  | some dev =>
    refine held_getSkb fun skb => held_setSkb (held_load8 fun ttl => held_store (held_load8 fun ttl => ?_))
    split_ifs
    · exact held_kfreeSkb rfl
    · refine held_store (held_load8 fun ihl => held_load fun header => held_store ?_)
      exact held_skbPush fun _ => held_getSkb fun _ => held_setSkb consumes_devQueueXmit

theorem consumes_ipBuildAndSendPkt (saddr daddr : UInt32) :
    Consumes (ipBuildAndSendPkt saddr daddr) := by
  refine held_skbPush fun _ => held_getSkb fun skb => held_setSkb ?_
  refine held_load8 fun _ => held_store (held_load8 fun _ => held_store (held_store ?_))
  refine held_getSkb fun _ => held_store (held_store (held_store (held_store ?_)))
  refine held_getSkb fun _ => held_store (held_store (held_store (held_store ?_)))
  exact held_load8 fun _ => held_load fun _ => held_store consumes_ipOutput

theorem consumes_tcpRcv : Consumes tcpRcv := by
  refine held_reach (held_getSkb fun skb => held_load8 fun doff => ?_)
  refine held_load16 fun _ => held_load16 fun _ => held_load32 fun _ => held_load32 fun _ => ?_
  exact held_load8 fun _ => held_printk (held_skbPull (held_reach (held_kfreeSkb rfl)))

theorem consumes_udpRcv : Consumes udpRcv := by
  refine held_reach (held_getSkb fun skb => held_load16 fun _ => held_load16 fun _ => ?_)
  exact held_load16 fun _ => held_printk (held_skbPull (held_reach (held_kfreeSkb rfl)))

/-- An echo request goes back out through `ip_output`. -/
theorem consumes_icmpRcv : Consumes icmpRcv := by
  refine held_reach (held_getSkb fun skb => held_load8 fun _ => held_load8 fun _ => held_printk ?_)
  refine held_load8 fun type => ?_
  dsimp only
  split_ifs
  · refine held_getSkb fun _ => held_load8 fun _ => held_load32 fun _ => held_load32 fun _ => ?_
    refine held_store (held_store (held_store (held_store (held_getSkb fun _ => ?_))))
    exact held_load fun _ => held_store (held_getSkb fun _ => held_setSkb (consumes_ipOutput.discard 0))
  · exact held_kfreeSkb rfl

theorem consumes_ipLocalDeliver (received : UInt8) : Consumes (ipLocalDeliver received) := by
  refine held_loadUninit fun _ => held_getSkb fun _ => held_load8 fun protocol => ?_
  split_ifs
  · exact consumes_tcpRcv
  · exact consumes_udpRcv
  · exact consumes_icmpRcv
  · exact held_printk (held_kfreeSkb rfl)

theorem consumes_ipRcv : Consumes ipRcv := by
  refine held_getSkb fun skb => held_load8 fun version => ?_
  split_ifs
  · exact held_kfreeSkb rfl
  · refine held_load8 fun ihl => ?_
    split_ifs
    · exact held_kfreeSkb rfl
    · refine held_load16 fun totLen => held_getSkb fun skb => ?_
      dsimp only
      split_ifs
      · exact held_kfreeSkb rfl
      · refine held_load8 fun _ => held_load fun header => ?_
        split_ifs
        · refine held_printk (held_load8 fun _ => held_printk (held_load8 fun _ => held_skbPull ?_))
          exact consumes_ipLocalDeliver _
        · refine held_load8 fun _ => held_printk (held_load8 fun _ => held_skbPull ?_)
          exact consumes_ipLocalDeliver _

lemma held_ethTypeTrans (dev : Option NetDevice) :
    (ethTypeTrans dev).Accepts Custody.step .held (fun _ s => s = .held) := by
  refine held_getSkb fun _ => held_setSkb (held_load16 fun _ => held_getSkb fun _ => held_setSkb ?_)
  exact held_load fun _ => held_getSkb fun _ => held_setSkb (held_skbPull (held_getSkb fun _ => rfl))

theorem consumes_ethRcv : Consumes ethRcv := by
  refine held_getSkb fun skb => (held_ethTypeTrans _).bind ?_
  rintro proto _ rfl
  split_ifs
  · exact consumes_ipRcv.discard ()
  · exact held_printk consumes_kfreeSkb
  · exact held_printk consumes_kfreeSkb

theorem consumes_netifRx : Consumes netifRx := by
  refine held_getSkb fun skb => ?_
  split_ifs
  · exact consumes_ipRcv.discard ()
  · refine held_getSkb fun skb => ?_
    split_ifs
    · exact fun _ => ⟨.gone,rfl,rfl⟩
    · exact consumes_kfreeSkb

/-- A send function that gets a page holds the buffer from then on. -/
lemma none_allocSkb {size : UInt32} {f : Bool → NetProg ℤ} (hf : Consumes (f true))
    (hn : f false = ret (-1)) :
    (allocSkb size >>= f).Accepts Custody.step .none (fun _ s => s = .none ∨ s = .gone) := by
  rintro (_ | page)
  · refine ⟨.none,rfl,?_⟩
    change (f false).Accepts _ _ _
    rw [hn]
    exact .inl rfl
  · exact ⟨.held,rfl,fun _ => ⟨.held,rfl,hf.imp fun _ _ => .inr⟩⟩

lemma none_udpSendmsg (inet : InetSock) (payload : List UInt8) (size : UInt64) :
    (udpSendmsg inet payload size).Accepts Custody.step .none (fun _ s => s = .none ∨ s = .gone) := by
  refine none_allocSkb ?_ rfl
  refine held_skbReserve (held_skbPut fun _ => held_store (held_skbPush fun _ => ?_))
  refine held_store (held_store (held_getSkb fun _ => held_store (held_store ?_)))
  exact consumes_ipBuildAndSendPkt _ _

lemma none_tcpSendmsg (inet : InetSock) (payload : List UInt8) (size : UInt64) :
    (tcpSendmsg inet payload size).Accepts Custody.step .none (fun _ s => s = .none ∨ s = .gone) := by
  refine none_allocSkb ?_ rfl
  refine held_skbReserve (held_skbPut fun _ => held_store (held_skbPush fun _ => ?_))
  refine held_getSkb fun _ => held_setSkb (held_store (held_store (held_store ?_)))
  refine held_store (held_store (held_load8 fun _ => held_store (held_load8 fun _ => held_store ?_)))
  refine held_load8 fun _ => held_store (held_store (held_store ?_))
  exact consumes_ipBuildAndSendPkt _ _

end Functions

/-- The function gives the buffer in hand away exactly once, whatever its commands return. -/
def OwnsLinearly {α : Type} (p : NetProg α) : Prop := ∀ tr a, p.Path tr a → GivenAwayOnce tr

/-- The function gives every buffer it allocates away exactly once. -/
def AllocatesLinearly {α : Type} (p : NetProg α) : Prop :=
  ∀ tr a, p.Path tr a → AllocationsGivenAway tr

lemma Consumes.ownsLinearly {α : Type} {p : NetProg α} (h : Consumes p) : OwnsLinearly p := by
  intro tr a hp
  obtain ⟨s,hs,rfl⟩ := h.path hp
  exact givenAwayOnce_of_held hs

lemma allocatesLinearly_of_accepts {α : Type} {p : NetProg α}
    (h : p.Accepts Custody.step .none (fun _ s => s = .none ∨ s = .gone)) : AllocatesLinearly p := by
  intro tr a hp
  obtain ⟨t,ht,hq⟩ := h.path hp
  exact allocationsGivenAway_of_none ht hq

/-- On every path of every function of the stack the buffer is given away exactly once, and so is
every buffer that a send function allocates. -/
theorem buffers_owned_linearly :
    OwnsLinearly ethRcv ∧ OwnsLinearly netifRx ∧ OwnsLinearly ipRcv ∧ OwnsLinearly ipOutput ∧
    (∀ saddr daddr, OwnsLinearly (ipBuildAndSendPkt saddr daddr)) ∧ OwnsLinearly devQueueXmit ∧
    ∀ inet payload size, AllocatesLinearly (udpSendmsg inet payload size) ∧
      AllocatesLinearly (tcpSendmsg inet payload size) := by
  refine ⟨consumes_ethRcv.ownsLinearly,consumes_netifRx.ownsLinearly,consumes_ipRcv.ownsLinearly,
    consumes_ipOutput.ownsLinearly,?_,consumes_devQueueXmit.ownsLinearly,?_⟩
  · intro saddr daddr
    exact (consumes_ipBuildAndSendPkt saddr daddr).ownsLinearly
  · intro inet payload size
    exact ⟨allocatesLinearly_of_accepts (none_udpSendmsg inet payload size),
      allocatesLinearly_of_accepts (none_tcpSendmsg inet payload size)⟩

theorem buffers_owned_linearly_no_device : ∃ tr, ipOutput.Path tr (-1) ∧ GivenAwayOnce tr := by
  have hp : ipOutput.Path [⟨.getSkb,⟨0,0,0,0,0,none,none,0,.host,0⟩⟩,⟨.devGetByName "eth0",none⟩,
      ⟨.kfreeSkb,()⟩] (-1) := .call _ (.call none (.call () (.ret _)))
  exact ⟨_,hp,buffers_owned_linearly.2.2.2.1 _ _ hp⟩

end Linuxab.Net
