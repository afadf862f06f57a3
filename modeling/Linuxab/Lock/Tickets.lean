import Linuxab.Base.Slots
import Mathlib.Tactic.NormNum

/-! The ticket lock as counters of 16 bits that a set of processes share. Drawing a ticket advances the
counter by one more than the value read before, which need not be its value at the drawing: the counter
at most doubles, and the tickets behind the first one that is left out are not called before it has gone
round. With up to thirteen processes too few of them are left by then to get into each other's way. -/
namespace Linuxab.Lock
open Linuxab.Base

inductive TicketPc
  | idle
  | loaded (seen : ℕ)
  | waiting (ticket : ℕ)
  | holding
  deriving DecidableEq

/-- The process has read a counter of 0. -/
def TicketPc.fresh : TicketPc → Bool
  | .loaded seen => seen = 0
  | _ => false

/-- The process waits for a number above `gap`. -/
def TicketPc.burned (gap : ℕ) : TicketPc → Bool
  | .waiting ticket => gap < ticket
  | _ => false

lemma TicketPc.burned_iff {gap : ℕ} {pc : TicketPc} : pc.burned gap ↔ ∃ t, pc = .waiting t ∧ gap < t := by
  cases pc <;> simp [TicketPc.burned]

structure Tickets (n : ℕ) where
  head : ℕ
  next : ℕ
  pc : Fin n → TicketPc

namespace Tickets
variable {n : ℕ} {s : Tickets n}

def start (n : ℕ) : Tickets n := ⟨0,0,fun _ => .idle⟩

def step (s : Tickets n) (i : Fin n) : Tickets n :=
  match s.pc i with
  | .idle => { s with pc := Function.update s.pc i (.loaded s.next) }
  | .loaded seen =>
    { s with next := (s.next+(seen+1)) % 65536, pc := Function.update s.pc i (.waiting s.next) }
  | .waiting ticket => if s.head = ticket then { s with pc := Function.update s.pc i .holding } else s
  | .holding => { s with head := (s.head+1) % 65536, pc := Function.update s.pc i .idle }

def Exclusive (s : Tickets n) : Prop := ∀ i j, s.pc i = .holding → s.pc j = .holding → i = j

lemma step_cases (s : Tickets n) (i : Fin n) :
    (s.pc i = .idle ∧ s.step i = { s with pc := Function.update s.pc i (.loaded s.next) }) ∨
    (∃ seen, s.pc i = .loaded seen ∧ s.step i =
      { s with next := (s.next+(seen+1)) % 65536, pc := Function.update s.pc i (.waiting s.next) }) ∨
    (s.pc i = .waiting s.head ∧ s.step i = { s with pc := Function.update s.pc i .holding }) ∨
    (∃ ticket, s.pc i = .waiting ticket ∧ ticket ≠ s.head ∧ s.step i = s) ∨
    (s.pc i = .holding ∧
      s.step i = { s with head := (s.head+1) % 65536, pc := Function.update s.pc i .idle }) := by
  cases hpc : s.pc i with
  | idle => simp [step,hpc]
  | loaded seen => simp [step,hpc]
  | waiting ticket =>
    by_cases ht : s.head = ticket
    · simp [step,hpc,ht]
    · simp [step,hpc,ht,Ne.symm ht]
  | holding => simp [step,hpc]

section Unwrapped

/-- The process waits with the ticket or is served with it. -/
def Ticket (s : Tickets n) (i : Fin n) (t : ℕ) : Prop := s.pc i = .waiting t ∨ s.pc i = .holding ∧ t = s.head

/-- What holds until the counter goes round: the tickets still to be served are distinct and lie
between the one served now and the counter. -/
structure Unwrapped (s : Tickets n) : Prop where
  next_lt : s.next < 65536
  head_le : s.head ≤ s.next
  ticket_mem : ∀ i t, s.Ticket i t → s.head ≤ t ∧ t < s.next
  ticket_inj : ∀ i j t, s.Ticket i t → s.Ticket j t → i = j
  seen_le : ∀ i seen, s.pc i = .loaded seen → seen ≤ s.next

lemma Unwrapped.exclusive (h : s.Unwrapped) : s.Exclusive :=
  fun i j hi hj => h.ticket_inj i j s.head (.inr ⟨hi,rfl⟩) (.inr ⟨hj,rfl⟩)

lemma Unwrapped.holder (h : s.Unwrapped) {i : Fin n} (hi : s.pc i = .holding) : s.head < s.next :=
  (h.ticket_mem i s.head (.inr ⟨hi,rfl⟩)).2

lemma unwrapped_start (n : ℕ) : (start n).Unwrapped := by
  constructor <;> simp [start,Ticket]

lemma ticket_load {i j : Fin n} {seen t : ℕ}
    (h : Ticket { s with pc := Function.update s.pc i (.loaded seen) } j t) : s.Ticket j t := by
  rcases h with h | ⟨h,ht⟩
  · exact .inl (of_slots_update h (by simp)).2
  · exact .inr ⟨(of_slots_update h (by simp)).2,ht⟩

lemma ticket_draw {i j : Fin n} {next t : ℕ}
    (h : Ticket { s with next := next, pc := Function.update s.pc i (.waiting s.next) } j t) :
    j = i ∧ t = s.next ∨ s.Ticket j t := by
  rcases h with h | ⟨h,ht⟩
  · by_cases hj : j = i
    · subst hj
      simp only [Function.update_self,TicketPc.waiting.injEq] at h
      exact .inl ⟨rfl,h.symm⟩
    · exact .inr (.inl (by simpa [Function.update_of_ne hj] using h))
  · exact .inr (.inr ⟨(of_slots_update h (by simp)).2,ht⟩)

lemma ticket_enter {i j : Fin n} {t : ℕ} (hi : s.pc i = .waiting s.head)
    (h : Ticket { s with pc := Function.update s.pc i .holding } j t) : s.Ticket j t := by
  rcases h with h | ⟨h,ht⟩
  · exact .inl (of_slots_update h (by simp)).2
  · by_cases hj : j = i
    · subst hj
      exact .inl (by rw [hi,ht])
    · exact .inr ⟨by simpa [Function.update_of_ne hj] using h,ht⟩

/-- Every ticket left after an unlock was there before and is not the one just served. -/
lemma Unwrapped.ticket_leave (h : s.Unwrapped) {i j : Fin n} {t : ℕ} (hi : s.pc i = .holding)
    (ht : Ticket { s with head := s.head+1, pc := Function.update s.pc i .idle } j t) :
    s.Ticket j t ∧ s.head < t := by
  have hold : s.Ticket i s.head := .inr ⟨hi,rfl⟩
  rcases ht with hw | ⟨hh,-⟩
  · obtain ⟨hj,hw⟩ := of_slots_update hw (by simp)
    refine ⟨.inl hw,lt_of_le_of_ne (h.ticket_mem j t (.inl hw)).1 ?_⟩
    rintro rfl
    exact hj (h.ticket_inj j i _ (.inl hw) hold)
  · obtain ⟨hj,hh⟩ := of_slots_update hh (by simp)
    exact absurd (h.ticket_inj j i _ (.inr ⟨hh,rfl⟩) hold) hj

lemma Unwrapped.load (h : s.Unwrapped) (i : Fin n) :
    Unwrapped { s with pc := Function.update s.pc i (.loaded s.next) } := by
  refine ⟨h.next_lt,h.head_le,fun j t ht => h.ticket_mem j t (ticket_load ht),
    fun j k t hj hk => h.ticket_inj j k t (ticket_load hj) (ticket_load hk),?_⟩
  intro j seen hj
  by_cases hseen : s.next = seen
  · exact hseen.ge
  · exact h.seen_le j seen (of_slots_update hj (by simpa using hseen)).2

/-- Drawing a ticket while the counter does not go round. -/
lemma Unwrapped.draw (h : s.Unwrapped) (i : Fin n) {next : ℕ} (hnext : s.next < next) (hlt : next < 65536) :
    Unwrapped { s with next := next, pc := Function.update s.pc i (.waiting s.next) } := by
  refine ⟨hlt,h.head_le.trans hnext.le,?_,?_,?_⟩
  · intro j t ht
    rcases ticket_draw ht with ⟨-,rfl⟩ | ht
    · exact ⟨h.head_le,hnext⟩
    · exact ⟨(h.ticket_mem j t ht).1,(h.ticket_mem j t ht).2.trans hnext⟩
  · -- the new ticket is the old counter, which every other one is below
    intro j k t hj hk
    rcases ticket_draw hj with ⟨rfl,rfl⟩ | hold <;> rcases ticket_draw hk with ⟨rfl,ht⟩ | hold'
    · rfl
    · exact absurd (h.ticket_mem k _ hold').2 (lt_irrefl _)
    · exact absurd (h.ticket_mem j _ hold).2 ht.ge.not_gt
    · exact h.ticket_inj j k t hold hold'
  · intro j seen hj
    exact (h.seen_le j seen (of_slots_update hj (by simp)).2).trans hnext.le

lemma Unwrapped.enter (h : s.Unwrapped) (i : Fin n) (hi : s.pc i = .waiting s.head) :
    Unwrapped { s with pc := Function.update s.pc i .holding } :=
  ⟨h.next_lt,h.head_le,fun j t ht => h.ticket_mem j t (ticket_enter hi ht),
    fun j k t hj hk => h.ticket_inj j k t (ticket_enter hi hj) (ticket_enter hi hk),
    fun j seen hj => h.seen_le j seen (of_slots_update hj (by simp)).2⟩

lemma Unwrapped.leave (h : s.Unwrapped) (i : Fin n) (hi : s.pc i = .holding) :
    Unwrapped { s with head := s.head+1, pc := Function.update s.pc i .idle } := by
  refine ⟨h.next_lt,h.holder hi,?_,?_,fun j seen hj => h.seen_le j seen (of_slots_update hj (by simp)).2⟩
  · intro j t ht
    obtain ⟨ht,hlt⟩ := h.ticket_leave hi ht
    exact ⟨hlt,(h.ticket_mem j t ht).2⟩
  · intro j k t hj hk
    exact h.ticket_inj j k t (h.ticket_leave hi hj).1 (h.ticket_leave hi hk).1

lemma Unwrapped.head_mod (h : s.Unwrapped) {i : Fin n} (hi : s.pc i = .holding) :
    (s.head+1) % 65536 = s.head+1 :=
  Nat.mod_eq_of_lt ((Nat.succ_le_of_lt (h.holder hi)).trans_lt h.next_lt)

end Unwrapped

section Gap

def freshCount (s : Tickets n) : ℕ := Finset.card {j | (s.pc j).fresh}

def burnedCount (gap : ℕ) (s : Tickets n) : ℕ := Finset.card {j | (s.pc j).burned gap}

lemma freshCount_update (s : Tickets n) (head next : ℕ) (i : Fin n) (a : TicketPc) :
    freshCount ⟨head,next,Function.update s.pc i a⟩+(s.pc i).fresh.toNat = s.freshCount+a.fresh.toNat :=
  card_slots_update TicketPc.fresh s.pc i a

lemma burnedCount_update (gap : ℕ) (s : Tickets n) (head next : ℕ) (i : Fin n) (a : TicketPc) :
    burnedCount gap ⟨head,next,Function.update s.pc i a⟩+((s.pc i).burned gap).toNat
      = s.burnedCount gap+(a.burned gap).toNat :=
  card_slots_update (TicketPc.burned gap) s.pc i a

lemma freshCount_le (s : Tickets n) : s.freshCount ≤ n := by
  simpa [freshCount] using Finset.card_le_univ (Finset.univ.filter fun j => (s.pc j).fresh)

/-- Before a number is left out every ticket came from a counter read as 0, and only before the first
drawing was it read as 0. -/
def Dense (s : Tickets n) : Prop := s.next+s.freshCount ≤ n

/-- The number `gap` has been left out, with `base` one more than the counter after that. -/
structure Gapped (gap base : ℕ) (s : Tickets n) : Prop where
  head_le : s.head ≤ gap
  gap_lt : gap < s.next
  ticket_ne : ∀ i t, s.Ticket i t → t ≠ gap
  base_le_ticket : ∀ i t, s.pc i = .waiting t → gap < t → base ≤ t+1
  base_le : base ≤ s.next+1
  base_le_gap : base ≤ 2*gap
  growth : s.next+1 ≤ base*2^s.burnedCount gap
  fresh : gap+s.freshCount ≤ n+1

lemma Dense.load (h : s.Dense) {i : Fin n} (hi : s.pc i = .idle) :
    Dense { s with pc := Function.update s.pc i (.loaded s.next) } := by
  have hcount := freshCount_update s s.head s.next i (.loaded s.next)
  have hn := freshCount_le { s with pc := Function.update s.pc i (.loaded s.next) }
  simp only [Dense,hi,TicketPc.fresh] at *
  by_cases hz : s.next = 0
  · omega
  · simp [hz] at hcount
    omega

/-- A step that neither reads nor changes the counter. -/
lemma Dense.of_pc (h : s.Dense) {i : Fin n} (head : ℕ) {a : TicketPc} (hi : (s.pc i).fresh = false)
    (ha : a.fresh = false) : Dense { s with head := head, pc := Function.update s.pc i a } := by
  have hcount := freshCount_update s head s.next i a
  simp only [hi,ha,Bool.toNat_false,add_zero] at hcount
  simpa [Dense,hcount] using h

lemma Dense.draw (h : s.Dense) {i : Fin n} (hi : s.pc i = .loaded 0) :
    Dense { s with next := s.next+1, pc := Function.update s.pc i (.waiting s.next) } := by
  have hcount := freshCount_update s s.head (s.next+1) i (.waiting s.next)
  simp only [hi,TicketPc.fresh,decide_true,Bool.toNat_true,Bool.toNat_false,add_zero] at hcount
  simp only [Dense] at *
  omega

/-- The first ticket drawn with another counter than 0 leaves out the number behind it. -/
lemma Dense.gap (h : s.Dense) (hs : s.Unwrapped) {i : Fin n} {seen : ℕ} (hi : s.pc i = .loaded seen)
    (hseen : seen ≠ 0) : Gapped (s.next+1) (s.next+seen+2)
      { s with next := s.next+(seen+1), pc := Function.update s.pc i (.waiting s.next) } := by
  have hle := hs.seen_le i seen hi
  have hcount := freshCount_update s s.head (s.next+(seen+1)) i (.waiting s.next)
  have hlow : ∀ j t, Ticket { s with next := s.next+(seen+1), pc := Function.update s.pc i (.waiting s.next) } j t →
      t ≤ s.next := by
    intro j t ht
    rcases ticket_draw ht with ⟨-,rfl⟩ | ht
    · exact le_refl _
    · exact (hs.ticket_mem j t ht).2.le
  have hhead := hs.head_le
  simp only [hi,TicketPc.fresh,hseen,decide_false,Bool.toNat_false,add_zero] at hcount
  refine ⟨by simp only; omega,by simp only; omega,fun j t ht => ?_,fun j t ht hgap => ?_,
    by simp only; omega,by omega,?_,?_⟩
  · exact (Nat.lt_succ_of_le (hlow j t ht)).ne
  · exact absurd (hlow j t (.inl ht)) (Nat.lt_of_succ_lt hgap).not_ge
  · calc s.next+(seen+1)+1 = (s.next+seen+2)*1 := by omega
      _ ≤ _ := Nat.mul_le_mul_left _ Nat.one_le_two_pow
  · simp only [Dense] at h
    omega

variable {gap base : ℕ}

/-- A step of one party that draws no ticket and is in neither count before it and after it. -/
lemma Gapped.of_pc (h : s.Gapped gap base) {head : ℕ} {i : Fin n} {a : TicketPc} (hhead : head ≤ gap)
    (hticket : ∀ j t, Ticket { s with head := head, pc := Function.update s.pc i a } j t → s.Ticket j t)
    (hwaits : ∀ t, a ≠ .waiting t) (hi : (s.pc i).fresh = false ∧ (s.pc i).burned gap = false)
    (ha : a.fresh = false ∧ a.burned gap = false) :
    Gapped gap base { s with head := head, pc := Function.update s.pc i a } := by
  have hfresh := freshCount_update s head s.next i a
  have hburned := burnedCount_update gap s head s.next i a
  rw [hi.1,ha.1,Bool.toNat_false,add_zero,add_zero] at hfresh
  rw [hi.2,ha.2,Bool.toNat_false,add_zero,add_zero] at hburned
  exact ⟨hhead,h.gap_lt,fun j t ht => h.ticket_ne j t (hticket j t ht),
    fun j t ht => h.base_le_ticket j t (of_slots_update ht (hwaits t)).2,h.base_le,h.base_le_gap,
    by rw [hburned]; exact h.growth,by rw [hfresh]; exact h.fresh⟩

lemma Gapped.load (h : s.Gapped gap base) {i : Fin n} (hi : s.pc i = .idle) :
    Gapped gap base { s with pc := Function.update s.pc i (.loaded s.next) } := by
  have hnext : s.next ≠ 0 := (Nat.zero_le gap).trans_lt h.gap_lt |>.ne'
  refine h.of_pc h.head_le (fun _ _ => ticket_load) (by simp) ?_ ?_
  · rw [hi]
    exact ⟨rfl,rfl⟩
  · exact ⟨decide_eq_false hnext,rfl⟩

lemma Gapped.enter (h : s.Gapped gap base) {i : Fin n} (hi : s.pc i = .waiting s.head) :
    Gapped gap base { s with pc := Function.update s.pc i .holding } := by
  refine h.of_pc h.head_le (fun _ _ => ticket_enter hi) (by simp) ?_ ⟨rfl,rfl⟩
  rw [hi]
  exact ⟨rfl,decide_eq_false h.head_le.not_gt⟩

/-- The number left out is served to nobody. -/
lemma Gapped.leave (h : s.Gapped gap base) (hs : s.Unwrapped) {i : Fin n} (hi : s.pc i = .holding) :
    Gapped gap base { s with head := s.head+1, pc := Function.update s.pc i .idle } := by
  have hlt : s.head < gap := lt_of_le_of_ne h.head_le (h.ticket_ne i s.head (.inr ⟨hi,rfl⟩))
  refine h.of_pc hlt (fun _ _ ht => (hs.ticket_leave hi ht).1) (by simp) ?_ ⟨rfl,rfl⟩
  rw [hi]
  exact ⟨rfl,rfl⟩

section Draw
variable {i : Fin n} {seen : ℕ} (next : ℕ)

lemma Gapped.burnedCount_draw (h : s.Gapped gap base) (hi : s.pc i = .loaded seen) :
    burnedCount gap { s with next := next, pc := Function.update s.pc i (.waiting s.next) }
      = s.burnedCount gap+1 := by
  have hburned := burnedCount_update gap s s.head next i (.waiting s.next)
  simpa [hi,TicketPc.burned,h.gap_lt] using hburned

/-- Drawing a ticket at most doubles the counter, and it burns the process. -/
lemma Gapped.growth_draw (h : s.Gapped gap base) (hs : s.Unwrapped) (hi : s.pc i = .loaded seen) :
    s.next+(seen+1)+1
      ≤ base*2^burnedCount gap { s with next := next, pc := Function.update s.pc i (.waiting s.next) } := by
  have hle := hs.seen_le i seen hi
  have hgrowth := h.growth
  rw [h.burnedCount_draw next hi,pow_succ,← mul_assoc]
  omega

lemma Gapped.base_le_draw (h : s.Gapped gap base) {j : Fin n} {t : ℕ}
    (ht : Function.update s.pc i (.waiting s.next) j = .waiting t) (hgap : gap < t) : base ≤ t+1 := by
  by_cases hnext : s.next = t
  · exact hnext ▸ h.base_le
  · exact h.base_le_ticket j t (of_slots_update ht (by simpa using hnext)).2 hgap

lemma Gapped.draw (h : s.Gapped gap base) (hs : s.Unwrapped) (hi : s.pc i = .loaded seen) :
    Gapped gap base { s with next := s.next+(seen+1), pc := Function.update s.pc i (.waiting s.next) } := by
  have hfresh := freshCount_update s s.head (s.next+(seen+1)) i (.waiting s.next)
  have hgap := h.gap_lt
  have hbase := h.base_le
  have hold := h.fresh
  refine ⟨h.head_le,by simp only; omega,?_,fun j t => h.base_le_draw,by simp only; omega,h.base_le_gap,
    h.growth_draw _ hs hi,?_⟩
  · intro j t ht
    rcases ticket_draw ht with ⟨-,rfl⟩ | ht
    · exact h.gap_lt.ne'
    · exact h.ticket_ne j t ht
  · simp only [TicketPc.fresh,Bool.toNat_false] at hfresh
    omega

end Draw
end Gap

section Wrapped

/-- Nobody can take a step: every process waits for a number that is not served. -/
def Dead (s : Tickets n) : Prop := ∀ i, ∃ t, s.pc i = .waiting t ∧ t ≠ s.head

/-- What the number served obeys once only one process, at `pc`, is left to draw tickets. -/
def Settled (s : Tickets n) : TicketPc → Prop
  | .idle => s.head ≤ 15 ∧ (s.next = s.head → s.head ≤ 14)
  | .loaded seen => seen < 65536 ∧ s.head ≤ 15 ∧ (s.next = s.head → s.head ≤ 14 ∧ (seen = 0 → s.head ≤ 13))
  | .waiting t => s.head ≤ 15 ∧ (t = s.head → s.head ≤ 14 ∧ (s.next = s.head+1 → s.head ≤ 13))
  | .holding => s.head ≤ 14 ∧ (s.next = s.head+1 → s.head ≤ 13)

/-- Every process but `x` waits for a number that stays out of reach. -/
structure Alone (x : Fin n) (s : Tickets n) : Prop where
  next_lt : s.next < 65536
  others : ∀ i, i ≠ x → ∃ t, s.pc i = .waiting t ∧ 16 ≤ t
  settled : s.Settled (s.pc x)

lemma Dead.step (h : s.Dead) (i : Fin n) : (s.step i).Dead := by
  obtain ⟨t,hpc,ht⟩ := h i
  simpa [Tickets.step,hpc,ht.symm] using h

lemma Alone.head_le {x : Fin n} (h : s.Alone x) : s.head ≤ 15 := by
  have hset := h.settled
  cases hpc : s.pc x <;> simp only [hpc,Settled] at hset <;> omega

lemma Alone.exclusive {x : Fin n} (h : s.Alone x) : s.Exclusive := by
  have honly : ∀ i, s.pc i = .holding → i = x := by
    intro i hi
    by_contra hne
    obtain ⟨t,ht,-⟩ := h.others i hne
    rw [hi] at ht
    cases ht
  intro i j hi hj
  rw [honly i hi,honly j hj]

/-- The process that is left has taken a step. -/
lemma Alone.of_update {x : Fin n} (h : s.Alone x) {head next : ℕ} {a : TicketPc} (hnext : next < 65536)
    (ha : Settled ⟨head,next,Function.update s.pc x a⟩ a) : Alone x ⟨head,next,Function.update s.pc x a⟩ := by
  refine ⟨hnext,fun i hi => ?_,?_⟩
  · simpa [Function.update_of_ne hi] using h.others i hi
  · simpa using ha

lemma Alone.step {x : Fin n} (h : s.Alone x) (i : Fin n) : (s.step i).Alone x := by
  have hnext := h.next_lt
  by_cases hx : i = x
  · subst hx
    have hset := h.settled
    rcases s.step_cases i with ⟨hpc,hs⟩ | ⟨seen,hpc,hs⟩ | ⟨hpc,hs⟩ | ⟨t,-,-,hs⟩ | ⟨hpc,hs⟩
    · rw [hs]
      apply h.of_update hnext
      simp only [hpc,Settled] at hset ⊢
      omega
    · rw [hs]
      apply h.of_update (Nat.mod_lt _ (by decide))
      simp only [hpc,Settled] at hset ⊢
      omega
    · rw [hs]
      apply h.of_update hnext
      simp only [hpc,Settled] at hset
      exact hset.2 trivial
    · rwa [hs]
    · rw [hs]
      apply h.of_update hnext
      simp only [hpc,Settled] at hset ⊢
      omega
  · obtain ⟨t,hpc,ht⟩ := h.others i hx
    have hne : s.head ≠ t := by
      have := h.head_le
      omega
    simpa [Tickets.step,hpc,hne] using h

/-- A process that is not burned when the counter goes round cannot come further than to 15. -/
lemma Gapped.settled (hn : n ≤ 13) {gap base : ℕ} (h : s.Gapped gap base) (hs : s.Unwrapped) {x : Fin n}
    (hx : (s.pc x).burned gap = false) (next : ℕ) (pc : Fin n → TicketPc) :
    Settled ⟨s.head,next,pc⟩ (s.pc x) := by
  have hhead := h.head_le
  have hfresh := h.fresh
  cases hpc : s.pc x with
  | idle =>
    simp only [Settled]
    omega
  | loaded seen =>
    have hseen := (hs.seen_le x seen hpc).trans_lt hs.next_lt
    have hpos : seen = 0 → 0 < s.freshCount := by
      intro hz
      exact Finset.card_pos.mpr ⟨x,Finset.mem_filter.mpr ⟨Finset.mem_univ x,by simp [hpc,hz,TicketPc.fresh]⟩⟩
    simp only [Settled]
    omega
  | waiting t =>
    have hne := h.ticket_ne x t (.inl hpc)
    simp only [hpc,TicketPc.burned,decide_eq_false_iff_not] at hx
    simp only [Settled]
    omega
  | holding =>
    have hne := h.ticket_ne x s.head (.inr ⟨hpc,rfl⟩)
    simp only [Settled]
    omega

/-- When the counter goes round, at most one process is not burned. -/
lemma Gapped.wrap (hn : n ≤ 13) {gap base : ℕ} (h : s.Gapped gap base) (hs : s.Unwrapped) {i : Fin n} {seen : ℕ}
    (hi : s.pc i = .loaded seen) (hwrap : 65536 ≤ s.next+(seen+1)) {s' : Tickets n}
    (hs' : s' = { s with next := (s.next+(seen+1)) % 65536, pc := Function.update s.pc i (.waiting s.next) }) :
    s'.Dead ∨ ∃ x, s'.Alone x := by
  have hgrowth : s.next+(seen+1)+1 ≤ base*2^s'.burnedCount gap := hs' ▸ h.growth_draw _ hs hi
  have hbase : base ≤ 28 := by
    have := h.base_le_gap
    have := h.fresh
    omega
  have hburned : ∀ j, (s'.pc j).burned gap → ∃ t, s'.pc j = .waiting t ∧ gap < t ∧ base ≤ t+1 := by
    intro j hj
    obtain ⟨t,ht,hgap⟩ := TicketPc.burned_iff.mp hj
    refine ⟨t,ht,hgap,h.base_le_draw (i := i) (j := j) ?_ hgap⟩
    simpa [hs'] using ht
  -- a base of at most 28 is doubled at least twelve times
  have htwelve : 12 ≤ s'.burnedCount gap := by
    by_contra hlt
    have hpow : 2^s'.burnedCount gap ≤ 2^11 := Nat.pow_le_pow_right (by decide) (by omega)
    have := Nat.mul_le_mul hbase hpow
    omega
  have hsum : s'.burnedCount gap+Finset.card {j | ¬ (s'.pc j).burned gap} = n := by
    simpa [burnedCount] using Finset.card_filter_add_card_filter_not (s := Finset.univ) (fun j => (s'.pc j).burned gap)
  rcases Nat.eq_zero_or_pos (Finset.card {j | ¬ (s'.pc j).burned gap}) with hzero | hpos
  · left
    intro j
    have hj : (s'.pc j).burned gap := by
      by_contra hj
      exact absurd (Finset.card_eq_zero.mp hzero) (Finset.ne_empty_of_mem (a := j) (by simpa using hj))
    obtain ⟨t,ht,hgap,-⟩ := hburned j hj
    refine ⟨t,ht,(lt_of_le_of_lt ?_ hgap).ne'⟩
    simpa [hs'] using h.head_le
  · right
    obtain ⟨x,hx⟩ := Finset.card_eq_one.mp (show Finset.card {j | ¬ (s'.pc j).burned gap} = 1 by omega)
    have hfree : ∀ j, (s'.pc j).burned gap = false ↔ j = x := by
      intro j
      simpa using Finset.ext_iff.mp hx j
    have hbig : 17 ≤ base := by
      have htw : s'.burnedCount gap = 12 := by omega
      rw [htw] at hgrowth
      omega
    have hxi : x ≠ i := by
      rintro rfl
      have := (hfree x).mpr rfl
      simp [hs',TicketPc.burned,h.gap_lt] at this
    refine ⟨x,by simp [hs',Nat.mod_lt],fun j hj => ?_,?_⟩
    · obtain ⟨t,ht,-,hle⟩ := hburned j (by simpa using mt (hfree j).mp hj)
      exact ⟨t,ht,by omega⟩
    · have hold : s'.pc x = s.pc x := by simp [hs',Function.update_of_ne hxi]
      rw [hold,hs']
      exact h.settled hn hs (hold ▸ (hfree x).mpr rfl) _ _

end Wrapped

section Run

def Inv (s : Tickets n) : Prop :=
  s.Unwrapped ∧ (s.Dense ∨ ∃ gap base, s.Gapped gap base) ∨ s.Dead ∨ ∃ x, s.Alone x

lemma inv_start (n : ℕ) : (start n).Inv := by
  refine .inl ⟨unwrapped_start n,.inl ?_⟩
  simpa [Dense,start] using freshCount_le (start n)

/-- Drawing a ticket before the counter has gone round. -/
lemma Unwrapped.inv_draw (hn : n ≤ 13) (hs : s.Unwrapped) (h : s.Dense ∨ ∃ gap base, s.Gapped gap base)
    {i : Fin n} {seen : ℕ} (hi : s.pc i = .loaded seen) :
    Inv { s with next := (s.next+(seen+1)) % 65536, pc := Function.update s.pc i (.waiting s.next) } := by
  have hle := hs.seen_le i seen hi
  rcases lt_or_ge (s.next+(seen+1)) 65536 with hlt | hge
  · rw [Nat.mod_eq_of_lt hlt]
    refine .inl ⟨hs.draw i (by omega) hlt,?_⟩
    rcases h with h | ⟨gap,base,h⟩
    · by_cases hseen : seen = 0
      · subst hseen
        exact .inl (h.draw hi)
      · exact .inr ⟨_,_,h.gap hs hi hseen⟩
    · exact .inr ⟨gap,base,h.draw hs hi⟩
  · rcases h with h | ⟨gap,base,h⟩
    · -- a counter without a gap is at most the number of processes
      simp only [Dense] at h
      omega
    · exact .inr (h.wrap hn hs hi hge rfl)

lemma Inv.step (hn : n ≤ 13) (h : s.Inv) (i : Fin n) : (s.step i).Inv := by
  rcases h with ⟨hs,h⟩ | h | ⟨x,h⟩
  · rcases s.step_cases i with ⟨hpc,hstep⟩ | ⟨seen,hpc,hstep⟩ | ⟨hpc,hstep⟩ | ⟨t,-,-,hstep⟩ | ⟨hpc,hstep⟩
    · rw [hstep]
      refine .inl ⟨hs.load i,?_⟩
      rcases h with h | ⟨gap,base,h⟩
      · exact .inl (h.load hpc)
      · exact .inr ⟨gap,base,h.load hpc⟩
    · rw [hstep]
      exact hs.inv_draw hn h hpc
    · rw [hstep]
      refine .inl ⟨hs.enter i hpc,?_⟩
      rcases h with h | ⟨gap,base,h⟩
      · exact .inl (h.of_pc s.head (by simp [hpc,TicketPc.fresh]) rfl)
      · exact .inr ⟨gap,base,h.enter hpc⟩
    · rw [hstep]
      exact .inl ⟨hs,h⟩
    · rw [hstep,hs.head_mod hpc]
      refine .inl ⟨hs.leave i hpc,?_⟩
      rcases h with h | ⟨gap,base,h⟩
      · exact .inl (h.of_pc (s.head+1) (by simp [hpc,TicketPc.fresh]) rfl)
      · exact .inr ⟨gap,base,h.leave hs hpc⟩
  · exact .inr (.inl (h.step i))
  · exact .inr (.inr ⟨x,h.step i⟩)

lemma Inv.exclusive (h : s.Inv) : s.Exclusive := by
  rcases h with ⟨hs,-⟩ | h | ⟨x,h⟩
  · exact hs.exclusive
  · intro i j hi
    obtain ⟨t,ht,-⟩ := h i
    rw [hi] at ht
    cases ht
  · exact h.exclusive

/-- At most thirteen processes exclude each other in every run. -/
theorem exclusive_run (hn : n ≤ 13) (schedule : List (Fin n)) : (schedule.foldl step (start n)).Exclusive := by
  apply Inv.exclusive
  exact List.foldlRecOn schedule step (inv_start n) fun s hs i _ => hs.step hn i

end Run
end Tickets
end Linuxab.Lock
