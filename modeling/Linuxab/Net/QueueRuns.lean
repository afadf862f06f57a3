import Mathlib.Data.Finset.Option
import Mathlib.Logic.Relation
import Linuxab.Net.SkbQueue

/-! Runs of the queue functions on any number of lists. A world pairs the heap state with what
the callers know: which buffers they passed to each list and got back. -/
namespace Linuxab.Net.Queue
open Linuxab.Base

/-- `queued` is the callers' view of every initialised list; `passed` and `returned` log the
arguments of `skb_queue_tail` and the results of `skb_dequeue`. -/
structure QueueWorld (H B : Type*) where
  state : QueueState H B
  queued : H → Option (Finset (Node H B))
  passed : List (Node H B)
  returned : List (Node H B)

/-- No list is initialised and nothing has been released. -/
structure QueueWorld.Fresh {H B : Type*} (w : QueueWorld H B) : Prop where
  queued : ∀ l, w.queued l = none
  passed : w.passed = []
  returned : w.returned = []
  released : w.state.released = []

section Runs
variable {H B : Type*} [DecidableEq H] [DecidableEq B]

/-- One call. A list is initialised once and before its use, and a buffer is queued only while
it is on no list. -/
inductive QueueStep : QueueWorld H B → QueueWorld H B → Prop
  | init (w : QueueWorld H B) (l : H) (h : w.queued l = none) :
      QueueStep w { w with
        state := skbQueueHeadInit w.state l
        queued := Function.update w.queued l (some ∅) }
  | tail (w : QueueWorld H B) (l : H) (q : Finset (Node H B)) (b : B) (h : w.queued l = some q)
      (free : ∀ m r, w.queued m = some r → Node.skb b ∉ r) :
      QueueStep w { w with
        state := skbQueueTail w.state l (.skb b)
        queued := Function.update w.queued l (some (insert (.skb b) q))
        passed := w.passed ++ [.skb b] }
  | dequeue (w : QueueWorld H B) (l : H) (q : Finset (Node H B)) (h : w.queued l = some q) :
      QueueStep w { w with
        state := (skbDequeue w.state l).2
        queued := Function.update w.queued l (some (q \ (skbDequeue w.state l).1.toFinset))
        returned := w.returned ++ (skbDequeue w.state l).1.toList }
  | purge (w : QueueWorld H B) (l : H) (q : Finset (Node H B)) (fuel : ℕ) (t : QueueState H B)
      (h : w.queued l = some q) (ended : skbQueuePurge fuel w.state l = some t) :
      QueueStep w { w with
        state := t
        queued := Function.update w.queued l (some ∅) }

/-- Worlds reached from a fresh one by any sequence of calls. -/
def QueueReachable (w : QueueWorld H B) : Prop :=
  ∃ v : QueueWorld H B, v.Fresh ∧ Relation.ReflTransGen QueueStep v w

def members (xs : List B) : Finset (Node H B) := (xs.map Node.skb).toFinset

lemma members_cons (b : B) (xs : List B) :
    (members (b::xs) : Finset (Node H B)) = insert (.skb b) (members xs) := by
  simp [members]

/-- The node is a buffer of some list other than `l`. -/
def Elsewhere (c : Contents H B) (l : H) (n : Node H B) : Prop :=
  ∃ m ys, m ≠ l ∧ c m = some ys ∧ n ∈ ys.map Node.skb

def OnSomeList (c : Contents H B) (n : Node H B) : Prop :=
  ∃ l xs, c l = some xs ∧ n ∈ xs.map Node.skb

open Classical in
/-- How often a node is on the lists: at most once. -/
noncomputable def presence (c : Contents H B) (n : Node H B) : ℕ := if OnSomeList c n then 1 else 0

open Classical in
noncomputable def presenceElsewhere (c : Contents H B) (l : H) (n : Node H B) : ℕ :=
  if Elsewhere c l n then 1 else 0

/-- Every buffer passed in is on a list, was handed back or was released. -/
def Balanced (w : QueueWorld H B) (c : Contents H B) : Prop :=
  ∀ n, w.passed.count n = w.returned.count n + w.state.released.count n + presence c n

/-- The invariant of every run. -/
structure QueueWorld.Inv (w : QueueWorld H B) (c : Contents H B) : Prop where
  rep : Represents w.state c
  queued : ∀ l, w.queued l = (c l).map members
  balanced : Balanced w c

omit [DecidableEq B] in
lemma presenceElsewhere_update (c : Contents H B) (l : H) (v : Option (List B)) (n : Node H B) :
    presenceElsewhere (Function.update c l v) l n = presenceElsewhere c l n := by
  have he : Elsewhere (Function.update c l v) l n ↔ Elsewhere c l n := by
    constructor
    · rintro ⟨m,ys,hm,hc,hn⟩
      exact ⟨m,ys,hm,by rwa [Function.update_of_ne hm] at hc,hn⟩
    · rintro ⟨m,ys,hm,hc,hn⟩
      exact ⟨m,ys,hm,by rwa [Function.update_of_ne hm],hn⟩
  classical exact if_congr he rfl rfl

/-- A buffer is counted once, on the list `l` or elsewhere. -/
lemma Represents.presence_split {s : QueueState H B} {c : Contents H B} (h : Represents s c) {l : H}
    {xs : List B} (hl : c l = some xs) (n : Node H B) :
    presence c n = (xs.map Node.skb).count n + presenceElsewhere c l n := by
  have hnd : (xs.map (Node.skb (H := H))).Nodup := (List.nodup_cons.mp (h.ring l xs hl).nodup).2
  unfold presence presenceElsewhere
  by_cases hn : n ∈ xs.map Node.skb
  · have he : ¬ Elsewhere c l n := by
      rintro ⟨m,ys,hm,hc,hy⟩
      obtain ⟨b,hb,rfl⟩ := List.mem_map.mp hn
      exact h.disjoint l m xs ys hm.symm hl hc hb (by simpa using hy)
    rw [if_pos ⟨l,xs,hl,hn⟩,if_neg he,List.count_eq_one_of_mem hnd hn]
  · have he : OnSomeList c n ↔ Elsewhere c l n := by
      constructor
      · rintro ⟨m,ys,hc,hy⟩
        refine ⟨m,ys,?_,hc,hy⟩
        rintro rfl
        rw [hl] at hc
        cases hc
        exact hn hy
      · rintro ⟨m,ys,_,hc,hy⟩
        exact ⟨m,ys,hc,hy⟩
    rw [List.count_eq_zero_of_not_mem hn,Nat.zero_add]
    classical exact if_congr he rfl rfl

/-- Changing one list changes a node's presence by its count on that list. -/
lemma Represents.presence_update {s : QueueState H B} {c : Contents H B} {l : H} {xs : List B}
    (h : Represents s (Function.update c l (some xs))) (n : Node H B) :
    presence (Function.update c l (some xs)) n =
      (xs.map Node.skb).count n + presenceElsewhere c l n := by
  rw [h.presence_split (Function.update_self l _ c),presenceElsewhere_update]

lemma inv_fresh {w : QueueWorld H B} (h : w.Fresh) : w.Inv (fun _ => none) := by
  refine ⟨⟨by simp,by simp,by simp⟩,by simp [h.queued],?_⟩
  intro n
  have hn : ¬ OnSomeList (fun _ => none : Contents H B) n := by
    rintro ⟨l,xs,hc,_⟩
    cases hc
  simp [h.passed,h.returned,h.released,presence,hn]

lemma queued_update {w : QueueWorld H B} {c : Contents H B} (h : ∀ l, w.queued l = (c l).map members)
    (l : H) (xs : List B) (m : H) :
    Function.update w.queued l (some (members xs)) m = (Function.update c l (some xs) m).map members := by
  by_cases hm : m=l
  · subst m; simp
  · simp [Function.update_of_ne hm,h]

/-- The lists the callers know of are the lists of the contents. -/
lemma QueueWorld.Inv.contents {w : QueueWorld H B} {c : Contents H B} (h : w.Inv c) {l : H}
    {q : Finset (Node H B)} (hq : w.queued l = some q) :
    ∃ xs, c l = some xs ∧ q = members xs := by
  rw [h.queued] at hq
  obtain ⟨xs,hx,he⟩ := Option.map_eq_some_iff.mp hq
  exact ⟨xs,hx,he.symm⟩

lemma QueueWorld.Inv.onNoList {w : QueueWorld H B} {c : Contents H B} (h : w.Inv c) {b : B}
    (hb : ∀ m r, w.queued m = some r → Node.skb b ∉ r) : OnNoList c b := by
  intro m ys hm hy
  exact hb m (members ys) (by rw [h.queued,hm,Option.map_some]) (by simpa [members] using hy)

/-- A call that turns the contents `xs` of one list into `ys` keeps the invariant if the logs account
for the difference. -/
lemma QueueWorld.Inv.replace {w v : QueueWorld H B} {c : Contents H B} (h : w.Inv c) {l : H} {xs ys : List B}
    (hx : c l = some xs) (hrep : Represents v.state (Function.update c l (some ys)))
    (hq : v.queued = Function.update w.queued l (some (members ys)))
    (hcount : ∀ n, v.passed.count n+w.returned.count n+w.state.released.count n+(xs.map Node.skb).count n =
      w.passed.count n+v.returned.count n+v.state.released.count n+(ys.map Node.skb).count n) :
    v.Inv (Function.update c l (some ys)) := by
  refine ⟨hrep,by rw [hq]; exact queued_update h.queued l ys,?_⟩
  intro n
  have hb := h.balanced n
  have hn := hcount n
  rw [h.rep.presence_split hx] at hb
  rw [hrep.presence_update]
  omega

omit [DecidableEq H] [DecidableEq B] in
/-- A list that does not exist yet holds nothing. -/
lemma presence_of_none {c : Contents H B} {l : H} (hc : c l = none) (n : Node H B) :
    presence c n = presenceElsewhere c l n := by
  have he : OnSomeList c n ↔ Elsewhere c l n := by
    constructor
    · rintro ⟨m,ys,hm,hy⟩
      exact ⟨m,ys,by rintro rfl; simp [hc] at hm,hm,hy⟩
    · rintro ⟨m,ys,_,hm,hy⟩
      exact ⟨m,ys,hm,hy⟩
  classical exact if_congr he rfl rfl

/-- Two purges of one list that end, end in the same state. -/
lemma skbQueuePurge_unique {s t u : QueueState H B} {l : H} {k m : ℕ} (ht : skbQueuePurge k s l = some t)
    (hu : skbQueuePurge m s l = some u) : t = u := by
  have h1 := skbQueuePurge_mono ht m
  have h2 := skbQueuePurge_mono hu k
  rw [Nat.add_comm] at h2
  exact Option.some.inj (h1.symm.trans h2)

/-- Every call keeps the invariant. -/
theorem QueueStep.inv {w v : QueueWorld H B} {c : Contents H B} (hs : QueueStep w v)
    (h : w.Inv c) : ∃ d, v.Inv d := by
  cases hs with
  | init l hl =>
    have hc : c l = none := by simpa [h.queued] using hl
    have hrep := h.rep.init l
    refine ⟨_,hrep,queued_update h.queued l [],?_⟩
    intro n
    rw [hrep.presence_update,← presence_of_none hc,List.map_nil,List.count_nil,Nat.zero_add]
    exact h.balanced n
  | tail l q b hq free =>
    obtain ⟨xs,hx,rfl⟩ := h.contents hq
    refine ⟨_,h.replace hx (h.rep.tail hx (h.onNoList free)) ?_ ?_⟩
    · rw [members_cons]
    · intro n
      have hrel : (skbQueueTail w.state l (.skb b)).released = w.state.released := rfl
      simp only [hrel,List.map_cons,List.count_cons,List.count_append,List.count_nil]
      omega
  | dequeue l q hq =>
    obtain ⟨xs,hx,rfl⟩ := h.contents hq
    cases xs with
    | nil =>
      rw [h.rep.dequeue_nil hx]
      have hrep : Represents w.state (Function.update c l (some [])) := by
        rw [← hx,Function.update_eq_self]
        exact h.rep
      exact ⟨_,h.replace hx hrep (by simp) (by simp)⟩
    | cons b xs =>
      obtain ⟨t,ht,hrep,hrel⟩ := h.rep.dequeue_cons hx
      have hb : Node.skb b ∉ (members xs : Finset (Node H B)) := by
        have hnd := (List.nodup_cons.mp (h.rep.ring l _ hx).nodup).2
        rw [List.map_cons,List.nodup_cons] at hnd
        simpa [members] using hnd.1
      rw [ht]
      refine ⟨_,h.replace hx hrep ?_ ?_⟩
      · rw [Option.toFinset_some,members_cons,Finset.sdiff_singleton_eq_erase,Finset.erase_insert hb]
      · intro n
        simp only [Option.toList_some,List.map_cons,List.count_cons,List.count_append,List.count_nil,hrel]
        omega
  | purge l q fuel t hq ended =>
    obtain ⟨xs,hx,rfl⟩ := h.contents hq
    obtain ⟨u,hu,hrep,hrel⟩ := h.rep.purge hx
    obtain rfl := skbQueuePurge_unique ended hu
    refine ⟨_,h.replace hx hrep rfl ?_⟩
    intro n
    simp only [hrel,List.count_append,List.map_nil,List.count_nil]
    omega

theorem QueueReachable.inv {w : QueueWorld H B} (h : QueueReachable w) : ∃ c, w.Inv c := by
  obtain ⟨v,hv,hr⟩ := h
  induction hr with
  | refl => exact ⟨_,inv_fresh hv⟩
  | tail _ hs ih =>
    obtain ⟨c,hc⟩ := ih
    exact hs.inv hc

section Invariant
variable {w : QueueWorld H B} {c : Contents H B}

/-- Following `next` from the head visits the buffers of the list one after the other. -/
lemma QueueWorld.Inv.circular (h : w.Inv c) {l : H} {q : Finset (Node H B)} (hq : w.queued l = some q) :
    ∃ xs : List B, q = members xs ∧ xs.Nodup ∧
      (∀ i (hi : i < xs.length), w.state.links.next^[i+1] (.head l) = .skb xs[i]) ∧
      w.state.links.next^[xs.length+1] (.head l) = .head l ∧
      (∀ n ∈ Node.head l::xs.map .skb, w.state.links.prev (w.state.links.next n) = n ∧
        w.state.links.next (w.state.links.prev n) = n) ∧
      (w.state.qlen l).toNat = xs.length % 2^32 := by
  obtain ⟨xs,hx,rfl⟩ := h.contents hq
  have hr := h.rep.ring l xs hx
  refine ⟨xs,rfl,?_,?_,?_,hr.inverse,?_⟩
  · exact (List.nodup_cons.mp hr.nodup).2.of_map _
  · intro i hi
    exact (hr.linked.iterate i (by simpa using hi)).trans (List.getElem_map _)
  · simpa using hr.linked.iterate_end
  · rw [h.rep.qlen l xs hx,UInt32.toNat_ofNat']

lemma QueueWorld.Inv.disjoint (h : w.Inv c) {l m : H} {q r : Finset (Node H B)} (hlm : l ≠ m)
    (hq : w.queued l = some q) (hr : w.queued m = some r) : Disjoint q r := by
  obtain ⟨xs,hx,rfl⟩ := h.contents hq
  obtain ⟨ys,hy,rfl⟩ := h.contents hr
  rw [Finset.disjoint_left]
  intro n hn hm
  simp only [members,List.mem_toFinset] at hn hm
  obtain ⟨b,hb,rfl⟩ := List.mem_map.mp hn
  exact h.rep.disjoint l m xs ys hlm hx hy hb (by simpa using hm)

lemma QueueWorld.Inv.onSomeList_iff (h : w.Inv c) (n : Node H B) :
    OnSomeList c n ↔ ∃ l q, w.queued l = some q ∧ n ∈ q := by
  constructor
  · rintro ⟨l,xs,hx,hn⟩
    exact ⟨l,members xs,by rw [h.queued,hx,Option.map_some],by simpa [members] using hn⟩
  · rintro ⟨l,q,hq,hn⟩
    obtain ⟨xs,hx,rfl⟩ := h.contents hq
    exact ⟨l,xs,hx,by simpa [members] using hn⟩

/-- A buffer that was passed in once more than it came back is on a list, and no other is. -/
lemma QueueWorld.Inv.accounted (h : w.Inv c) (n : Node H B) :
    (w.passed.count n = w.returned.count n + w.state.released.count n + 1 ∧
        ∃ l q, w.queued l = some q ∧ n ∈ q) ∨
      (w.passed.count n = w.returned.count n + w.state.released.count n ∧
        ∀ l q, w.queued l = some q → n ∉ q) := by
  have hb := h.balanced n
  by_cases ho : OnSomeList c n
  · rw [presence,if_pos ho] at hb
    exact .inl ⟨hb,(h.onSomeList_iff n).mp ho⟩
  · rw [presence,if_neg ho] at hb
    refine .inr ⟨hb,?_⟩
    intro l q hq hn
    exact ho ((h.onSomeList_iff n).mpr ⟨l,q,hq,hn⟩)

lemma QueueWorld.Inv.purges (h : w.Inv c) {l : H} {q : Finset (Node H B)} (hq : w.queued l = some q) :
    ∃ fuel t ys, skbQueuePurge fuel w.state l = some t ∧
      t.released = w.state.released ++ ys ∧ ys.Nodup ∧ ys.toFinset = q ∧
      t.links.next (.head l) = .head l ∧ t.links.prev (.head l) = .head l ∧ t.qlen l = 0 := by
  obtain ⟨xs,hx,rfl⟩ := h.contents hq
  obtain ⟨t,ht,hrep,hrel⟩ := h.rep.purge hx
  have hr := hrep.ring l [] (by simp)
  refine ⟨_,t,_,ht,hrel,(List.nodup_cons.mp (h.rep.ring l xs hx).nodup).2,rfl,
    hr.linked.1,hr.linked.2,?_⟩
  simpa using hrep.qlen l [] (by simp)

end Invariant

/-- In every reachable world each initialised list is a circular doubly linked list through its
head that holds exactly the buffers passed to it and not yet handed back or released, distinct
lists share no buffer, every buffer is accounted for once, and purging a list ends with each of
its buffers released once. The counter `qlen` is an `uint32_t`, so it holds the number of
buffers modulo `2^32`. -/
theorem skbQueues_wellFormed (w : QueueWorld H B) (h : QueueReachable w) :
    (∀ l q, w.queued l = some q → ∃ xs : List B, q = members xs ∧ xs.Nodup ∧
      (∀ i (hi : i < xs.length), w.state.links.next^[i+1] (.head l) = .skb xs[i]) ∧
      w.state.links.next^[xs.length+1] (.head l) = .head l ∧
      (∀ n ∈ Node.head l::xs.map .skb, w.state.links.prev (w.state.links.next n) = n ∧
        w.state.links.next (w.state.links.prev n) = n) ∧
      (w.state.qlen l).toNat = xs.length % 2^32) ∧
    (∀ l m q r, l ≠ m → w.queued l = some q → w.queued m = some r → Disjoint q r) ∧
    (∀ n, (w.passed.count n = w.returned.count n + w.state.released.count n + 1 ∧
        ∃ l q, w.queued l = some q ∧ n ∈ q) ∨
      (w.passed.count n = w.returned.count n + w.state.released.count n ∧
        ∀ l q, w.queued l = some q → n ∉ q)) ∧
    (∀ l q, w.queued l = some q → ∃ fuel t ys, skbQueuePurge fuel w.state l = some t ∧
      t.released = w.state.released ++ ys ∧ ys.Nodup ∧ ys.toFinset = q ∧
      t.links.next (.head l) = .head l ∧ t.links.prev (.head l) = .head l ∧ t.qlen l = 0) := by
  obtain ⟨c,hc⟩ := h.inv
  refine ⟨?_,?_,hc.accounted,?_⟩
  · intro l q hq
    exact hc.circular hq
  · intro l m q r hlm hq hr
    exact hc.disjoint hlm hq hr
  · intro l q hq
    exact hc.purges hq

end Runs

section Wrap

/-- Any heap contents before the first call. -/
def blankQueueState : QueueState Unit ℕ where
  links := ⟨fun n => n,fun n => n⟩
  list _ := none
  qlen _ := 0
  users _ := 1
  destructor _ := false
  released := []
  destroyed := []
  pages := []

def blankQueueWorld : QueueWorld Unit ℕ := ⟨blankQueueState,fun _ => none,[],[]⟩

lemma blankQueueWorld_fresh : blankQueueWorld.Fresh := ⟨fun _ => rfl,rfl,rfl,rfl⟩

/-- Any number of buffers can be queued on one list. -/
lemma exists_queue_of_size (k : ℕ) : ∃ w : QueueWorld Unit ℕ, QueueReachable w ∧
    w.queued () = some (members (List.range k)) := by
  induction k with
  | zero =>
    refine ⟨_,⟨_,blankQueueWorld_fresh,.single (.init _ () rfl)⟩,?_⟩
    simp [members]
  | succ k ih =>
    obtain ⟨w,⟨v,hv,hr⟩,hq⟩ := ih
    have hfree : ∀ m r, w.queued m = some r → Node.skb k ∉ r := by
      intro m r hm hk
      rw [show m=() from rfl,hq] at hm
      cases hm
      simp [members] at hk
    refine ⟨_,⟨v,hv,hr.tail (.tail w () _ k hq hfree)⟩,?_⟩
    simp only [Function.update_self,Option.some.injEq,List.range_succ]
    ext n
    simp [members]

/-- Three queued buffers are all released by one purge. -/
theorem skbQueues_wellFormed_three : ∃ w : QueueWorld Unit ℕ, QueueReachable w ∧
    w.queued () = some (members (List.range 3)) ∧ (w.state.qlen ()).toNat = 3 ∧
    ∃ fuel t ys, skbQueuePurge fuel w.state () = some t ∧ t.released = w.state.released ++ ys ∧
      ys.Nodup ∧ ys.toFinset = members (List.range 3) ∧ t.links.next (.head ()) = .head () := by
  obtain ⟨w,hw,hq⟩ := exists_queue_of_size 3
  obtain ⟨hring,_,_,hpurge⟩ := skbQueues_wellFormed w hw
  obtain ⟨xs,hxs,hnd,_,_,_,hlen⟩ := hring () _ hq
  obtain ⟨fuel,t,ys,ht,hrel,hys,hset,hnext,_,_⟩ := hpurge () _ hq
  have hcard : xs.length = 3 := by
    have h1 : (members (List.range 3) : Finset (Node Unit ℕ)).card = 3 := by decide
    rw [hxs,members,List.toFinset_card_of_nodup (hnd.map (fun a b hab => by simpa using hab)),
      List.length_map] at h1
    exact h1
  refine ⟨w,hw,hq,?_,fuel,t,ys,ht,hrel,hys,hset,hnext⟩
  rw [hlen,hcard]
  rfl

/-- With `2^32` buffers on a list its `qlen` is zero again. -/
theorem qlen_not_always_length :
    ¬ ∀ w : QueueWorld Unit ℕ, QueueReachable w → ∀ l q, w.queued l = some q →
      (w.state.qlen l).toNat = q.card := by
  intro hall
  obtain ⟨w,hw,hq⟩ := exists_queue_of_size (2^32)
  have hc := hall w hw () _ hq
  have hlt : (w.state.qlen ()).toNat < 2^32 := (w.state.qlen ()).toNat_lt
  have hnd : ((List.range (2^32)).map (Node.skb (H := Unit))).Nodup :=
    List.nodup_range.map (fun a b hab => by simpa using hab)
  rw [members,List.toFinset_card_of_nodup hnd,List.length_map,List.length_range] at hc
  omega

end Wrap
end Linuxab.Net.Queue
