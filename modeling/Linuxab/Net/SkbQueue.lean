import Mathlib.Data.Finset.Basic
import Mathlib.Data.List.Count
import Linuxab.Base.Ring

/-! The `sk_buff_head` queues of `net/skbuff.c`. The head of a list is itself used as an
`sk_buff` through a cast, so a `struct sk_buff *` is a node that is either a head or a buffer.
Heads and buffers are different objects; only their two link fields are shared. -/
namespace Linuxab.Net.Queue
open Linuxab.Base

/-- What a `struct sk_buff *` of the queue code can point to. -/
inductive Node (H B : Type*)
  | head (list : H)
  | skb (buffer : B)
  deriving DecidableEq

/-- The fields the queue code reads and writes, with the calls made on released buffers.
`released` logs `kfree_skb`, `destroyed` the destructors and `pages` `kfree_page`. -/
structure QueueState (H B : Type*) where
  links : Links (Node H B)
  list : Node H B → Option H
  qlen : H → UInt32
  users : Node H B → BitVec 32
  destructor : Node H B → Bool
  released : List (Node H B)
  destroyed : List (Node H B)
  pages : List (Node H B)

section Code
variable {H B : Type*} [DecidableEq H] [DecidableEq B]

def skbQueueHeadInit (s : QueueState H B) (list : H) : QueueState H B :=
  { s with
    links :=
      { prev := Function.update s.links.prev (.head list) (.head list)
        next := Function.update s.links.next (.head list) (.head list) }
    qlen := Function.update s.qlen list 0 }

/-- The new buffer is linked between the head and the node that followed it. -/
def skbQueueTail (s : QueueState H B) (list : H) (newsk : Node H B) : QueueState H B :=
  let prev := Node.head list
  let next := s.links.next prev
  { s with
    list := Function.update s.list newsk (some list)
    qlen := Function.update s.qlen list (s.qlen list+1)
    links :=
      { next := Function.update (Function.update s.links.next newsk next) prev newsk
        prev := Function.update (Function.update s.links.prev newsk prev) next newsk } }

/-- `none` is the NULL returned for an empty list. -/
def skbDequeue (s : QueueState H B) (list : H) : Option (Node H B) × QueueState H B :=
  let skb := s.links.next (.head list)
  if skb = .head list then (none,s)
  else (some skb,{ s with
    links :=
      { next := Function.update s.links.next (.head list) (s.links.next skb)
        prev := Function.update s.links.prev (s.links.next skb) (.head list) }
    qlen := Function.update s.qlen list (s.qlen list-1)
    list := Function.update s.list skb none })

/-- `atomic_dec_and_test` decides whether the last user is gone. -/
def kfreeSkb (s : QueueState H B) (skb : Node H B) : QueueState H B :=
  let s := { s with
    released := s.released ++ [skb]
    users := Function.update s.users skb (s.users skb-1) }
  if s.users skb ≠ 0 then s
  else
    let s := if s.destructor skb then { s with destroyed := s.destroyed ++ [skb] } else s
    { s with pages := s.pages ++ [skb] }

/-- The loop of `skb_queue_purge`; `none` means that the fuel ran out. -/
def skbQueuePurge : ℕ → QueueState H B → H → Option (QueueState H B)
  | 0,_,_ => none
  | fuel+1,s,list =>
    match skbDequeue s list with
    | (none,s) => some s
    | (some skb,s) => skbQueuePurge fuel (kfreeSkb s skb) list

@[simp] theorem kfreeSkb_links (s : QueueState H B) (skb : Node H B) :
    (kfreeSkb s skb).links = s.links := by
  simp only [kfreeSkb]
  split_ifs <;> rfl

@[simp] theorem kfreeSkb_qlen (s : QueueState H B) (skb : Node H B) :
    (kfreeSkb s skb).qlen = s.qlen := by
  simp only [kfreeSkb]
  split_ifs <;> rfl

@[simp] theorem kfreeSkb_released (s : QueueState H B) (skb : Node H B) :
    (kfreeSkb s skb).released = s.released ++ [skb] := by
  simp only [kfreeSkb]
  split_ifs <;> rfl

end Code

/-- The buffers of every initialised list, in the order met from the head. -/
abbrev Contents (H B : Type*) := H → Option (List B)

/-- No list of the contents holds the buffer. -/
def OnNoList {H B : Type*} (c : Contents H B) (b : B) : Prop :=
  ∀ l xs, c l = some xs → b ∉ xs

/-- The heap state holds exactly the lists of the contents, each as a ring through its head. -/
structure Represents {H B : Type*} (s : QueueState H B) (c : Contents H B) : Prop where
  ring : ∀ l xs, c l = some xs → s.links.Ring (.head l) (xs.map .skb)
  qlen : ∀ l xs, c l = some xs → s.qlen l = UInt32.ofNat xs.length
  disjoint : ∀ l m xs ys, l ≠ m → c l = some xs → c m = some ys → List.Disjoint xs ys

section Specification
variable {H B : Type*} {s : QueueState H B} {c : Contents H B}

lemma skb_mem_ring {l : H} {b : B} {xs : List B} :
    Node.skb b ∈ Node.head l::xs.map Node.skb ↔ b ∈ xs := by simp

/-- Distinct lists have node-disjoint rings. -/
lemma Represents.ring_disjoint (h : Represents s c) {l m : H} {xs ys : List B} (hlm : l ≠ m)
    (hl : c l = some xs) (hm : c m = some ys) :
    ∀ y ∈ Node.head m::ys.map Node.skb, y ∉ Node.head l::xs.map Node.skb := by
  intro y hy hx
  cases y with
  | head k => simp_all
  | skb b =>
    rw [skb_mem_ring] at hx hy
    exact h.disjoint l m xs ys hlm hl hm hx hy

variable [DecidableEq H]

/-- Replacing the buffers of one list by a list that no other list meets keeps disjointness. -/
lemma Represents.disjoint_update (h : Represents s c) {l : H} {xs : List B}
    (hx : ∀ m ys, m ≠ l → c m = some ys → List.Disjoint xs ys) (k m : H) (ys zs : List B)
    (hkm : k ≠ m) (hk : Function.update c l (some xs) k = some ys)
    (hm : Function.update c l (some xs) m = some zs) : List.Disjoint ys zs := by
  by_cases hkl : k=l
  · subst k
    obtain rfl : xs=ys := by simpa using hk
    rw [Function.update_of_ne hkm.symm] at hm
    exact hx m zs hkm.symm hm
  · rw [Function.update_of_ne hkl] at hk
    by_cases hml : m=l
    · subst m
      obtain rfl : xs=zs := by simpa using hm
      exact (hx k ys hkm hk).symm
    · rw [Function.update_of_ne hml] at hm
      exact h.disjoint k m ys zs hkm hk hm

variable [DecidableEq B]

theorem Represents.init (h : Represents s c) (l : H) :
    Represents (skbQueueHeadInit s l) (Function.update c l (some [])) := by
  refine ⟨?_,?_,?_⟩
  · intro m xs hm
    by_cases hml : m=l
    · subst m
      obtain rfl : xs=[] := by simpa using hm.symm
      exact Links.ring_single s.links (.head l)
    · rw [Function.update_of_ne hml] at hm
      exact (h.ring m xs hm).single_of_ne (by simp [Ne.symm hml])
  · intro m xs hm
    by_cases hml : m=l
    · subst m
      obtain rfl : xs=[] := by simpa using hm.symm
      simp [skbQueueHeadInit]
    · rw [Function.update_of_ne hml] at hm
      simpa [skbQueueHeadInit,hml] using h.qlen m xs hm
  · apply h.disjoint_update
    simp

/-- `skb_queue_tail` puts the new buffer in front of the ones already queued. -/
theorem Represents.tail (h : Represents s c) {l : H} {xs : List B} {b : B} (hl : c l = some xs)
    (hb : OnNoList c b) :
    Represents (skbQueueTail s l (.skb b)) (Function.update c l (some (b::xs))) := by
  have hbx : Node.skb b ∉ Node.head l::xs.map Node.skb := by simpa using hb l xs hl
  refine ⟨?_,?_,?_⟩
  · intro m ys hm
    by_cases hml : m=l
    · subst m
      obtain rfl : b::xs=ys := by simpa using hm
      exact (h.ring l xs hl).insertAfter hbx
    · rw [Function.update_of_ne hml] at hm
      exact (h.ring l xs hl).insertAfter_of_disjoint (h.ring m ys hm)
        (h.ring_disjoint (Ne.symm hml) hl hm) (by simpa using hb m ys hm)
  · intro m ys hm
    by_cases hml : m=l
    · subst m
      obtain rfl : b::xs=ys := by simpa using hm
      simp [skbQueueTail,h.qlen l xs hl,UInt32.ofNat_add]
    · rw [Function.update_of_ne hml] at hm
      simpa [skbQueueTail,hml] using h.qlen m ys hm
  · apply h.disjoint_update
    intro m ys hml hm
    rw [List.disjoint_cons_left]
    exact ⟨hb m ys hm,h.disjoint l m xs ys (Ne.symm hml) hl hm⟩

theorem Represents.dequeue_nil (h : Represents s c) {l : H} (hl : c l = some []) :
    skbDequeue s l = (none,s) := by
  have hn := (h.ring l [] hl).next_eq_head_iff.mpr rfl
  simp [skbDequeue,hn]

/-- `skb_dequeue` takes the buffer next to the head, which was queued last. -/
theorem Represents.dequeue_cons (h : Represents s c) {l : H} {b : B} {xs : List B}
    (hl : c l = some (b::xs)) :
    ∃ t, skbDequeue s l = (some (.skb b),t) ∧ Represents t (Function.update c l (some xs)) ∧
      t.released = s.released := by
  have hr := h.ring l _ hl
  have hn : s.links.next (.head l) = .skb b := hr.linked.1
  have hd : skbDequeue s l = (some (.skb b),{ s with
      links := s.links.removeAfter (.head l)
      qlen := Function.update s.qlen l (s.qlen l-1)
      list := Function.update s.list (.skb b) none }) := by
    simp [skbDequeue,Links.removeAfter,hn]
  refine ⟨_,hd,⟨?_,?_,?_⟩,rfl⟩
  · intro m ys hm
    by_cases hml : m=l
    · subst m
      obtain rfl : xs=ys := by simpa using hm
      exact hr.removeAfter
    · rw [Function.update_of_ne hml] at hm
      exact Links.Ring.removeAfter_of_disjoint hr (h.ring m ys hm)
        (h.ring_disjoint (Ne.symm hml) hl hm)
  · intro m ys hm
    by_cases hml : m=l
    · subst m
      obtain rfl : xs=ys := by simpa using hm
      simp [h.qlen l _ hl,UInt32.ofNat_add]
    · rw [Function.update_of_ne hml] at hm
      simpa [hml] using h.qlen m ys hm
  · apply h.disjoint_update
    intro m ys hml hm
    exact (List.disjoint_cons_left.mp (h.disjoint l m _ ys (Ne.symm hml) hl hm)).2

/-- Releasing a buffer that is off the lists does not touch them. -/
theorem Represents.kfree (h : Represents s c) (skb : Node H B) : Represents (kfreeSkb s skb) c :=
  ⟨by simpa using h.ring,by simpa using h.qlen,h.disjoint⟩

/-- One round more than there are buffers suffices, and every buffer is released once. -/
theorem Represents.purge (h : Represents s c) {l : H} {xs : List B} (hl : c l = some xs) :
    ∃ t, skbQueuePurge (xs.length+1) s l = some t ∧
      Represents t (Function.update c l (some [])) ∧
      t.released = s.released ++ xs.map .skb := by
  induction xs generalizing s c with
  | nil =>
    refine ⟨s,by simp [skbQueuePurge,h.dequeue_nil hl],?_,by simp⟩
    rwa [← hl,Function.update_eq_self]
  | cons b xs ih =>
    obtain ⟨t,ht,hrep,hrel⟩ := h.dequeue_cons hl
    obtain ⟨u,hu,hru,hlog⟩ := ih (hrep.kfree (.skb b)) (by simp)
    refine ⟨u,?_,?_,?_⟩
    · rw [List.length_cons,skbQueuePurge,ht]
      exact hu
    · simpa using hru
    · simp [hlog,hrel]

/-- More fuel never changes the outcome of the loop. -/
theorem skbQueuePurge_mono {fuel : ℕ} {s t : QueueState H B} {l : H}
    (h : skbQueuePurge fuel s l = some t) (more : ℕ) : skbQueuePurge (fuel+more) s l = some t := by
  induction fuel generalizing s with
  | zero => simp [skbQueuePurge] at h
  | succ fuel ih =>
    rw [Nat.succ_add]
    simp only [skbQueuePurge] at h ⊢
    split
    · next heq => rw [heq] at h; exact h
    · next heq => rw [heq] at h; exact ih h

end Specification
end Linuxab.Net.Queue
