import Linuxab.Base.Splice

/-! The intrusive lists of the list module in rust/xarray.rs. Any number of lists are threaded through the nodes;
the links of all of them together are a permutation and its inverse, which every operation multiplies by a
transposition. -/
namespace Linuxab.Kernel
open Linuxab.Base

/-- The links of the `ListHead`s in memory; `none` is the null pointer. -/
structure ListHeap (N : Type*) where
  next : N → Option N
  prev : N → Option N

namespace ListHeap

section Source
variable {N : Type*} [DecidableEq N]

def init (self : N) (s : ListHeap N) : ListHeap N :=
  ⟨Function.update s.next self (some self),Function.update s.prev self (some self)⟩

def isEmpty (self : N) (s : ListHeap N) : Bool := s.next self = some self

/-- `(*p).next = v`; `none` if the pointer is null. -/
def setNext (p v : Option N) (s : ListHeap N) : Option (ListHeap N) :=
  p.map fun n => { s with next := Function.update s.next n v }

def setPrev (p v : Option N) (s : ListHeap N) : Option (ListHeap N) :=
  p.map fun n => { s with prev := Function.update s.prev n v }

def add (self new : N) (s : ListHeap N) : Option (ListHeap N) := do
  let s := { s with next := Function.update s.next new (s.next self) }
  let s := { s with prev := Function.update s.prev new (some self) }
  let s ← s.setPrev (s.next self) (some new)
  return { s with next := Function.update s.next self (some new) }

/-- The receiver is not used. -/
def del (_self entry : N) (s : ListHeap N) : Option (ListHeap N) := do
  let s ← s.setNext (s.prev entry) (s.next entry)
  let s ← s.setPrev (s.next entry) (s.prev entry)
  return s.init entry

/-- The states that the operations lead to, with the nodes that have been initialised. A node is initialised once;
what is added is alone on its ring and not the receiver. -/
inductive Run (start : ListHeap N) : Finset N → ListHeap N → Prop
  | start : Run start ∅ start
  | init {live : Finset N} {s : ListHeap N} {n : N} (h : Run start live s) (hn : n ∉ live) :
      Run start (insert n live) (s.init n)
  | add {live : Finset N} {s s' : ListHeap N} {self new : N} (h : Run start live s) (hself : self ∈ live)
      (hnew : new ∈ live) (hne : new ≠ self) (halone : s.isEmpty new = true) (hadd : s.add self new = some s') :
      Run start live s'
  | del {live : Finset N} {s s' : ListHeap N} {self entry : N} (h : Run start live s) (hself : self ∈ live)
      (hentry : entry ∈ live) (hdel : s.del self entry = some s') : Run start live s'

end Source

/-! ## The effect of the operations -/

section Links
variable {N : Type*}

/-- `new` is between `before` and `after`, and every other link is as it was. -/
structure InsertedAfter (before new after : N) (s s' : ListHeap N) : Prop where
  next_before : s'.next before = some new
  next_new : s'.next new = some after
  prev_new : s'.prev new = some before
  prev_after : s'.prev after = some new
  next_other : ∀ x, x ≠ before → x ≠ new → s'.next x = s.next x
  prev_other : ∀ x, x ≠ after → x ≠ new → s'.prev x = s.prev x

/-- The neighbours of `entry` are linked with each other, `entry` with itself, and every other link is as it was. -/
structure Unlinked (before entry after : N) (s s' : ListHeap N) : Prop where
  next_entry : s'.next entry = some entry
  prev_entry : s'.prev entry = some entry
  next_before : before ≠ entry → s'.next before = some after
  prev_after : after ≠ entry → s'.prev after = some before
  next_other : ∀ x, x ≠ before → x ≠ entry → s'.next x = s.next x
  prev_other : ∀ x, x ≠ after → x ≠ entry → s'.prev x = s.prev x

/-- What was inserted between two nodes and is taken out again leaves them as they were. -/
theorem Unlinked.restores {before new after : N} {s s' s'' : ListHeap N} (hdel : Unlinked before new after s' s'')
    (hadd : InsertedAfter before new after s s') (hnext : s.next before = some after)
    (hprev : s.prev after = some before) {x : N} (hx : x ≠ new) : s''.next x = s.next x ∧ s''.prev x = s.prev x := by
  constructor
  · obtain rfl | hxbefore := eq_or_ne x before
    · rw [hdel.next_before hx,hnext]
    · rw [hdel.next_other x hxbefore hx,hadd.next_other x hxbefore hx]
  · obtain rfl | hxafter := eq_or_ne x after
    · rw [hdel.prev_after hx,hprev]
    · rw [hdel.prev_other x hxafter hx,hadd.prev_other x hxafter hx]

end Links

variable {N : Type*} [DecidableEq N]

section Effect
variable {s : ListHeap N} {self new entry before after : N}

theorem exists_add (hne : new ≠ self) (hafter : after ≠ new) (hnext : s.next self = some after) :
    ∃ s', s.add self new = some s' ∧ InsertedAfter self new after s s' := by
  have hadd : s.add self new = some ⟨Function.update (Function.update s.next new (some after)) self (some new),
      Function.update (Function.update s.prev new (some self)) after (some new)⟩ := by
    simp only [add,setPrev,Function.update_of_ne hne.symm,hnext]
    rfl
  refine ⟨_,hadd,?_,?_,?_,?_,?_,?_⟩
  · exact Function.update_self ..
  · exact (Function.update_of_ne hne _ _).trans (Function.update_self ..)
  · exact (Function.update_of_ne hafter.symm _ _).trans (Function.update_self ..)
  · exact Function.update_self ..
  · exact fun x hxself hxnew => (Function.update_of_ne hxself _ _).trans (Function.update_of_ne hxnew _ _)
  · exact fun x hxafter hxnew => (Function.update_of_ne hxafter _ _).trans (Function.update_of_ne hxnew _ _)

/-- The pointers of the entry are read again after the first write, which may have been to the entry. -/
theorem exists_del (self : N) (hprev : s.prev entry = some before) (hnext : s.next entry = some after) :
    ∃ s', s.del self entry = some s' ∧ Unlinked before entry after s s' := by
  have hagain : Function.update s.next before (some after) entry = some after := by
    obtain rfl | hne := eq_or_ne entry before
    · exact Function.update_self ..
    · rw [Function.update_of_ne hne,hnext]
  have hdel : s.del self entry =
      some ⟨Function.update (Function.update s.next before (some after)) entry (some entry),
        Function.update (Function.update s.prev after (some before)) entry (some entry)⟩ := by
    simp only [del,setNext,setPrev,hprev,hnext,Option.map_some,Option.bind_eq_bind,Option.bind_some,hagain]
    rfl
  refine ⟨_,hdel,?_,?_,?_,?_,?_,?_⟩
  · exact Function.update_self ..
  · exact Function.update_self ..
  · exact fun hne => (Function.update_of_ne hne _ _).trans (Function.update_self ..)
  · exact fun hne => (Function.update_of_ne hne _ _).trans (Function.update_self ..)
  · exact fun x hxbefore hxentry => (Function.update_of_ne hxentry _ _).trans (Function.update_of_ne hxbefore _ _)
  · exact fun x hxafter hxentry => (Function.update_of_ne hxentry _ _).trans (Function.update_of_ne hxafter _ _)

end Effect

/-! ## Rings -/

section Threads
variable {s : ListHeap N} {live : Finset N} {σ : Equiv.Perm N} (h : Threads σ live s.next s.prev)
  {n self new entry : N}
include h

theorem threads_init (hn : n ∉ live) : Threads σ (insert n live) (s.init n).next (s.init n).prev :=
  h.insert hn (Function.update_self ..) (Function.update_self ..) (fun _ hne => Function.update_of_ne hne _ _)
    fun _ hne => Function.update_of_ne hne _ _

/-- A node that is alone is a fixed point, and so not what follows another node. -/
theorem apply_alone (hnew : new ∈ live) (halone : s.isEmpty new = true) : σ new = new :=
  Option.some.inj ((h.next new hnew).symm.trans (of_decide_eq_true halone))

theorem threads_add (hself : self ∈ live) (hnew : new ∈ live) (hne : new ≠ self) (halone : s.isEmpty new = true) :
    ∃ s', s.add self new = some s' ∧ InsertedAfter self new (σ self) s s' ∧
      Threads (splice σ self new) live s'.next s'.prev := by
  have hfix := apply_alone h hnew halone
  have hafter : σ self ≠ new := fun heq => hne (σ.injective (hfix.trans heq.symm))
  obtain ⟨s',hadd,hs'⟩ := exists_add hne hafter (h.next self hself)
  refine ⟨s',hadd,hs',h.spliced hself hnew ?_ hs'.next_new hs'.prev_after ?_ hs'.next_other ?_⟩
  · rw [hs'.next_before,hfix]
  · rw [hfix,hs'.prev_new]
  · rw [hfix]
    exact hs'.prev_other

theorem threads_del (self : N) (hentry : entry ∈ live) :
    ∃ s', s.del self entry = some s' ∧ Unlinked (σ.symm entry) entry (σ entry) s s' ∧
      Threads (splice σ (σ.symm entry) entry) live s'.next s'.prev := by
  have hback : σ (σ.symm entry) = entry := Equiv.apply_symm_apply σ entry
  obtain ⟨s',hdel,hs'⟩ := exists_del self (h.prev entry hentry) (h.next entry hentry)
  refine ⟨s',hdel,hs',h.spliced (h.symm_apply_mem hentry) hentry ?_ ?_ ?_ ?_ hs'.next_other ?_⟩
  · -- an entry that is alone is its own neighbour, and `init` writes last
    by_cases halone : σ.symm entry = entry
    · have hfix : σ entry = entry := ((Equiv.symm_apply_eq σ).mp halone).symm
      rw [halone,hfix,hs'.next_entry]
    · exact hs'.next_before halone
  · rw [hback,hs'.next_entry]
  · rw [hback,hs'.prev_entry]
  · by_cases halone : σ entry = entry
    · have hfix : σ.symm entry = entry := (Equiv.symm_apply_eq σ).mpr halone.symm
      rw [halone,hfix,hs'.prev_entry]
    · exact hs'.prev_after halone
  · rw [hback]
    exact fun x hxentry hxafter => hs'.prev_other x hxafter hxentry

end Threads

theorem Run.threads {start s : ListHeap N} {live : Finset N} (h : Run start live s) :
    ∃ σ, Threads σ live s.next s.prev := by
  induction h with
  | start => exact ⟨1,threads_empty _ _⟩
  | init _ hn ih =>
    obtain ⟨σ,hσ⟩ := ih
    exact ⟨σ,threads_init hσ hn⟩
  | add _ hself hnew hne halone hadd ih =>
    obtain ⟨σ,hσ⟩ := ih
    obtain ⟨s',hs',-,hthreads⟩ := threads_add hσ hself hnew hne halone
    obtain rfl := Option.some.inj (hs'.symm.trans hadd)
    exact ⟨_,hthreads⟩
  | @del _ _ _ self _ _ _ hentry hdel ih =>
    obtain ⟨σ,hσ⟩ := ih
    obtain ⟨s',hs',-,hthreads⟩ := threads_del hσ self hentry
    obtain rfl := Option.some.inj (hs'.symm.trans hdel)
    exact ⟨_,hthreads⟩

end ListHeap
open ListHeap

section Results
variable {N : Type*} [DecidableEq N] {start s : ListHeap N} {live : Finset N}

/-- After any operations every initialised node is on exactly one ring. From there a node is added directly behind
the receiver and no other link changes, and deleting it again gives back the links of all other nodes. -/
theorem list_operations_keep_rings (h : Run start live s) :
    (∀ x ∈ live, ∃! R, IsRing s.next s.prev R ∧ x ∈ R) ∧
    (∀ self ∈ live, ∀ new ∈ live, new ≠ self → s.isEmpty new = true →
      ∃ after s', s.next self = some after ∧ s.add self new = some s' ∧ InsertedAfter self new after s s' ∧
        ∀ receiver, ∃ s'', s'.del receiver new = some s'' ∧ s''.next new = some new ∧ s''.prev new = some new ∧
          ∀ x, x ≠ new → s''.next x = s.next x ∧ s''.prev x = s.prev x) ∧
    (∀ self, ∀ entry ∈ live, ∃ s', s.del self entry = some s' ∧ s'.isEmpty entry = true) := by
  obtain ⟨σ,hσ⟩ := h.threads
  refine ⟨fun x hx => hσ.existsUnique_ring hx,fun self hself new hnew hne halone => ?_,fun self entry hentry => ?_⟩
  · have hprev : s.prev (σ self) = some self := by rw [hσ.prev _ (hσ.apply_mem hself),Equiv.symm_apply_apply]
    obtain ⟨s',hadd,hinserted,-⟩ := threads_add hσ hself hnew hne halone
    refine ⟨σ self,s',hσ.next self hself,hadd,hinserted,fun receiver => ?_⟩
    obtain ⟨s'',hdel,hunlinked⟩ := exists_del receiver hinserted.prev_new hinserted.next_new
    refine ⟨s'',hdel,hunlinked.next_entry,hunlinked.prev_entry,fun x hx => ?_⟩
    exact hunlinked.restores hinserted (hσ.next self hself) hprev hx
  · obtain ⟨s',hdel,hunlinked,-⟩ := threads_del hσ self hentry
    exact ⟨s',hdel,decide_eq_true hunlinked.next_entry⟩

/-- Links that are not set yet, and two nodes of them. -/
def noLinks : ListHeap ℕ := ⟨fun _ => none,fun _ => none⟩
def twoHeads : ListHeap ℕ := (noLinks.init 0).init 1

/-- A node is added behind a head and is then on a ring with it. -/
theorem list_operations_keep_rings_two : ∃ s', twoHeads.add 0 1 = some s' ∧ s'.next 0 = some 1 ∧ s'.next 1 = some 0 ∧
    ∃! R, IsRing s'.next s'.prev R ∧ 0 ∈ R := by
  have hrun : Run noLinks {1,0} twoHeads := (Run.start.init (by decide)).init (by decide)
  obtain ⟨after,s',hnext,hadd,hinserted,-⟩ :=
    (list_operations_keep_rings hrun).2.1 0 (by decide) 1 (by decide) (by decide) (by decide)
  have hafter : after = 0 := Option.some.inj (hnext.symm.trans (by decide))
  have hrun' : Run noLinks {1,0} s' := hrun.add (by decide) (by decide) (by decide) (by decide) hadd
  exact ⟨s',hadd,hinserted.next_before,hafter ▸ hinserted.next_new,(list_operations_keep_rings hrun').1 0 (by decide)⟩

end Results
end Linuxab.Kernel
