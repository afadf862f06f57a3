import Mathlib.Data.List.Nodup
import Mathlib.Logic.Function.Iterate

/-! Circular doubly linked lists over an arbitrary type of nodes. A ring is a
distinguished head with the nodes met by following `next` until the head comes
back; the `prev` links are required to undo every step of that walk. -/
namespace Linuxab.Base

/-- The two link fields of every node. -/
structure Links (α : Type*) where
  next : α → α
  prev : α → α

namespace Links
variable {α : Type*} (L : Links α)

/-- From `a` the walk along `next` meets exactly `xs` and then `b`, and `prev`
leads back over the same nodes. -/
def Linked : α → List α → α → Prop
  | a, [], b => L.next a = b ∧ L.prev b = a
  | a, x::xs, b => L.next a = x ∧ L.prev x = a ∧ Linked x xs b

/-- A well-formed ring: its nodes are distinct and the walk closes at the head. -/
structure Ring (hd : α) (xs : List α) : Prop where
  nodup : (hd::xs).Nodup
  linked : L.Linked hd xs hd

variable {L}

/-- A walk reads `next` only at its nodes before the end and `prev` only after the start. -/
theorem Linked.congr {L' : Links α} {a b : α} {xs : List α} (h : L.Linked a xs b)
    (hn : ∀ x ∈ a::xs, L'.next x = L.next x) (hp : ∀ x ∈ b::xs, L'.prev x = L.prev x) :
    L'.Linked a xs b := by
  induction xs generalizing a with
  | nil => exact ⟨(hn a (by simp)).trans h.1,(hp b (by simp)).trans h.2⟩
  | cons x xs ih =>
    obtain ⟨h1,h2,h3⟩ := h
    refine ⟨(hn a (by simp)).trans h1,(hp x (by simp)).trans h2,ih h3 ?_ ?_⟩
    · intro y hy
      exact hn y (List.mem_cons_of_mem _ hy)
    · intro y hy
      rcases List.mem_cons.mp hy with rfl | hy
      · exact hp y (by simp)
      · exact hp y (by simp [hy])

theorem Linked.next_mem {a b : α} {xs : List α} (h : L.Linked a xs b) : L.next a ∈ b::xs := by
  cases xs with
  | nil => simp [h.1]
  | cons x xs => simp [h.1]

/-- Following `next` one step at a time visits the nodes in list order. -/
theorem Linked.iterate {a b : α} {xs : List α} (h : L.Linked a xs b) (i : ℕ) (hi : i < xs.length) :
    L.next^[i+1] a = xs[i] := by
  induction xs generalizing a i with
  | nil => simp at hi
  | cons x xs ih =>
    obtain ⟨h1,_,h3⟩ := h
    rw [Function.iterate_succ_apply,h1]
    cases i with
    | zero => rfl
    | succ i => exact ih h3 i (by simpa using hi)

theorem Linked.iterate_end {a b : α} {xs : List α} (h : L.Linked a xs b) :
    L.next^[xs.length+1] a = b := by
  induction xs generalizing a with
  | nil => exact h.1
  | cons x xs ih =>
    obtain ⟨h1,_,h3⟩ := h
    rw [List.length_cons,Function.iterate_succ_apply,h1]
    exact ih h3

/-- On every node of the walk `prev` undoes `next`. -/
theorem Linked.prev_next {a b : α} {xs : List α} (h : L.Linked a xs b) :
    ∀ x ∈ a::xs, L.prev (L.next x) = x := by
  induction xs generalizing a with
  | nil =>
    intro x hx
    obtain rfl : x=a := by simpa using hx
    rw [h.1,h.2]
  | cons y xs ih =>
    obtain ⟨h1,h2,h3⟩ := h
    intro x hx
    rcases List.mem_cons.mp hx with rfl | hx
    · rw [h1,h2]
    · exact ih h3 x hx

theorem Linked.exists_next {a b : α} {xs : List α} (h : L.Linked a xs b) :
    ∀ x ∈ b::xs, ∃ y ∈ a::xs, L.next y = x := by
  induction xs generalizing a with
  | nil =>
    intro x hx
    obtain rfl : x=b := by simpa using hx
    exact ⟨a,by simp,h.1⟩
  | cons z xs ih =>
    obtain ⟨h1,_,h3⟩ := h
    intro x hx
    by_cases hxz : x=z
    · exact ⟨a,by simp,h1.trans hxz.symm⟩
    · obtain ⟨y,hy,he⟩ := ih h3 x (by simpa [hxz] using hx)
      exact ⟨y,List.mem_cons_of_mem _ hy,he⟩

/-- Rings whose nodes keep their links are unaffected by writes elsewhere. -/
theorem Ring.congr {L' : Links α} {hd : α} {xs : List α} (h : L.Ring hd xs)
    (hn : ∀ x ∈ hd::xs, L'.next x = L.next x) (hp : ∀ x ∈ hd::xs, L'.prev x = L.prev x) :
    L'.Ring hd xs :=
  ⟨h.nodup,h.linked.congr hn hp⟩

theorem Ring.next_mem {hd : α} {xs : List α} (h : L.Ring hd xs) : L.next hd ∈ hd::xs :=
  h.linked.next_mem

theorem Ring.next_eq_head_iff {hd : α} {xs : List α} (h : L.Ring hd xs) :
    L.next hd = hd ↔ xs = [] := by
  cases xs with
  | nil => simp [h.linked.1]
  | cons x xs =>
    have hne : x ≠ hd := by
      intro he
      have hn := h.nodup
      simp [he] at hn
    simp [h.linked.1,hne]

/-- On the cycle the two link fields are inverse to each other. -/
theorem Ring.inverse {hd : α} {xs : List α} (h : L.Ring hd xs) :
    ∀ x ∈ hd::xs, L.prev (L.next x) = x ∧ L.next (L.prev x) = x := by
  intro x hx
  refine ⟨h.linked.prev_next x hx,?_⟩
  obtain ⟨y,hy,rfl⟩ := h.linked.exists_next x hx
  rw [h.linked.prev_next y hy]

section Edit
variable [DecidableEq α]

/-- The self-linked node. -/
def single (L : Links α) (a : α) : Links α where
  next := Function.update L.next a a
  prev := Function.update L.prev a a

/-- Link `x` in directly after `a`. -/
def insertAfter (L : Links α) (a x : α) : Links α where
  next := Function.update (Function.update L.next x (L.next a)) a x
  prev := Function.update (Function.update L.prev x a) (L.next a) x

/-- Bypass the node after `a`; its own links stay as they were. -/
def removeAfter (L : Links α) (a : α) : Links α where
  next := Function.update L.next a (L.next (L.next a))
  prev := Function.update L.prev (L.next (L.next a)) a

theorem ring_single (L : Links α) (a : α) : (L.single a).Ring a [] :=
  ⟨by simp,by simp [Linked,single]⟩

theorem Ring.single_of_ne {hd a : α} {xs : List α} (h : L.Ring hd xs) (ha : a ∉ hd::xs) :
    (L.single a).Ring hd xs := by
  have hne : ∀ x ∈ hd::xs, x ≠ a := fun x hx he => ha (he ▸ hx)
  exact h.congr (fun x hx => Function.update_of_ne (hne x hx) _ _)
    (fun x hx => Function.update_of_ne (hne x hx) _ _)

/-- Inserting a fresh node after the head makes it the first node of the ring. -/
theorem Ring.insertAfter {hd x : α} {xs : List α} (h : L.Ring hd xs) (hx : x ∉ hd::xs) :
    (L.insertAfter hd x).Ring hd (x::xs) := by
  have hxh : x ≠ hd := fun he => hx (by simp [he])
  have hne : ∀ y ∈ hd::xs, y ≠ x := fun y hy he => hx (he ▸ hy)
  have hnx : L.next hd ≠ x := hne _ h.next_mem
  have hnd := h.nodup
  refine ⟨?_,?_,?_,?_⟩
  · simp only [List.nodup_cons,List.mem_cons,not_or] at hnd hx ⊢
    exact ⟨⟨hxh.symm,hnd.1⟩,hx.2,hnd.2⟩
  · simp [Links.insertAfter]
  · simp [Links.insertAfter,Function.update_of_ne hnx.symm]
  · cases xs with
    | nil =>
      have hl : L.next hd = hd := h.linked.1
      simp [Linked,Links.insertAfter,hl,Function.update_of_ne hxh]
    | cons y ys =>
      obtain ⟨h1,_,h3⟩ := h.linked
      have hyh : y ≠ hd := by
        intro he
        simp [he] at hnd
      refine ⟨?_,?_,h3.congr ?_ ?_⟩
      · simp [Links.insertAfter,h1,Function.update_of_ne hxh]
      · simp [Links.insertAfter,h1]
      · intro z hz
        have hzh : z ≠ hd := by
          rintro rfl
          exact (List.nodup_cons.mp hnd).1 hz
        have hzx : z ≠ x := hne z (List.mem_cons_of_mem _ hz)
        simp [Links.insertAfter,Function.update_of_ne hzh,Function.update_of_ne hzx]
      · intro z hz
        have hzx : z ≠ x := by
          rcases List.mem_cons.mp hz with rfl | hz
          · exact hxh.symm
          · exact hne z (by simp [hz])
        have hzy : z ≠ y := by
          rintro rfl
          rcases List.mem_cons.mp hz with he | hz
          · exact hyh he
          · simp [hz] at hnd
        simp [Links.insertAfter,h1,Function.update_of_ne hzx,Function.update_of_ne hzy]

/-- Insertion into one ring leaves every disjoint ring alone. -/
theorem Ring.insertAfter_of_disjoint {hd g x : α} {xs ys : List α} (h : L.Ring hd xs)
    (hg : L.Ring g ys) (hd' : ∀ y ∈ g::ys, y ∉ hd::xs) (hx : x ∉ g::ys) :
    (L.insertAfter hd x).Ring g ys := by
  have hne : ∀ y ∈ g::ys, y ≠ x := fun y hy he => hx (he ▸ hy)
  refine hg.congr ?_ ?_
  · intro y hy
    have hyh : y ≠ hd := fun he => hd' y hy (by simp [he])
    simp [Links.insertAfter,Function.update_of_ne hyh,Function.update_of_ne (hne y hy)]
  · intro y hy
    have hyn : y ≠ L.next hd := fun he => hd' y hy (he ▸ h.next_mem)
    simp [Links.insertAfter,Function.update_of_ne hyn,Function.update_of_ne (hne y hy)]

/-- Bypassing the first node leaves the ring of the remaining ones. -/
theorem Ring.removeAfter {hd x : α} {xs : List α} (h : L.Ring hd (x::xs)) :
    (L.removeAfter hd).Ring hd xs := by
  obtain ⟨h1,h2,h3⟩ := h.linked
  have hnd := h.nodup
  simp only [List.nodup_cons,List.mem_cons,not_or] at hnd
  obtain ⟨⟨hhx,hhs⟩,hxs,hs⟩ := hnd
  refine ⟨by simp [hhs,hs],?_⟩
  cases xs with
  | nil =>
    have hl : L.next x = hd := h3.1
    simp [Linked,Links.removeAfter,h1,hl]
  | cons y ys =>
    obtain ⟨h4,_,h6⟩ := h3
    have hy : y ∉ ys := (List.nodup_cons.mp hs).1
    refine ⟨by simp [Links.removeAfter,h1,h4],by simp [Links.removeAfter,h1,h4],h6.congr ?_ ?_⟩
    · intro z hz
      have hzh : z ≠ hd := by
        rintro rfl
        exact hhs hz
      simp [Links.removeAfter,Function.update_of_ne hzh]
    · intro z hz
      have hzy : z ≠ y := by
        rintro rfl
        rcases List.mem_cons.mp hz with he | hz
        · exact hhs (by simp [he])
        · exact hy hz
      simp [Links.removeAfter,h1,h4,Function.update_of_ne hzy]

/-- Removal from one ring leaves every disjoint ring alone. -/
theorem Ring.removeAfter_of_disjoint {hd g x : α} {xs ys : List α} (h : L.Ring hd (x::xs))
    (hg : L.Ring g ys) (hd' : ∀ y ∈ g::ys, y ∉ hd::x::xs) :
    (L.removeAfter hd).Ring g ys := by
  obtain ⟨h1,_,h3⟩ := h.linked
  have hnn : L.next (L.next hd) ∈ hd::x::xs := by
    rw [h1]
    rcases List.mem_cons.mp h3.next_mem with he | hm
    · simp [he]
    · simp [hm]
  refine hg.congr ?_ ?_
  · intro y hy
    have hyh : y ≠ hd := fun he => hd' y hy (by simp [he])
    simp [Links.removeAfter,Function.update_of_ne hyh]
  · intro y hy
    have hyn : y ≠ L.next (L.next hd) := fun he => hd' y hy (he ▸ hnn)
    simp [Links.removeAfter,Function.update_of_ne hyn]

end Edit
end Links
end Linuxab.Base
