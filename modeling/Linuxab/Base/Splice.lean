import Mathlib.Data.Set.Finite.Basic
import Mathlib.GroupTheory.Perm.Cycle.Basic
import Mathlib.Logic.Relation

/-! Rings of nodes with two links, as the cycles of a permutation. Putting a node in behind another one and taking
a node out of its ring are both the product with a transposition. -/
namespace Linuxab.Base
open Equiv

section Splice
variable {α : Type*} [DecidableEq α] {σ : Perm α} {a x y : α}

/-- What followed `a` and what followed `x` are exchanged. -/
def splice (σ : Perm α) (a x : α) : Perm α := σ*swap a x

@[simp] theorem splice_left : splice σ a x a = σ x := by rw [splice,Perm.mul_apply,swap_apply_left]

@[simp] theorem splice_right : splice σ a x x = σ a := by rw [splice,Perm.mul_apply,swap_apply_right]

theorem splice_of_ne (ha : y ≠ a) (hx : y ≠ x) : splice σ a x y = σ y := by
  rw [splice,Perm.mul_apply,swap_apply_of_ne_of_ne ha hx]

theorem splice_symm_left : (splice σ a x).symm (σ x) = a := by rw [Equiv.symm_apply_eq,splice_left]

theorem splice_symm_right : (splice σ a x).symm (σ a) = x := by rw [Equiv.symm_apply_eq,splice_right]

theorem splice_symm_of_ne (ha : y ≠ σ a) (hx : y ≠ σ x) : (splice σ a x).symm y = σ.symm y := by
  have ha' : σ.symm y ≠ a := fun h => ha (Equiv.symm_apply_eq σ |>.mp h)
  have hx' : σ.symm y ≠ x := fun h => hx (Equiv.symm_apply_eq σ |>.mp h)
  rw [Equiv.symm_apply_eq,splice_of_ne ha' hx',Equiv.apply_symm_apply]

end Splice

section Rings
variable {α : Type*} {next prev : α → Option α} {R R' : Set α}

/-- A ring: the two links lead from node to node and undo each other, and every node is met on the way from
every other one. -/
structure IsRing (next prev : α → Option α) (R : Set α) : Prop where
  finite : R.Finite
  nonempty : R.Nonempty
  next_mem : ∀ x ∈ R, ∃ y ∈ R, next x = some y ∧ prev y = some x
  prev_mem : ∀ y ∈ R, ∃ x ∈ R, prev y = some x ∧ next x = some y
  connected : ∀ x ∈ R, ∀ y ∈ R, Relation.ReflTransGen (fun a b => next a = some b) x y

/-- What is met from a node of a ring is on the ring. -/
theorem IsRing.mem_of_reflTransGen (h : IsRing next prev R) {x y : α} (hx : x ∈ R)
    (hy : Relation.ReflTransGen (fun a b => next a = some b) x y) : y ∈ R := by
  induction hy with
  | refl => exact hx
  | tail _ hstep ih =>
    obtain ⟨z,hz,hnext,-⟩ := h.next_mem _ ih
    exact Option.some.inj (hnext.symm.trans hstep) ▸ hz

theorem IsRing.subset (h : IsRing next prev R) (h' : IsRing next prev R') {x : α} (hx : x ∈ R) (hx' : x ∈ R') :
    R ⊆ R' :=
  fun y hy => h'.mem_of_reflTransGen hx' (h.connected x hx y hy)

/-- A node is on one ring at most. -/
theorem IsRing.eq_of_mem (h : IsRing next prev R) (h' : IsRing next prev R') {x : α} (hx : x ∈ R) (hx' : x ∈ R') :
    R = R' :=
  (h.subset h' hx hx').antisymm (h'.subset h hx' hx)

/-- The links of the live nodes are a permutation and its inverse. -/
structure Threads (σ : Perm α) (live : Finset α) (next prev : α → Option α) : Prop where
  next : ∀ x ∈ live, next x = some (σ x)
  prev : ∀ x ∈ live, prev x = some (σ.symm x)
  fixes : ∀ x ∉ live, σ x = x

theorem threads_empty (next prev : α → Option α) : Threads 1 ∅ next prev :=
  ⟨fun x hx => absurd hx (Finset.notMem_empty x),fun x hx => absurd hx (Finset.notMem_empty x),fun _ _ => rfl⟩

namespace Threads
variable {σ : Perm α} {live : Finset α} (h : Threads σ live next prev) {x y : α}
include h

theorem mem_of_sameCycle (hxy : σ.SameCycle x y) (hx : x ∈ live) : y ∈ live := by
  by_contra hy
  exact hy (hxy.eq_of_right (h.fixes y hy) ▸ hx)

theorem apply_mem (hx : x ∈ live) : σ x ∈ live := h.mem_of_sameCycle (Perm.sameCycle_apply_right.mpr (.refl σ x)) hx

theorem symm_apply_mem (hx : x ∈ live) : σ.symm x ∈ live :=
  h.mem_of_sameCycle (Perm.sameCycle_symm_apply_right.mpr (.refl σ x)) hx

theorem reflTransGen_pow (hx : x ∈ live) (n : ℕ) :
    Relation.ReflTransGen (fun a b => next a = some b) x ((σ^n) x) := by
  induction n with
  | zero => exact .refl
  | succ n ih =>
    have hmem : (σ^n) x ∈ live := h.mem_of_sameCycle (Perm.sameCycle_pow_right.mpr (.refl σ x)) hx
    rw [pow_succ',Perm.mul_apply]
    exact ih.tail (h.next _ hmem)

/-- There are finitely many nodes, so the way along `next` comes to every node of the cycle. -/
theorem reflTransGen_of_sameCycle (hxy : σ.SameCycle x y) (hx : x ∈ live) :
    Relation.ReflTransGen (fun a b => next a = some b) x y := by
  have hmem : ∀ z, σ z ∈ live ↔ z ∈ live :=
    fun z => ⟨fun hz => h.mem_of_sameCycle (Perm.sameCycle_apply_left.mpr (.refl σ z)) hz,h.apply_mem⟩
  have hsub : (σ.subtypePerm hmem).SameCycle ⟨x,hx⟩ ⟨y,h.mem_of_sameCycle hxy hx⟩ := Perm.sameCycle_subtypePerm.mpr hxy
  obtain ⟨n,hn⟩ := hsub.exists_nat_pow_eq
  have hpow : (σ^n) x = y := by simpa [Subtype.ext_iff] using hn
  exact hpow ▸ h.reflTransGen_pow hx n

/-- A live node is on exactly one ring, the cycle of the permutation. -/
theorem existsUnique_ring (hx : x ∈ live) : ∃! R, IsRing next prev R ∧ x ∈ R := by
  have hring : IsRing next prev {y | σ.SameCycle x y} := by
    refine ⟨live.finite_toSet.subset fun y hy => h.mem_of_sameCycle hy hx,⟨x,.refl σ x⟩,?_,?_,?_⟩
    · intro y hy
      have hylive := h.mem_of_sameCycle hy hx
      refine ⟨σ y,Perm.sameCycle_apply_right.mpr hy,h.next y hylive,?_⟩
      rw [h.prev _ (h.apply_mem hylive),Equiv.symm_apply_apply]
    · intro y hy
      have hylive := h.mem_of_sameCycle hy hx
      refine ⟨σ.symm y,Perm.sameCycle_symm_apply_right.mpr hy,h.prev y hylive,?_⟩
      rw [h.next _ (h.symm_apply_mem hylive),Equiv.apply_symm_apply]
    · intro y hy z hz
      exact h.reflTransGen_of_sameCycle (hy.symm.trans hz) (h.mem_of_sameCycle hy hx)
  refine ⟨_,⟨hring,.refl σ x⟩,?_⟩
  rintro R ⟨hR,hmem⟩
  exact hR.eq_of_mem hring hmem (.refl σ x)

section Change
variable [DecidableEq α] {next' prev' : α → Option α} {a : α}

/-- A node that links to itself is live from now on. -/
theorem insert (hx : x ∉ live) (hnext : next' x = some x) (hprev : prev' x = some x)
    (hnext' : ∀ y ≠ x, next' y = next y) (hprev' : ∀ y ≠ x, prev' y = prev y) :
    Threads σ (insert x live) next' prev' := by
  have hfix : σ x = x := h.fixes x hx
  refine ⟨?_,?_,fun y hy => h.fixes y fun hmem => hy (Finset.mem_insert_of_mem hmem)⟩
  · intro y hy
    obtain rfl | hne := eq_or_ne y x
    · rw [hnext,hfix]
    · rw [hnext' y hne,h.next y (Finset.mem_of_mem_insert_of_ne hy hne)]
  · intro y hy
    obtain rfl | hne := eq_or_ne y x
    · rw [hprev,(Equiv.symm_apply_eq σ).mpr hfix.symm]
    · rw [hprev' y hne,h.prev y (Finset.mem_of_mem_insert_of_ne hy hne)]

/-- The four links that a splice changes. -/
theorem spliced (ha : a ∈ live) (hx : x ∈ live) (hna : next' a = some (σ x)) (hnx : next' x = some (σ a))
    (hpa : prev' (σ a) = some x) (hpx : prev' (σ x) = some a) (hn : ∀ y, y ≠ a → y ≠ x → next' y = next y)
    (hp : ∀ y, y ≠ σ a → y ≠ σ x → prev' y = prev y) : Threads (splice σ a x) live next' prev' := by
  refine ⟨?_,?_,?_⟩
  · intro y hy
    obtain rfl | hya := eq_or_ne y a
    · rw [hna,splice_left]
    obtain rfl | hyx := eq_or_ne y x
    · rw [hnx,splice_right]
    · rw [hn y hya hyx,splice_of_ne hya hyx,h.next y hy]
  · intro y hy
    obtain rfl | hya := eq_or_ne y (σ a)
    · rw [hpa,splice_symm_right]
    obtain rfl | hyx := eq_or_ne y (σ x)
    · rw [hpx,splice_symm_left]
    · rw [hp y hya hyx,splice_symm_of_ne hya hyx,h.prev y hy]
  · intro y hy
    have hya : y ≠ a := fun heq => hy (heq ▸ ha)
    have hyx : y ≠ x := fun heq => hy (heq ▸ hx)
    rw [splice_of_ne hya hyx,h.fixes y hy]

end Change
end Threads
end Rings
end Linuxab.Base
