import Mathlib.Algebra.BigOperators.Group.Finset.Piecewise
import Mathlib.Data.Fintype.Card
import Mathlib.Data.List.FinRange

/-! Fixed tables: the search for the first slot with a property, sums and counts over the slots, and what
a change of one slot does to them. -/
namespace Linuxab.Base

section Search
variable {α : Type*} {n : ℕ} {p : α → Bool} {f : Fin n → α} {i : Fin n} {a : α}

theorem find?_slots_eq_none : (List.finRange n).find? (fun j => p (f j)) = none ↔ ∀ j, p (f j) = false := by
  simp [List.find?_eq_none]

/-- If no slot had the property, the one that gets it is found. -/
theorem find?_slots_update_of_none (h : (List.finRange n).find? (fun j => p (f j)) = none) (i : Fin n)
    (ha : p a = true) : (List.finRange n).find? (fun j => p (Function.update f i a j)) = some i := by
  cases hf : (List.finRange n).find? (fun j => p (Function.update f i a j)) with
  | none =>
    have hi := find?_slots_eq_none.mp hf i
    rw [Function.update_self,ha] at hi
    cases hi
  | some j =>
    by_cases hj : j = i
    · rw [hj]
    · have hp := List.find?_some hf
      rw [Function.update_of_ne hj,find?_slots_eq_none.mp h j] at hp
      cases hp

/-- The slot that was found is found again while it keeps the property. -/
theorem find?_slots_update_of_some (h : (List.finRange n).find? (fun j => p (f j)) = some i)
    (ha : p a = true) : (List.finRange n).find? (fun j => p (Function.update f i a j)) = some i := by
  rw [← h]
  congr 1
  funext j
  by_cases hj : j = i
  · subst hj
    rw [Function.update_self,ha]
    exact (List.find?_some h).symm
  · rw [Function.update_of_ne hj]

/-- A slot that neither had nor gets the property does not change what is found. -/
theorem find?_slots_update_of_neither (hi : p (f i) = false) (ha : p a = false) :
    (List.finRange n).find? (fun j => p (Function.update f i a j)) = (List.finRange n).find? (fun j => p (f j)) := by
  congr 1
  funext j
  by_cases hj : j = i
  · rw [hj,Function.update_self,ha,hi]
  · rw [Function.update_of_ne hj]

end Search

/-- A slot that holds something else than what was written is an unchanged one. -/
theorem of_slots_update {ι α : Type*} [DecidableEq ι] {f : ι → α} {i j : ι} {a b : α}
    (h : Function.update f i a j = b) (hab : a ≠ b) : j ≠ i ∧ f j = b := by
  by_cases hj : j = i
  · subst hj
    exact absurd (by simpa using h) hab
  · exact ⟨hj,by simpa [Function.update_of_ne hj] using h⟩

/-- Keys that are distinct among the slots with a property stay so if the new entry either lacks the
property or has a key of its own. -/
theorem injOn_slots_update {ι α κ : Type*} [DecidableEq ι] {k : α → κ} {p : α → Prop} {f : ι → α} {i : ι} {a : α}
    (h : Set.InjOn (fun j => k (f j)) {j | p (f j)}) (ha : p a → ∀ j, j ≠ i → p (f j) → k (f j) ≠ k a) :
    Set.InjOn (fun j => k (Function.update f i a j)) {j | p (Function.update f i a j)} := by
  intro j hj l hl hk
  simp only [Set.mem_ofPred_eq] at hj hl hk
  by_cases hji : j = i <;> by_cases hli : l = i
  · rw [hji,hli]
  · subst hji
    rw [Function.update_self] at hj hk
    rw [Function.update_of_ne hli] at hl hk
    exact absurd hk.symm (ha hj l hli hl)
  · subst hli
    rw [Function.update_self] at hl hk
    rw [Function.update_of_ne hji] at hj hk
    exact absurd hk (ha hl j hji hj)
  · rw [Function.update_of_ne hji] at hj hk
    rw [Function.update_of_ne hli] at hl hk
    exact h hj hl hk

section Count
variable {ι α : Type*} [Fintype ι] [DecidableEq ι]

theorem sum_slots_update (w : α → ℕ) (f : ι → α) (i : ι) (a : α) :
    ∑ j, w (Function.update f i a j) + w (f i) = ∑ j, w (f j) + w a := by
  have hrest : ∑ j ∈ Finset.univ.erase i, w (Function.update f i a j) = ∑ j ∈ Finset.univ.erase i, w (f j) := by
    apply Finset.sum_congr rfl
    intro j hj
    rw [Function.update_of_ne (Finset.ne_of_mem_erase hj)]
  rw [← Finset.add_sum_erase _ _ (Finset.mem_univ i),← Finset.add_sum_erase _ _ (Finset.mem_univ i),
    Function.update_self,hrest]
  omega

theorem card_slots_update (p : α → Bool) (f : ι → α) (i : ι) (a : α) :
    Finset.card {j | p (Function.update f i a j)} + (p (f i)).toNat
      = Finset.card {j | p (f j)} + (p a).toNat := by
  have hone : ∀ b : Bool, (if b = true then 1 else 0) = b.toNat := by decide
  simp only [Finset.card_filter,hone]
  exact sum_slots_update (fun b => (p b).toNat) f i a

theorem length_filter_slots {n : ℕ} (p : α → Bool) (f : Fin n → α) :
    ((List.finRange n).filter fun i => p (f i)).length = Finset.card {i | p (f i)} := by
  rw [Finset.card_def,Finset.filter_val,Fin.univ_def]
  simp

end Count
end Linuxab.Base
