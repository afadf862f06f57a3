import Mathlib.Data.List.Induction
import Mathlib.Logic.Function.Basic

/-! Lists in a memory of cells with numbers: storing one, finding one, and what storing leaves alone. -/
namespace Linuxab.Base
variable {α : Type*} {mem : ℕ → α} {p q : ℕ} {a : α} {l l' : List α}

/-- The memory with the elements stored from `p` on. -/
def storeList (mem : ℕ → α) (p : ℕ) : List α → ℕ → α
  | [] => mem
  | a::l => storeList (Function.update mem p a) (p+1) l

/-- The elements are in the cells from `p` on. -/
def Holds (mem : ℕ → α) (p : ℕ) : List α → Prop
  | [] => True
  | a::l => mem p = a ∧ Holds mem (p+1) l

theorem storeList_append (mem : ℕ → α) (p : ℕ) (l l' : List α) :
    storeList mem p (l ++ l') = storeList (storeList mem p l) (p+l.length) l' := by
  induction l generalizing mem p with
  | nil => rfl
  | cons a l ih =>
    rw [List.cons_append,storeList,ih,storeList,List.length_cons,Nat.add_assoc,Nat.add_comm 1]

/-- A cell outside of the list can be written before or after it. -/
theorem storeList_update (h : q < p ∨ p+l.length ≤ q) (a : α) :
    storeList (Function.update mem q a) p l = Function.update (storeList mem p l) q a := by
  induction l generalizing mem p with
  | nil => rfl
  | cons b l ih =>
    have hne : q ≠ p := by
      rw [List.length_cons] at h
      omega
    rw [storeList,storeList,Function.update_comm hne,ih]
    rw [List.length_cons] at h
    omega

theorem storeList_of_outside (h : q < p ∨ p+l.length ≤ q) : storeList mem p l q = mem q := by
  have hself : storeList (Function.update mem q (mem q)) p l = _ := storeList_update h (mem q)
  rw [Function.update_eq_self] at hself
  rw [hself,Function.update_self]

/-- The two ends first, and then what is between them. -/
theorem storeList_ends (mem : ℕ → α) (p : ℕ) (a : α) (l : List α) (b : α) : storeList mem p (a::(l ++ [b])) =
    storeList (Function.update (Function.update mem p a) (p+1+l.length) b) (p+1) l := by
  rw [storeList,storeList_append,storeList,storeList,storeList_update (.inr (Nat.le_refl _))]

/-- The ends of a list are exchanged. -/
theorem swap_storeList_ends (mem : ℕ → α) (p : ℕ) (a : α) (l : List α) (b : α) :
    Function.update
      (Function.update (storeList mem p (a::(l ++ [b]))) p (storeList mem p (a::(l ++ [b])) (p+1+l.length)))
      (p+1+l.length) (storeList mem p (a::(l ++ [b])) p) = storeList mem p (b::(l ++ [a])) := by
  have hne : p ≠ p+1+l.length := by omega
  have hfirst : storeList mem p (a::(l ++ [b])) p = a := by
    rw [storeList_ends,storeList_of_outside (.inl (Nat.lt_succ_self p)),Function.update_of_ne hne,Function.update_self]
  have hlast : storeList mem p (a::(l ++ [b])) (p+1+l.length) = b := by
    rw [storeList_ends,storeList_of_outside (.inr (Nat.le_refl _)),Function.update_self]
  rw [hfirst,hlast,storeList_ends,storeList_ends,← storeList_update (.inl (Nat.lt_succ_self p)),
    ← storeList_update (.inr (Nat.le_refl _)),Function.update_comm hne,Function.update_idem,Function.update_comm hne,
    Function.update_idem,Function.update_comm hne.symm]

theorem holds_storeList (mem : ℕ → α) (p : ℕ) (l : List α) : Holds (storeList mem p l) p l := by
  induction l generalizing mem p with
  | nil => trivial
  | cons a l ih =>
    refine ⟨?_,ih _ _⟩
    rw [storeList,storeList_of_outside (.inl (Nat.lt_succ_self p)),Function.update_self]

theorem holds_append : Holds mem p (l ++ l') ↔ Holds mem p l ∧ Holds mem (p+l.length) l' := by
  induction l generalizing p with
  | nil => exact ⟨fun h => ⟨trivial,h⟩,fun h => h.2⟩
  | cons a l ih => rw [List.cons_append,Holds,Holds,ih,and_assoc,List.length_cons,Nat.add_assoc,Nat.add_comm 1]

theorem Holds.mem_of_lt (h : Holds mem p l) (hp : p ≤ q) (hq : q < p+l.length) : mem q ∈ l := by
  induction l generalizing p with
  | nil => exact absurd hq (Nat.not_lt.mpr hp)
  | cons a l ih =>
    rcases Nat.eq_or_lt_of_le hp with rfl | hlt
    · exact List.mem_cons.mpr (.inl h.1)
    · refine List.mem_cons_of_mem a (ih h.2 hlt ?_)
      rw [List.length_cons] at hq
      omega

end Linuxab.Base
