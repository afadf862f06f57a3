import Mathlib.Data.Fin.Basic
import Mathlib.Data.List.ProdSigma
import Mathlib.Order.Basic

/-! Stores of several neighbouring cells at once. In a loop of such stores the strips may overlap, and what is in
a cell at the end comes from the last store that covers it. -/
namespace Linuxab.Base

section Strip
variable {α : Type*} {w : ℕ} {f : ℤ → α} {p x : ℤ} {v : Fin w → α}

theorem lane_lt (h : p ≤ x ∧ x < p+w) : (x-p).toNat < w := by omega

/-- The cells from `p` on get the lanes of `v`. -/
def storeStrip (f : ℤ → α) (p : ℤ) (v : Fin w → α) (x : ℤ) : α :=
  if h : p ≤ x ∧ x < p+w then v ⟨(x-p).toNat,lane_lt h⟩ else f x

def loadStrip (w : ℕ) (f : ℤ → α) (p : ℤ) (l : Fin w) : α := f (p+l)

theorem storeStrip_lane (l : Fin w) : storeStrip f p v (p+l) = v l := by
  have hlane : p ≤ p+l ∧ p+(l : ℤ) < p+w := by omega
  rw [storeStrip,dif_pos hlane]
  congr 1
  apply Fin.ext
  change (p+l-p).toNat = l
  omega

theorem storeStrip_of_outside (h : x < p ∨ p+w ≤ x) : storeStrip f p v x = f x :=
  dif_neg (by omega)

end Strip

section Loop
variable {α κ : Type*} {w : ℕ} {dst : κ → ℤ} {val : (ℤ → α) → κ → Fin w → α} {l : List κ} {f : ℤ → α}

/-- A loop of stores, each of values computed from the cells as they are by then. -/
def storeStrips (dst : κ → ℤ) (val : (ℤ → α) → κ → Fin w → α) (l : List κ) (f : ℤ → α) : ℤ → α :=
  l.foldl (fun f k => storeStrip f (dst k) (val f k)) f

theorem storeStrips_of_outside {x : ℤ} (h : ∀ k ∈ l, x < dst k ∨ dst k+w ≤ x) : storeStrips dst val l f x = f x := by
  induction l generalizing f with
  | nil => rfl
  | cons k l ih =>
    obtain ⟨hk,hl⟩ := List.forall_mem_cons.mp h
    exact (ih hl).trans (storeStrip_of_outside hk)

/-- A cell keeps what a store wrote into it if no later store covers it. -/
theorem storeStrips_last {r : κ → κ → Prop} (hl : l.Pairwise r) {v : Fin w → α} {k : κ} (hk : k ∈ l) (lane : Fin w)
    (hval : ∀ l₁ l₂, l = l₁ ++ k::l₂ → val (storeStrips dst val l₁ f) k = v)
    (hlater : ∀ k' ∈ l, r k k' → dst k+lane < dst k' ∨ dst k'+w ≤ dst k+lane) :
    storeStrips dst val l f (dst k+lane) = v lane := by
  obtain ⟨l₁,l₂,rfl⟩ := List.append_of_mem hk
  have hrest : ∀ k' ∈ l₂, dst k+lane < dst k' ∨ dst k'+w ≤ dst k+lane := by
    intro k' hk'
    refine hlater k' (List.mem_append_right _ (List.mem_cons_of_mem k hk')) ?_
    exact List.rel_of_pairwise_cons (List.pairwise_append.mp hl).2.1 hk'
  have hsplit : storeStrips dst val (l₁ ++ k::l₂) f =
      storeStrips dst val l₂ (storeStrip (storeStrips dst val l₁ f) (dst k) (val (storeStrips dst val l₁ f) k)) := by
    rw [storeStrips,List.foldl_append]
    rfl
  rw [hsplit,storeStrips_of_outside hrest,storeStrip_lane,hval l₁ l₂ rfl]

/-- The order in which two nested loops go through their pairs. -/
theorem pairwise_product {β : Type*} {r : κ → κ → Prop} {s : β → β → Prop} {l : List κ} {m : List β} (hl : l.Pairwise r)
    (hm : m.Pairwise s) : (l ×ˢ m).Pairwise fun x y => r x.1 y.1 ∨ x.1 = y.1 ∧ s x.2 y.2 := by
  induction l with
  | nil => exact List.Pairwise.nil
  | cons a l ih =>
    obtain ⟨ha,hl⟩ := List.pairwise_cons.mp hl
    rw [List.product_cons]
    refine List.pairwise_append.mpr ⟨List.pairwise_map.mpr (hm.imp fun h => .inr ⟨rfl,h⟩),ih hl,?_⟩
    intro x hx y hy
    obtain ⟨b,-,rfl⟩ := List.mem_map.mp hx
    exact .inl (ha y.1 (List.mem_product.mp hy).1)

end Loop
end Linuxab.Base
