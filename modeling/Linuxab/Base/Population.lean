import Linuxab.Base.Bitmap
import Linuxab.Base.Slots
import Mathlib.Algebra.BigOperators.Fin

/-! The number of ones of a machine word, as it changes with one bit and as it is counted by shifting. -/
namespace Linuxab.Base
variable {w : ℕ} {v : BitVec w} {k : ℕ}

def ones (v : BitVec w) : ℕ := ∑ i : Fin w, (v.getLsbD i).toNat

theorem ones_zero : ones (0 : BitVec w) = 0 := by simp [ones]

private lemma ones_update (u : BitVec w) (hk : k < w) (b : Bool)
    (h : ∀ i < w, u.getLsbD i = if i = k then b else v.getLsbD i) :
    ones u+(v.getLsbD k).toNat = ones v+b.toNat := by
  have hu : ∀ i : Fin w, u.getLsbD i = Function.update (fun i : Fin w => v.getLsbD i) ⟨k,hk⟩ b i := by
    intro i
    rw [h i i.isLt,Function.update_apply]
    simp only [Fin.ext_iff]
  simp only [ones,hu]
  exact sum_slots_update Bool.toNat (fun i : Fin w => v.getLsbD i) ⟨k,hk⟩ b

theorem ones_set (hk : k < w) (h : v.getLsbD k = false) : ones (v ||| 1#w <<< k) = ones v+1 := by
  have hstep := ones_update (v := v) (v ||| 1#w <<< k) hk true fun i hi => by
    rw [getLsbD_or_mask hi]
    split_ifs with hik <;> simp [hik]
  simpa [h] using hstep

theorem ones_clear (hk : k < w) (h : v.getLsbD k = true) : ones (v &&& ~~~(1#w <<< k))+1 = ones v := by
  have hstep := ones_update (v := v) (v &&& ~~~(1#w <<< k)) hk false fun i hi => by
    rw [getLsbD_and_not_mask hi]
    split_ifs with hik <;> simp [hik]
  simpa [h] using hstep

/-- The lowest bit is split off by a shift. -/
theorem ones_shiftRight (v : BitVec w) : ones v = (v.getLsbD 0).toNat+ones (v >>> 1) := by
  have hsum : ∀ u : BitVec w, ones u = ∑ i ∈ Finset.range w, (u.getLsbD i).toNat := fun u =>
    Fin.sum_univ_eq_sum_range (fun i => (u.getLsbD i).toNat) w
  have hlast : (v.getLsbD w).toNat = 0 := by rw [BitVec.getLsbD_of_ge v w le_rfl]; rfl
  have hshift : ∀ i, (v >>> 1).getLsbD i = v.getLsbD (i+1) := by
    intro i
    rw [BitVec.getLsbD_ushiftRight,Nat.add_comm]
  simp only [hsum,hshift]
  have hfirst := Finset.sum_range_succ' (fun i => (v.getLsbD i).toNat) w
  rw [Finset.sum_range_succ,hlast] at hfirst
  omega

end Linuxab.Base
