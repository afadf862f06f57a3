import Linuxab.Base.Sweep
import Mathlib.Algebra.Group.Nat.Defs

/-! Little-endian words of 32 bits in a memory of bytes. Aligned stores and block moves are seen on the
table of the words. -/
namespace Linuxab.Base
variable {κ : Type*} (m : ℕ → UInt8) (a k : ℕ) (v : UInt32)

def load32 : UInt32 :=
  UInt32.ofNat ((m a).toNat+256*(m (a+1)).toNat+65536*(m (a+2)).toNat+16777216*(m (a+3)).toNat)

def store32 : ℕ → UInt8 := fun i => if a ≤ i ∧ i < a+4 then UInt8.ofNat (v.toNat/256^(i-a)) else m i

/-- The words at the multiples of four. -/
def words : UInt32 := load32 m (4*k)

theorem load32_store32 : load32 (store32 m a v) a = v := by
  have hlt := v.toNat_lt
  have h₁ : a+1-a = 1 := by omega
  have h₂ : a+2-a = 2 := by omega
  have h₃ : a+3-a = 3 := by omega
  apply UInt32.toNat_inj.mp
  simp [load32,store32,h₁,h₂,h₃]
  omega

variable {m a}

/-- Only the four bytes count. -/
theorem load32_congr {m' : ℕ → UInt8} {b : ℕ} (h : ∀ j < 4, m' (a+j) = m (b+j)) : load32 m' a = load32 m b := by
  have h₀ := h 0 (by decide)
  have h₁ := h 1 (by decide)
  have h₂ := h 2 (by decide)
  have h₃ := h 3 (by decide)
  simp only [Nat.add_zero] at h₀
  simp only [load32,h₀,h₁,h₂,h₃]

theorem words_store32 : words (store32 m (4*k) v) = Function.update (words m) k v := by
  funext j
  rcases eq_or_ne j k with rfl | hne
  · rw [Function.update_self]
    exact load32_store32 m (4*j) v
  · rw [Function.update_of_ne hne]
    apply load32_congr
    intro i hi
    simp only [store32]
    exact if_neg (by omega)

/-- A loop of aligned stores. -/
theorem words_foldl_store32 {l : List κ} {dst idx : κ → ℕ} {val : κ → UInt32} (h : ∀ k ∈ l, dst k = 4*idx k) :
    words (l.foldl (fun m k => store32 m (dst k) (val k)) m) = sweep idx (fun _ k => val k) l (words m) := by
  induction l generalizing m with
  | nil => rfl
  | cons k l ih =>
    rw [List.foldl_cons,ih fun k' hk' => h k' (List.mem_cons_of_mem k hk'),sweep_cons,h k List.mem_cons_self,
      words_store32]

/-- A block of words moved down byte by byte. -/
theorem words_shift (n d k : ℕ) : words (sweep id (fun f i => f (i+4*d)) (List.range (4*n)) m) k
    = if k < n then words m (k+d) else words m k := by
  split_ifs with hk
  · apply load32_congr
    intro j hj
    rw [sweep_shift,if_pos (by omega)]
    congr 1
    omega
  · apply load32_congr
    intro j hj
    rw [sweep_shift,if_neg (by omega)]

end Linuxab.Base
