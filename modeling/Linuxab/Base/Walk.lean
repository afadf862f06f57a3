import Mathlib.Data.Nat.Init

/-! Walks over a range of positions in which every item tells where the next one is. -/
namespace Linuxab.Base
variable {next : ℕ → ℕ} {n p : ℕ}

/-- The positions below `n` from `p` on, for at most so many steps. -/
def walk (next : ℕ → ℕ) (n : ℕ) : ℕ → ℕ → List ℕ
  | 0,_ => []
  | k+1,p => if p < n then p::walk next n k (next p) else []

/-- All positions below `n` from `p` on; a step is at least one forward. -/
def positions (next : ℕ → ℕ) (n p : ℕ) : List ℕ := walk next n (n-p) p

theorem walk_eq_of_le (hnext : ∀ p, p < next p) {k k' : ℕ} (hk : n-p ≤ k) (hk' : n-p ≤ k') :
    walk next n k p = walk next n k' p := by
  induction k generalizing p k' with
  | zero =>
    cases k' with
    | zero => rfl
    | succ k' => rw [walk,walk,if_neg (by omega)]
  | succ k ih =>
    by_cases hp : p < n
    · obtain ⟨m,rfl⟩ : ∃ m, k' = m+1 := ⟨k'-1,by omega⟩
      have hstep := hnext p
      have hrest : walk next n k (next p) = walk next n m (next p) := ih (by omega) (by omega)
      rw [walk,walk,if_pos hp,if_pos hp,hrest]
    · cases k' with
      | zero => rw [walk,walk,if_neg hp]
      | succ k' => rw [walk,walk,if_neg hp,if_neg hp]

theorem positions_of_lt (hnext : ∀ p, p < next p) (hp : p < n) :
    positions next n p = p::positions next n (next p) := by
  have hstep := hnext p
  obtain ⟨k,hk⟩ : ∃ k, n-p = k+1 := ⟨n-p-1,by omega⟩
  rw [positions,hk,walk,if_pos hp,positions,walk_eq_of_le hnext (by omega) (Nat.le_refl _)]

theorem positions_of_le (hp : n ≤ p) : positions next n p = [] := by
  rw [positions,Nat.sub_eq_zero_of_le hp,walk]

theorem lt_of_mem_positions {q : ℕ} (hq : q ∈ positions next n p) : q < n := by
  have hwalk : ∀ k p, q ∈ walk next n k p → q < n := by
    intro k
    induction k with
    | zero => exact fun _ h => absurd h List.not_mem_nil
    | succ k ih =>
      intro p h
      by_cases hp : p < n
      · rw [walk,if_pos hp] at h
        rcases List.mem_cons.mp h with rfl | hrest
        · exact hp
        · exact ih _ hrest
      · rw [walk,if_neg hp] at h
        cases h
  exact hwalk _ p hq

end Linuxab.Base
