import Mathlib.Data.Nat.Init

/-! Loops with a condition and a body. A measure that every round lowers bounds the number of rounds,
and an invariant of the rounds holds where the loop is left. A loop that comes to a state it does not change
is endless. -/
namespace Linuxab.Base
variable {σ : Type*}

/-- `while (c) f` for at most so many rounds; `none` if the loop is still running then. -/
def whileLoop (c : σ → Bool) (f : σ → σ) : ℕ → σ → Option σ
  | 0,s => if c s then none else some s
  | rounds+1,s => if c s then whileLoop c f rounds (f s) else some s

variable {c : σ → Bool} {f : σ → σ} {s : σ}

theorem whileLoop_of_false (h : c s = false) (rounds : ℕ) : whileLoop c f rounds s = some s := by
  cases rounds <;> simp [whileLoop,h]

/-- The loop is left within as many rounds as the measure says, with the invariant and without the
condition. -/
theorem exists_whileLoop (P : σ → Prop) (measure : σ → ℕ)
    (hstep : ∀ s, P s → c s = true → P (f s) ∧ measure (f s) < measure s) (hs : P s) :
    ∃ t, (∀ rounds, measure s ≤ rounds → whileLoop c f rounds s = some t) ∧ P t ∧ c t = false := by
  induction hn : measure s using Nat.strong_induction_on generalizing s with
  | _ n ih =>
    cases hc : c s with
    | false => exact ⟨s,fun rounds _ => whileLoop_of_false hc rounds,hs,hc⟩
    | true =>
      obtain ⟨hf,hlt⟩ := hstep s hs hc
      obtain ⟨t,ht,hend⟩ := ih (measure (f s)) (hn ▸ hlt) hf rfl
      refine ⟨t,fun rounds hr => ?_,hend⟩
      obtain ⟨k,rfl⟩ : ∃ k, rounds = k+1 := ⟨rounds-1,by omega⟩
      rw [whileLoop,if_pos hc]
      exact ht k (by omega)

/-- The states at the head of the loop. -/
inductive Passes (c : σ → Bool) (f : σ → σ) (s : σ) : σ → Prop
  | start : Passes c f s s
  | next {t : σ} (ht : Passes c f s t) (hc : c t = true) : Passes c f s (f t)

/-- A loop is left if every round of it lowers the measure. -/
theorem exists_whileLoop_of_passes (measure : σ → ℕ)
    (hstep : ∀ t, Passes c f s t → c t = true → measure (f t) < measure t) :
    ∃ rounds t, whileLoop c f rounds s = some t := by
  obtain ⟨t,ht,-⟩ := exists_whileLoop (Passes c f s) measure (fun t ht hc => ⟨ht.next hc,hstep t ht hc⟩) .start
  exact ⟨measure s,t,ht _ (Nat.le_refl _)⟩

theorem whileLoop_of_fixed (hc : c s = true) (hf : f s = s) (rounds : ℕ) : whileLoop c f rounds s = none := by
  induction rounds with
  | zero => rw [whileLoop,if_pos hc]
  | succ rounds ih => rw [whileLoop,if_pos hc,hf,ih]

/-- What a loop comes to from a state that it passes is what it comes to at all. -/
theorem Passes.exists_whileLoop {t u : σ} (ht : Passes c f s t) {rounds : ℕ} (h : whileLoop c f rounds s = some u) :
    ∃ rounds, whileLoop c f rounds t = some u := by
  induction ht with
  | start => exact ⟨rounds,h⟩
  | next ht hc ih =>
    obtain ⟨n,hn⟩ := ih
    cases n with
    | zero =>
      rw [whileLoop,if_pos hc] at hn
      cases hn
    | succ n =>
      rw [whileLoop,if_pos hc] at hn
      exact ⟨n,hn⟩

/-- A loop seen through a part of its state that decides the condition. -/
theorem whileLoop_map {τ : Type*} {c' : τ → Bool} {f' : τ → τ} (g : σ → τ) (hc : ∀ s, c' (g s) = c s)
    (hf : ∀ s, f' (g s) = g (f s)) (rounds : ℕ) (s : σ) :
    whileLoop c' f' rounds (g s) = (whileLoop c f rounds s).map g := by
  induction rounds generalizing s with
  | zero =>
    rw [whileLoop,whileLoop,hc]
    cases c s <;> rfl
  | succ rounds ih =>
    rw [whileLoop,whileLoop,hc,hf]
    cases c s with
    | false => rfl
    | true => exact ih (f s)

end Linuxab.Base
