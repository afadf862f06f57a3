import Mathlib.Data.List.Basic

/-! Runs of a machine that gives an output in every step, and machines that behave alike. -/
namespace Linuxab.Base
variable {σ τ α β : Type*}

/-- A loop over a list that carries a state along and gives an output for every item. -/
def mapAccum (f : σ → α → σ × β) : σ → List α → σ × List β
  | s,[] => (s,[])
  | s,a::as => ((mapAccum f (f s a).1 as).1,(f s a).2::(mapAccum f (f s a).1 as).2)

/-- The same for steps that may fail. -/
def runOut (step : σ → α → Option (σ × β)) : σ → List α → Option (σ × List β)
  | s,[] => some (s,[])
  | s,a::as => (step s a).bind fun r => (runOut step r.1 as).map fun t => (t.1,r.2::t.2)

/-- Steps that do not fail on related states, give the same output and lead to related states make runs of
which the same is true. -/
theorem runOut_simulates {R : σ → τ → Prop} {step : σ → α → Option (σ × β)} {spec : τ → α → τ × β}
    (hstep : ∀ s t a, R s t → ∃ s', step s a = some (s',(spec t a).2) ∧ R s' (spec t a).1) {s : σ} {t : τ}
    (h : R s t) (as : List α) :
    ∃ s', runOut step s as = some (s',(mapAccum spec t as).2) ∧ R s' (mapAccum spec t as).1 := by
  induction as generalizing s t with
  | nil => exact ⟨s,rfl,h⟩
  | cons a as ih =>
    obtain ⟨s₁,hs,h₁⟩ := hstep s t a h
    obtain ⟨s₂,hrun,h₂⟩ := ih h₁
    exact ⟨s₂,by rw [runOut,hs,Option.bind_some,hrun]; rfl,h₂⟩

/-- What every step keeps of the state and gives of its output, a loop does. -/
theorem mapAccum_forall {f : σ → α → σ × β} {P : σ → Prop} {Q : α → Prop} {R : β → Prop}
    (hstep : ∀ s a, P s → Q a → P (f s a).1 ∧ R (f s a).2) {s : σ} (hs : P s) {as : List α} (has : ∀ a ∈ as, Q a) :
    P (mapAccum f s as).1 ∧ ∀ b ∈ (mapAccum f s as).2, R b := by
  induction as generalizing s with
  | nil => exact ⟨hs,fun b hb => absurd hb List.not_mem_nil⟩
  | cons a as ih =>
    obtain ⟨ha,has⟩ := List.forall_mem_cons.mp has
    obtain ⟨hP,hR⟩ := hstep s a hs ha
    obtain ⟨hP',hR'⟩ := ih hP has
    exact ⟨hP',List.forall_mem_cons.mpr ⟨hR,hR'⟩⟩

end Linuxab.Base
