import Mathlib.Data.List.Induction
import Mathlib.Data.List.Infix

/-! Loops over a list whose steps can fail: when such a loop comes to an end, and at which step one
that does not has stopped. -/
namespace Linuxab.Base
variable {α : Type*} {β ε σ : Type}

/-- An invariant under which no step fails carries the loop to its end. -/
theorem exists_foldlM {m : Type → Type} [Monad m] [LawfulMonad m] {step : σ → α → m σ} {P : σ → Prop}
    (hstep : ∀ s a, P s → ∃ t, step s a = pure t ∧ P t) (l : List α) {s : σ} (hs : P s) :
    ∃ t, l.foldlM step s = pure t ∧ P t := by
  induction l generalizing s with
  | nil => exact ⟨s,rfl,hs⟩
  | cons a l ih =>
    obtain ⟨t,ht,hp⟩ := hstep s a hs
    obtain ⟨u,hu,hq⟩ := ih hp
    exact ⟨u,by rw [List.foldlM_cons,ht,pure_bind,hu],hq⟩

theorem exists_mapM {f : α → Option β} {l : List α} (h : ∀ a ∈ l, ∃ b, f a = some b) :
    ∃ bs, l.mapM f = some bs := by
  induction l with
  | nil => exact ⟨[],rfl⟩
  | cons a l ih =>
    obtain ⟨b,hb⟩ := h a (by simp)
    obtain ⟨bs,hbs⟩ := ih fun x hx => h x (by simp [hx])
    exact ⟨b::bs,by rw [List.mapM_cons,hb,hbs]; rfl⟩

theorem mapM_eq_map {f : α → Option β} {g : α → β} {l : List α} (h : ∀ a ∈ l, f a = some (g a)) :
    l.mapM f = some (l.map g) := by
  induction l with
  | nil => rfl
  | cons a l ih =>
    obtain ⟨ha,hl⟩ := List.forall_mem_cons.mp h
    rw [List.mapM_cons,ha,ih hl]
    rfl

theorem length_of_mapM {f : α → Option β} {l : List α} {bs : List β} (h : l.mapM f = some bs) :
    bs.length = l.length := by
  induction l generalizing bs with
  | nil =>
    cases h
    rfl
  | cons a l ih =>
    rw [List.mapM_cons] at h
    obtain ⟨b,-,h⟩ := Option.bind_eq_some_iff.mp h
    obtain ⟨cs,hcs,h⟩ := Option.bind_eq_some_iff.mp h
    cases h
    rw [List.length_cons,List.length_cons,ih hcs]

theorem foldlM_cons_eq_some {step : σ → α → Option σ} {s t : σ} {a : α} {l : List α} :
    (a::l).foldlM step s = some t ↔ ∃ u, step s a = some u ∧ l.foldlM step u = some t := by
  rw [List.foldlM_cons]
  exact Option.bind_eq_some_iff

/-- What every step keeps that is taken under its guard, a run keeps whose steps are all taken under it. -/
theorem foldl_guarded {step : σ → α → σ} {P : σ → Prop} {Q : σ → α → Prop}
    (hstep : ∀ s a, P s → Q s a → P (step s a)) {s : σ} (hs : P s) {l : List α}
    (hguard : ∀ pre a, pre ++ [a] <+: l → Q (pre.foldl step s) a) {pre : List α} (hpre : pre <+: l) :
    P (pre.foldl step s) := by
  induction pre using List.reverseRecOn with
  | nil => exact hs
  | append_singleton pre a ih =>
    rw [List.foldl_append,List.foldl_cons,List.foldl_nil]
    exact hstep _ a (ih ((List.prefix_append pre [a]).trans hpre)) (hguard pre a hpre)

/-- Every step of the run is taken under its guard. -/
def Along (step : σ → α → σ) (Q : σ → α → Prop) : σ → List α → Prop
  | _,[] => True
  | s,a::l => Q s a ∧ Along step Q (step s a) l

instance Along.decidable {step : σ → α → σ} {Q : σ → α → Prop} [∀ s a, Decidable (Q s a)] :
    (s : σ) → (l : List α) → Decidable (Along step Q s l)
  | _,[] => inferInstanceAs (Decidable True)
  | s,a::l => @instDecidableAnd _ _ _ (Along.decidable (step s a) l)

/-- What every step keeps that is taken under its guard, such a run keeps. -/
theorem Along.keeps {step : σ → α → σ} {P : σ → Prop} {Q : σ → α → Prop}
    (hstep : ∀ s a, P s → Q s a → P (step s a)) {s : σ} {l : List α} (h : Along step Q s l) (hs : P s) :
    P (l.foldl step s) := by
  induction l generalizing s with
  | nil => exact hs
  | cons a l ih => exact ih h.2 (hstep s a hs h.1)

theorem along_append {step : σ → α → σ} {Q : σ → α → Prop} {s : σ} {l l' : List α} :
    Along step Q s (l ++ l') ↔ Along step Q s l ∧ Along step Q (l.foldl step s) l' := by
  induction l generalizing s with
  | nil => exact (iff_of_eq (true_and _)).symm
  | cons a l ih => exact (and_congr_right fun _ => ih).trans and_assoc.symm

/-- Guards that agree on the steps of a list agree along it. -/
theorem along_congr {step : σ → α → σ} {Q R : σ → α → Prop} {l : List α} (h : ∀ a ∈ l, ∀ s, Q s a ↔ R s a) (s : σ) :
    Along step Q s l ↔ Along step R s l := by
  induction l generalizing s with
  | nil => exact Iff.rfl
  | cons a l ih =>
    rw [List.forall_mem_cons] at h
    exact and_congr (h.1 s) (ih h.2 (step s a))

/-- A property that each step adds, removes or leaves under an invariant: it holds at the end exactly if it was
added and not removed since. -/
theorem foldl_last_iff_of_invariant {step : σ → α → σ} {I P : σ → Prop} {adds removes : α → Prop}
    (hinv : ∀ s a, I s → I (step s a)) (hstep : ∀ s a, I s → (P (step s a) ↔ adds a ∨ P s ∧ ¬removes a)) {s : σ}
    (hi : I s) (hs : ¬P s) (l : List α) :
    P (l.foldl step s) ↔ ∃ pre a post, l = pre ++ a::post ∧ adds a ∧ ∀ b ∈ post, ¬removes b := by
  induction l using List.reverseRecOn with
  | nil => simp [hs]
  | append_singleton l c ih =>
    have hrun : I (l.foldl step s) := List.foldlRecOn l step hi fun s hs a _ => hinv s a hs
    rw [List.foldl_append,List.foldl_cons,List.foldl_nil,hstep _ c hrun,ih]
    constructor
    · rintro (hadd | ⟨⟨pre,a,post,rfl,hadd,hpost⟩,hc⟩)
      · exact ⟨l,c,[],rfl,hadd,nofun⟩
      · refine ⟨pre,a,post ++ [c],by simp,hadd,fun b hb => ?_⟩
        obtain hb | hb := List.mem_append.mp hb
        · exact hpost b hb
        · rwa [List.mem_singleton.mp hb]
    · rintro ⟨pre,a,post,he,hadd,hpost⟩
      obtain rfl | ⟨mid,d,rfl⟩ := List.eq_nil_or_concat post
      · obtain ⟨rfl,ha⟩ := List.append_inj' he rfl
        cases ha
        exact .inl hadd
      · rw [List.concat_eq_append] at he hpost
        rw [← List.cons_append,← List.append_assoc] at he
        obtain ⟨rfl,hd⟩ := List.append_inj' he rfl
        cases hd
        exact .inr ⟨⟨pre,a,mid,rfl,hadd,fun b hb => hpost b (by simp [hb])⟩,hpost _ (by simp)⟩

theorem foldl_last_iff {step : σ → α → σ} {P : σ → Prop} {adds removes : α → Prop}
    (hstep : ∀ s a, P (step s a) ↔ adds a ∨ P s ∧ ¬removes a) {s : σ} (hs : ¬P s) (l : List α) :
    P (l.foldl step s) ↔ ∃ pre a post, l = pre ++ a::post ∧ adds a ∧ ∀ b ∈ post, ¬removes b :=
  foldl_last_iff_of_invariant (I := fun _ => True) (fun _ _ => id) (fun s a _ => hstep s a) trivial hs l

section Error
variable {step : σ → α → Except ε σ} {s : σ} {e : ε}

lemma foldlM_cons_ok {t : σ} {a : α} (h : step s a = .ok t) (l : List α) :
    (a::l).foldlM step s = l.foldlM step t := by
  rw [List.foldlM_cons,h]
  rfl

lemma foldlM_cons_error {a : α} (h : step s a = .error e) (l : List α) :
    (a::l).foldlM step s = .error e := by
  rw [List.foldlM_cons,h]
  rfl

theorem bind_eq_ok {x : Except ε β} {f : β → Except ε σ} :
    x >>= f = .ok s ↔ ∃ b, x = .ok b ∧ f b = .ok s := by
  cases x with
  | ok b => simp [bind,Except.bind]
  | error e => simp [bind,Except.bind]

theorem map_eq_ok {x : Except ε β} {f : β → σ} : f <$> x = .ok s ↔ ∃ b, x = .ok b ∧ f b = s := by
  cases x with
  | ok b => simp [Functor.map,Except.map]
  | error e => simp [Functor.map,Except.map]

/-- What every step that succeeds keeps, a loop that comes to its end has kept. -/
theorem foldlM_ok_keeps {P : σ → Prop} (hstep : ∀ s a t, P s → step s a = .ok t → P t) (l : List α) {t : σ}
    (hs : P s) (h : l.foldlM step s = .ok t) : P t := by
  induction l generalizing s with
  | nil =>
    cases h
    exact hs
  | cons a l ih =>
    rw [List.foldlM_cons] at h
    obtain ⟨u,hu,h⟩ := bind_eq_ok.mp h
    exact ih (hstep s a u hs hu) h

/-- The loop fails with what its first failing step fails with. -/
theorem foldlM_error_iff (l : List α) :
    l.foldlM step s = .error e ↔
      ∃ pre a post t, l = pre ++ a::post ∧ pre.foldlM step s = .ok t ∧ step t a = .error e := by
  constructor
  · induction l generalizing s with
    | nil => exact nofun
    | cons a l ih =>
      intro h
      cases hstep : step s a with
      | error e' =>
        rw [foldlM_cons_error hstep] at h
        exact ⟨[],a,l,s,rfl,rfl,hstep.trans h⟩
      | ok t =>
        rw [foldlM_cons_ok hstep] at h
        obtain ⟨pre,b,post,u,rfl,hpre,hlast⟩ := ih h
        exact ⟨a::pre,b,post,u,rfl,(foldlM_cons_ok hstep pre).trans hpre,hlast⟩
  · intro h
    obtain ⟨pre,a,post,t,rfl,hpre,hlast⟩ := h
    rw [List.foldlM_append,hpre]
    exact foldlM_cons_error hlast post

end Error
end Linuxab.Base
