import Linuxab.Base.Fold

/-! Programs over a signature of commands. The same program text is run by a handler that
answers every command from a state, and is also read as the tree of all its paths, on which every
command may be answered by anything. A ghost automaton that follows the commands gives rules
of pre- and postconditions for the second reading. -/
namespace Linuxab.Base

/-- A finite program whose next command may depend on the earlier answers. -/
inductive Program (C : Type → Type) (α : Type) : Type 1
  | ret (a : α)
  | call {β : Type} (c : C β) (next : β → Program C α)

namespace Program
variable {C : Type → Type} {α β σ : Type}

def bind : Program C α → (α → Program C β) → Program C β
  | ret a,f => f a
  | call c next,f => call c (fun b => (next b).bind f)

instance : Monad (Program C) where
  pure := ret
  bind := bind

/-- The program that makes one command and returns its answer. -/
def perform (c : C β) : Program C β := call c ret

@[simp] theorem pure_eq (a : α) : (pure a : Program C α) = ret a := rfl
@[simp] theorem ret_bind (a : α) (f : α → Program C β) : ret a >>= f = f a := rfl
@[simp] theorem call_bind {γ : Type} (c : C γ) (next : γ → Program C α) (f : α → Program C β) :
    call c next >>= f = call c (fun b => next b >>= f) := rfl

theorem bind_assoc {γ : Type} (p : Program C α) (f : α → Program C β) (g : β → Program C γ) :
    p >>= f >>= g = p >>= fun a => f a >>= g := by
  induction p with
  | ret a => rfl
  | call c next ih =>
    simp only [call_bind]
    congr 1
    funext b
    exact ih b

/-- A command together with the answer it got. -/
structure Event (C : Type → Type) where
  {β : Type}
  command : C β
  answer : β

/-- The program can produce this sequence of events and return this value. -/
inductive Path : Program C α → List (Event C) → α → Prop
  | ret (a : α) : Path (ret a) [] a
  | call {β : Type} {c : C β} {next : β → Program C α} {tr : List (Event C)} {a : α} (b : β)
      (tail : Path (next b) tr a) : Path (call c next) (⟨c,b⟩::tr) a

section Automaton
variable (step : σ → Event C → Option σ)

/-- Whatever the answers, the automaton follows the program from `s` and ends in `Q`. -/
def Accepts : Program C α → σ → (α → σ → Prop) → Prop
  | ret a,s,Q => Q a s
  | call c next,s,Q => ∀ b, ∃ t, step s ⟨c,b⟩ = some t ∧ Accepts (next b) t Q

variable {step}

/-- Sequential composition: the middle condition is a postcondition and a precondition. -/
theorem Accepts.bind {p : Program C α} {f : α → Program C β} {s : σ} {R : α → σ → Prop}
    {Q : β → σ → Prop} (hp : p.Accepts step s R) (hf : ∀ a t, R a t → (f a).Accepts step t Q) :
    (p >>= f).Accepts step s Q := by
  induction p generalizing s with
  | ret a => exact hf a s hp
  | call c next ih =>
    intro b
    obtain ⟨t,ht,hn⟩ := hp b
    exact ⟨t,ht,ih b hn⟩

theorem Accepts.imp {p : Program C α} {s : σ} {Q R : α → σ → Prop} (h : p.Accepts step s Q)
    (hi : ∀ a t, Q a t → R a t) : p.Accepts step s R := by
  induction p generalizing s with
  | ret a => exact hi a s h
  | call c next ih =>
    intro b
    obtain ⟨t,ht,hn⟩ := h b
    exact ⟨t,ht,ih b hn⟩

/-- The rule is sound for every path of the program. -/
theorem Accepts.path {p : Program C α} {s : σ} {Q : α → σ → Prop} (h : p.Accepts step s Q)
    {tr : List (Event C)} {a : α} (hp : p.Path tr a) :
    ∃ t, tr.foldlM step s = some t ∧ Q a t := by
  induction hp generalizing s with
  | ret a => exact ⟨s,rfl,h⟩
  | call b tail ih =>
    obtain ⟨t,ht,hn⟩ := h b
    obtain ⟨u,hu,hq⟩ := ih hn
    exact ⟨u,foldlM_cons_eq_some.mpr ⟨t,ht,hu⟩,hq⟩

end Automaton

section Handler
variable (handle : {β : Type} → C β → σ → β × σ)

/-- Run the program, answering every command from the current state. -/
def exec : Program C α → σ → α × σ
  | ret a,s => (a,s)
  | call c next,s => exec (next (handle c s).1) (handle c s).2

/-- The commands of a run, each with the state it was made in. -/
def visited : Program C α → σ → List (σ × (Σ β : Type,C β))
  | ret _,_ => []
  | call c next,s => (s,⟨_,c⟩)::visited (next (handle c s).1) (handle c s).2

@[simp] theorem exec_ret (a : α) (s : σ) : (ret a : Program C α).exec handle s = (a,s) := rfl
@[simp] theorem exec_call {β : Type} (c : C β) (next : β → Program C α) (s : σ) :
    (call c next).exec handle s = (next (handle c s).1).exec handle (handle c s).2 := rfl
@[simp] theorem visited_ret (a : α) (s : σ) : (ret a : Program C α).visited handle s = [] := rfl
@[simp] theorem visited_call {β : Type} (c : C β) (next : β → Program C α) (s : σ) :
    (call c next).visited handle s =
      (s,⟨_,c⟩)::(next (handle c s).1).visited handle (handle c s).2 := rfl

@[simp] theorem visited_bind (p : Program C α) (f : α → Program C β) (s : σ) :
    (p >>= f).visited handle s = p.visited handle s ++
      (f (p.exec handle s).1).visited handle (p.exec handle s).2 := by
  induction p generalizing s with
  | ret a => rfl
  | call c next ih =>
    simp only [call_bind,visited_call,exec_call,List.cons_append]
    congr 1
    exact ih _ _

/-- Every command of the run is made in a state that satisfies the condition. -/
def Always (P : σ → (Σ β : Type,C β) → Prop) (p : Program C α) (s : σ) : Prop :=
  ∀ e ∈ p.visited handle s, P e.1 e.2

variable {P : σ → (Σ β : Type,C β) → Prop}

@[simp] theorem always_ret (a : α) (s : σ) : (ret a : Program C α).Always handle P s := by
  simp [Always]

@[simp] theorem always_call {β : Type} (c : C β) (next : β → Program C α) (s : σ) :
    (call c next).Always handle P s ↔
      P s ⟨_,c⟩ ∧ (next (handle c s).1).Always handle P (handle c s).2 := by
  simp [Always]

theorem always_bind (p : Program C α) (f : α → Program C β) (s : σ) :
    (p >>= f).Always handle P s ↔ p.Always handle P s ∧
      (f (p.exec handle s).1).Always handle P (p.exec handle s).2 := by
  simp only [Always,visited_bind,List.mem_append,or_imp,forall_and]

end Handler
end Program
end Linuxab.Base
