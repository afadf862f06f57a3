import Mathlib.Order.WellFounded
import Mathlib.Data.Set.Finite.Basic
import Mathlib.Logic.Relation

/-! A procedure that calls itself. Its body is an activation, a finite computation that stops at every
call to itself and goes on from the answer; calls and answers are the only things it shares with the
other activations. Over finitely many requests it comes to an end exactly if no call is made again
from inside itself. -/
namespace Linuxab.Base

/-- One activation of the procedure. -/
inductive Activation (Q R : Type*)
  | finish (r : R)
  | nested (q : Q) (next : R → Activation Q R)

namespace Activation
variable {Q R : Type*}

/-- Carry on to the end, with the answers of `call`. -/
def eval (call : Q → Option R) : Activation Q R → Option R
  | finish r => some r
  | nested q next => (call q).bind fun r => eval call (next r)

/-- More answers do not change a result. -/
theorem eval_mono {call call' : Q → Option R} (h : ∀ q r, call q = some r → call' q = some r)
    {a : Activation Q R} {r : R} (ha : a.eval call = some r) : a.eval call' = some r := by
  induction a with
  | finish r' => exact ha
  | nested q next ih =>
    obtain ⟨r',hq,hr⟩ := Option.bind_eq_some_iff.mp ha
    exact Option.bind_eq_some_iff.mpr ⟨r',h q r' hq,ih r' hr⟩

/-- Whatever the answers, every call of the activation satisfies the condition. -/
def AllCalls (P : Q → Prop) : Activation Q R → Prop
  | finish _ => True
  | nested q next => P q ∧ ∀ r, AllCalls P (next r)

end Activation

section Procedure
variable {Q R : Type*} (body : Q → Activation Q R)

/-- The procedure with at most `n` activations open at a time. -/
def runs : ℕ → Q → Option R
  | 0,_ => none
  | n+1,q => (body q).eval (runs n)

def Returns (q : Q) (r : R) : Prop := ∃ n, runs body n q = some r
def Terminates (q : Q) : Prop := ∃ r, Returns body q r

/-- The activation makes this call: every call before it has returned. -/
inductive Makes : Activation Q R → Q → Prop
  | here (q : Q) (next : R → Activation Q R) : Makes (.nested q next) q
  | later {q q' : Q} {next : R → Activation Q R} {r : R} (h : Returns body q r) (tail : Makes (next r) q') :
      Makes (.nested q next) q'

/-- While it serves `q` the procedure calls itself with `q'`. -/
def Calls (q q' : Q) : Prop := Makes body (body q) q'

variable {body} {q q' : Q} {r r' : R}

theorem runs_succ {n : ℕ} (h : runs body n q = some r) : runs body (n+1) q = some r := by
  induction n generalizing q r with
  | zero => cases h
  | succ n ih => exact Activation.eval_mono (fun _ _ => ih) h

theorem runs_mono {m n : ℕ} (hmn : m ≤ n) (h : runs body m q = some r) : runs body n q = some r := by
  induction n,hmn using Nat.le_induction with
  | base => exact h
  | succ n _ ih => exact runs_succ ih

theorem Returns.unique (h : Returns body q r) (h' : Returns body q r') : r = r' := by
  obtain ⟨m,hm⟩ := h
  obtain ⟨n,hn⟩ := h'
  have e := (runs_mono (Nat.le_max_left m n) hm).symm.trans (runs_mono (Nat.le_max_right m n) hn)
  exact Option.some_inj.mp e

/-- A call made by an activation that comes to an end with `n` is answered with `n`. -/
theorem Makes.answered {a : Activation Q R} (h : Makes body a q') {n : ℕ} (ha : a.eval (runs body n) = some r) :
    ∃ r', runs body n q' = some r' := by
  induction h with
  | here q next =>
    obtain ⟨r',hq,-⟩ := Option.bind_eq_some_iff.mp ha
    exact ⟨r',hq⟩
  | later h tail ih =>
    obtain ⟨r',hq,hr⟩ := Option.bind_eq_some_iff.mp ha
    obtain rfl := h.unique ⟨n,hq⟩
    exact ih hr

theorem Makes.of_allCalls {P : Q → Prop} {a : Activation Q R} (h : Makes body a q) (ha : a.AllCalls P) : P q := by
  induction h with
  | here q next => exact ha.1
  | later _ _ ih => exact ih (ha.2 _)

/-- What is served inside a request needs fewer activations than the request. -/
theorem exists_runs_lt {n : ℕ} (h : runs body n q = some r) (hc : Relation.TransGen (Calls body) q q') :
    ∃ m < n, ∃ r', runs body m q' = some r' := by
  have hstep : ∀ {n q q' r}, runs body n q = some r → Calls body q q' → ∃ m < n, ∃ r', runs body m q' = some r' := by
    intro n q q' r h hc
    cases n with
    | zero => cases h
    | succ n => exact ⟨n,Nat.lt_succ_self n,hc.answered h⟩
  induction hc with
  | single hc => exact hstep h hc
  | tail _ hc ih =>
    obtain ⟨m,hm,r',hr⟩ := ih
    obtain ⟨k,hk,hr'⟩ := hstep hr hc
    exact ⟨k,hk.trans hm,hr'⟩

/-- A request that ends is not served from inside itself. -/
theorem not_transGen_self {n : ℕ} (h : runs body n q = some r) : ¬Relation.TransGen (Calls body) q q := by
  intro hc
  induction n using Nat.strong_induction_on generalizing r with
  | _ n ih =>
    obtain ⟨m,hm,r',hr⟩ := exists_runs_lt h hc
    exact ih m hm hr

/-- An activation whose calls all come to an end comes to an end. -/
theorem exists_eval {a : Activation Q R} (h : ∀ q', Makes body a q' → Terminates body q') :
    ∃ n r, a.eval (runs body n) = some r := by
  induction a with
  | finish r => exact ⟨0,r,rfl⟩
  | nested q next ih =>
    obtain ⟨r,m,hm⟩ := h q (.here q next)
    obtain ⟨n,r',hr⟩ := ih r fun q' hq => h q' (.later ⟨m,hm⟩ hq)
    refine ⟨max m n,r',Option.bind_eq_some_iff.mpr ⟨r,runs_mono (Nat.le_max_left m n) hm,?_⟩⟩
    exact Activation.eval_mono (fun _ _ => runs_mono (Nat.le_max_right m n)) hr

theorem terminates_of_calls (h : ∀ q', Calls body q q' → Terminates body q') : Terminates body q := by
  obtain ⟨n,r,hr⟩ := exists_eval h
  exact ⟨r,n+1,hr⟩

/-- Over finitely many requests the procedure comes to an end exactly if it never serves a request
from inside that same request. -/
theorem terminates_iff (hfin : {q' | ∃ q, Calls body q q'}.Finite) :
    Terminates body q ↔ ¬∃ q', Relation.ReflTransGen (Calls body) q q' ∧ Relation.TransGen (Calls body) q' q' := by
  constructor
  · rintro ⟨r,n,hn⟩ ⟨q',hq,hcycle⟩
    cases Relation.reflTransGen_iff_eq_or_transGen.mp hq with
    | inl heq => exact not_transGen_self hn (heq ▸ hcycle)
    | inr htrans =>
      obtain ⟨m,-,r',hm⟩ := exists_runs_lt hn htrans
      exact not_transGen_self hm hcycle
  · intro hno
    have hreach : {q' | Relation.ReflTransGen (Calls body) q q'}.Finite := by
      apply (hfin.insert q).subset
      intro q' hq
      cases Relation.ReflTransGen.cases_tail hq with
      | inl heq => exact Or.inl heq
      | inr h => exact Or.inr ⟨_,h.choose_spec.2⟩
    -- without a cycle the calls descend, and there are finitely many requests to descend to
    have : Finite {q' // Relation.ReflTransGen (Calls body) q q'} := hreach.to_subtype
    let below (x y : {q' // Relation.ReflTransGen (Calls body) q q'}) := Relation.TransGen (Calls body) y.1 x.1
    have : IsTrans _ below := ⟨fun _ _ _ h h' => h'.trans h⟩
    have : Std.Irrefl below := ⟨fun x hx => hno ⟨x.1,x.2,hx⟩⟩
    have hwf : WellFounded below := Finite.wellFounded_of_trans_of_irrefl below
    have hall : ∀ x : {q' // Relation.ReflTransGen (Calls body) q q'}, Terminates body x.1 := by
      intro x
      induction x using hwf.induction with
      | _ x ih => exact terminates_of_calls fun q' hc => ih ⟨q',x.2.tail hc⟩ (.single hc)
    exact hall ⟨q,.refl⟩

end Procedure
end Linuxab.Base
