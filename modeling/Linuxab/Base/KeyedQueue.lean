import Mathlib.Data.List.Perm.Basic

/-! A queue from which items may be taken out of turn: what never happens to items of one key is that one passes
another, if an item is only taken when no other of its key stands before it. -/
namespace Linuxab.Base
variable {α κ : Type*}

/-- One move of a queue, with what comes in and what goes out. An item may be handed on without being put down.
`F` is the assumption under which items are taken in the order of their key. -/
inductive QueueMove (key : α → κ) (F : Prop) : List α → List α → List α → List α → Prop
  | stay (q : List α) : QueueMove key F q [] [] q
  | put (q : List α) (a : α) : QueueMove key F q [a] [] (q ++ [a])
  | pass (q : List α) (a : α) (h : F → ∀ x ∈ q, key x ≠ key a) : QueueMove key F q [a] [a] q
  | take (pre : List α) (a : α) (post : List α) (h : F → ∀ x ∈ pre, key x ≠ key a) :
      QueueMove key F (pre ++ a::post) [] [a] (pre ++ post)
  | clear (q : List α) : QueueMove key F q [] q []

namespace QueueMove
variable {key : α → κ} {F : Prop} {q q' ins outs : List α}

/-- Nothing is lost and nothing comes twice. -/
theorem perm (h : QueueMove key F q ins outs q') : (q ++ ins).Perm (outs ++ q') := by
  cases h with
  | stay => simp
  | put => simp
  | pass _ a => exact List.perm_append_singleton a q
  | take pre a post => simp
  | clear => simp

/-- Items of one key keep their order. -/
theorem filter_eq [DecidableEq κ] (h : QueueMove key F q ins outs q') (hF : F) (k : κ) :
    (q ++ ins).filter (key · = k) = (outs ++ q').filter (key · = k) := by
  -- an item of which no other of its key stands before it can as well stand in front
  have hfront : ∀ (pre : List α) (a : α), (∀ x ∈ pre, key x ≠ key a) →
      (pre ++ [a]).filter (key · = k) = (a::pre).filter (key · = k) := by
    intro pre a hpre
    by_cases hk : key a = k
    · have hnil : pre.filter (key · = k) = [] := by
        rw [List.filter_eq_nil_iff]
        intro x hx
        simpa using hk ▸ hpre x hx
      simp [List.filter_append,hnil,hk]
    · simp [List.filter_append,hk]
  cases h with
  | stay => simp
  | put => simp
  | pass _ a hpass => exact hfront q a (hpass hF)
  | take pre a post htake =>
    calc (pre ++ a::post ++ []).filter (key · = k)
        = (pre ++ [a]).filter (key · = k) ++ post.filter (key · = k) := by rw [← List.filter_append]; simp
      _ = (a::pre).filter (key · = k) ++ post.filter (key · = k) := by rw [hfront pre a (htake hF)]
      _ = ([a] ++ (pre ++ post)).filter (key · = k) := by rw [← List.filter_append]; simp
  | clear => simp

end QueueMove
end Linuxab.Base
