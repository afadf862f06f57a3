import Mathlib.Data.List.Basic

/-! A list searched from the front as a table of values: what an entry behind the others and the removal of
the first entry with a key do to the value found under each key. -/
namespace Linuxab.Base
variable {α κ β : Type*} [DecidableEq κ] {key : α → κ} {val : α → β} {k m : κ} {l : List α}

/-- The value of the first entry with this key. -/
def firstMatch (key : α → κ) (val : α → β) (l : List α) (k : κ) : Option β := (l.find? (key · = k)).map val

/-- Remove the first entry with this key. -/
def dropFirst (key : α → κ) (l : List α) (k : κ) : List α := l.eraseP (key · = k)

/-- An entry at the end is found under its key if no other was. -/
theorem firstMatch_append_self (a : α) :
    firstMatch key val (l ++ [a]) (key a) = some ((firstMatch key val l (key a)).getD (val a)) := by
  unfold firstMatch
  rw [List.find?_append]
  cases l.find? (key · = key a) <;> simp

theorem firstMatch_append_of_ne {a : α} (h : key a ≠ m) :
    firstMatch key val (l ++ [a]) m = firstMatch key val l m := by
  unfold firstMatch
  rw [List.find?_append]
  simp [h]

theorem firstMatch_eq_none : firstMatch key val l k = none ↔ ∀ a ∈ l, key a ≠ k := by
  simp [firstMatch]

/-- Under other keys a removal changes nothing. -/
theorem firstMatch_dropFirst_of_ne (h : m ≠ k) : firstMatch key val (dropFirst key l k) m = firstMatch key val l m := by
  unfold firstMatch dropFirst
  induction l with
  | nil => rfl
  | cons a l ih =>
    by_cases ha : key a = k
    · have hm : key a ≠ m := fun he => h (he.symm.trans ha)
      rw [List.eraseP_cons_of_pos (by simpa using ha),List.find?_cons_of_neg (by simpa using hm)]
    · rw [List.eraseP_cons_of_neg (by simpa using ha),List.find?_cons,List.find?_cons]
      cases decide (key a = m)
      · exact ih
      · rfl

/-- The key is gone exactly if it was there at most once. -/
theorem firstMatch_dropFirst_self :
    firstMatch key val (dropFirst key l k) k = none ↔ l.countP (key · = k) ≤ 1 := by
  rw [firstMatch_eq_none]
  unfold dropFirst
  induction l with
  | nil => simp
  | cons a l ih =>
    by_cases ha : key a = k
    · rw [List.eraseP_cons_of_pos (by simpa using ha),List.countP_cons_of_pos (by simpa using ha)]
      have h0 : l.countP (key · = k)+1 ≤ 1 ↔ l.countP (key · = k) = 0 := by omega
      rw [h0,List.countP_eq_zero]
      simp
    · rw [List.eraseP_cons_of_neg (by simpa using ha),List.countP_cons_of_neg (by simpa using ha),List.forall_mem_cons,ih]
      exact and_iff_right ha

end Linuxab.Base
