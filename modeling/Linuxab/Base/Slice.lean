import Mathlib.Data.List.FinRange
import Mathlib.Data.Vector.Basic
import Mathlib.Data.List.TakeWhile

/-! Fixed-size arrays with sub-slice copies, and NUL-terminated text in them. The bound of a copy is
part of its type, so a program that performs it cannot be out of range. -/
namespace Linuxab.Base

section Slice
variable {α : Type*} {n : ℕ}

theorem map_get_finRange (v : List.Vector α n) : (List.finRange n).map v.get = v.toList := by
  conv_rhs => rw [← List.Vector.ofFn_get v,List.Vector.toList_ofFn]
  exact List.ofFn_eq_map.symm

/-- Copy `src` over the elements from `off` on. -/
def blit (v : List.Vector α n) (off : ℕ) (src : List α) (h : off+src.length ≤ n) : List.Vector α n :=
  ⟨v.toList.take off ++ src ++ v.toList.drop (off+src.length),by simp; omega⟩

@[simp] theorem toList_blit (v : List.Vector α n) (off : ℕ) (src : List α) (h : off+src.length ≤ n) :
    (blit v off src h).toList = v.toList.take off ++ src ++ v.toList.drop (off+src.length) := rfl

/-- Up to the end of the copy, the array holds its old start and the copied elements. -/
theorem take_blit (v : List.Vector α n) {off k : ℕ} {src : List α} (h : off+src.length ≤ n)
    (hk : k = off+src.length) : (blit v off src h).toList.take k = v.toList.take off ++ src := by
  rw [toList_blit,hk]
  apply List.take_left'
  simp
  omega

/-- The copy that stops the program when it is out of range. -/
def blit? (v : List.Vector α n) (off : ℕ) (src : List α) : Option (List.Vector α n) :=
  if h : off+src.length ≤ n then some (blit v off src h) else none

/-- The read that stops the program when it is out of range. -/
def byte? (v : List.Vector α n) (i : ℕ) : Option α := v.toList[i]?

/-- Write behind the filled part of a buffer of `cap` elements; `none` if they do not fit. -/
def fill? (cap : ℕ) (buf src : List α) : Option (List α) :=
  if buf.length+src.length ≤ cap then some (buf ++ src) else none

theorem fill?_of_le {cap : ℕ} {buf src : List α} (h : buf.length+src.length ≤ cap) :
    fill? cap buf src = some (buf ++ src) := if_pos h

/-- A loop that collects what has a property fills the buffer with the elements that have it. -/
theorem foldlM_fill?_filter {cap : ℕ} {p : α → Bool} {step : List α → α → Option (List α)} {l buf : List α}
    (hstep : ∀ a ∈ l, ∀ buf, step buf a = if p a then fill? cap buf [a] else some buf)
    (h : buf.length+l.length ≤ cap) : l.foldlM step buf = some (buf ++ l.filter p) := by
  induction l generalizing buf with
  | nil => simp
  | cons a l ih =>
    obtain ⟨ha,hl⟩ := List.forall_mem_cons.mp hstep
    rw [List.length_cons] at h
    rw [List.foldlM_cons,ha]
    cases hp : p a with
    | true =>
      rw [if_pos rfl,fill?_of_le (by simp; omega),List.filter_cons_of_pos hp]
      change l.foldlM step (buf ++ [a]) = _
      rw [ih hl (by simp; omega),List.append_assoc,List.singleton_append]
    | false =>
      rw [if_neg Bool.false_ne_true,List.filter_cons_of_neg (by simp [hp])]
      exact ih hl (by omega)

theorem blit?_of_le (v : List.Vector α n) {off : ℕ} {src : List α} (h : off+src.length ≤ n) :
    blit? v off src = some (blit v off src h) := dif_pos h

theorem lt_of_byte?_eq_some {v : List.Vector α n} {i : ℕ} {a : α} (h : byte? v i = some a) : i < n := by
  obtain ⟨hi,-⟩ := List.getElem?_eq_some_iff.mp h
  simpa using hi

end Slice

section Text
variable {s t : List UInt8}

/-- The text before the first NUL. -/
def text (s : List UInt8) : List UInt8 := s.takeWhile (· ≠ 0)

theorem text_of_noNul (h : 0 ∉ s) : text s = s := by
  rw [text,List.takeWhile_eq_self_iff]
  intro b hb
  simp only [decide_eq_true_eq]
  rintro rfl
  exact h hb

/-- Bytes after a terminator do not belong to the text. -/
theorem text_append_zero (s t : List UInt8) : text (s ++ 0::t) = text s := by
  induction s with
  | nil => rfl
  | cons b s ih =>
    unfold text at *
    rw [List.cons_append,List.takeWhile_cons,List.takeWhile_cons,ih]

theorem text_append_nul (h : 0 ∉ s) (t : List UInt8) : text (s ++ 0::t) = s := by
  rw [text_append_zero,text_of_noNul h]

theorem text_append_replicate (s : List UInt8) (k : ℕ) : text (s ++ List.replicate k 0) = text s := by
  cases k with
  | zero => rw [List.replicate_zero,List.append_nil]
  | succ k => exact text_append_zero s _

theorem zero_notMem_text (s : List UInt8) : 0 ∉ text s := by
  intro h
  simpa using List.mem_takeWhile_imp h

end Text

section Split
variable {α : Type*} [BEq α] [LawfulBEq α] {x : α} {c xs : List α}

/-- The pieces of a split hold no separator and nothing that was not there. -/
theorem mem_splitOn (h : c ∈ xs.splitOn x) : x ∉ c ∧ c ⊆ xs := by
  induction xs generalizing c with
  | nil => simp_all
  | cons a xs ih =>
    rw [List.splitOn_cons_eq_if_modifyHead] at h
    split at h
    · cases List.mem_cons.mp h with
      | inl hnil => simp [hnil]
      | inr hc => exact ⟨(ih hc).1,List.subset_cons_of_subset a (ih hc).2⟩
    · next ha =>
      cases hsp : xs.splitOn x with
      | nil => exact absurd hsp (List.splitOn_ne_nil _ _)
      | cons d ds =>
        rw [hsp] at h ih
        cases List.mem_cons.mp h with
        | inl hd =>
          have hd' := ih (List.mem_cons_self ..)
          rw [hd]
          refine ⟨?_,List.cons_subset_cons a hd'.2⟩
          simp only [List.mem_cons,not_or]
          exact ⟨fun e => ha (by simp [e]),hd'.1⟩
        | inr hc =>
          have hc' := ih (List.mem_cons_of_mem _ hc)
          exact ⟨hc'.1,List.subset_cons_of_subset a hc'.2⟩

omit [LawfulBEq α] in
theorem length_splitOn (x : α) (xs : List α) : (xs.splitOn x).length = xs.count x+1 := by
  induction xs with
  | nil => simp
  | cons a xs ih =>
    rw [List.splitOn_cons_eq_if_modifyHead,List.count_cons]
    split
    · rw [List.length_cons,ih]
    · rw [List.length_modifyHead,ih,Nat.add_zero]

omit [BEq α] [LawfulBEq α] in
theorem exists_last_separator (h : x ∈ xs) : ∃ pre c, xs = pre ++ x::c ∧ x ∉ c := by
  obtain ⟨c,pre,hxs,hc⟩ := List.eq_append_cons_of_mem (List.mem_reverse.mpr h)
  refine ⟨pre.reverse,c.reverse,?_,by simpa using hc⟩
  rw [← List.reverse_reverse xs,hxs]
  simp

/-- The last piece of a split is the one that grows. -/
theorem exists_splitOn_append (x : α) (xs : List α) : ∃ pre last, pre.length = xs.count x ∧
    ∀ s, x ∉ s → (xs ++ s).splitOn x = pre ++ [last ++ s] := by
  by_cases hx : x ∈ xs
  · obtain ⟨pre,last,rfl,hlast⟩ := exists_last_separator hx
    refine ⟨pre.splitOn x,last,?_,fun s hs => ?_⟩
    · rw [length_splitOn,List.count_append,List.count_cons_self,List.count_eq_zero.mpr hlast]
    · have hpiece : x ∉ last ++ s := fun h => (List.mem_append.mp h).elim hlast hs
      rw [List.append_assoc,List.cons_append,List.splitOn_append_cons_self,List.splitOn_eq_singleton hpiece]
  · refine ⟨[],xs,(List.count_eq_zero.mpr hx).symm,fun s hs => ?_⟩
    have hpiece : x ∉ xs ++ s := fun h => (List.mem_append.mp h).elim hx hs
    rw [List.splitOn_eq_singleton hpiece,List.nil_append]

/-- Joined words are the first one and the others, each behind a separator. -/
theorem intercalate_cons {α : Type*} (x : α) (w : List α) (words : List (List α)) :
    [x].intercalate (w::words) = w ++ words.flatMap (x::·) := by
  induction words generalizing w with
  | nil => simp
  | cons v words ih => simp [List.intercalate_cons_cons,ih]

end Split
end Linuxab.Base
