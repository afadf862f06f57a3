import Mathlib.Data.Int.CardIntervalMod
import Mathlib.Data.List.Nodup

/-! The first greatest item of a list, and taking turns: items that are taken one after the other around a
list are taken equally often. -/
namespace Linuxab.Base
variable {α : Type*}

/-- A new item takes the place of the best one so far if it is better. -/
def better (f : α → ℕ) (best : Option α) (x : α) : Option α :=
  match best with
  | none => some x
  | some b => if f b < f x then some x else some b

section Best
variable {f : α → ℕ} {l : List α} {a : α} {m : ℕ}

theorem exists_better (f : α → ℕ) (best : Option α) (x : α) : ∃ b, better f best x = some b := by
  cases best with
  | none => exact ⟨x,rfl⟩
  | some b =>
    rw [better]
    split
    · exact ⟨x,rfl⟩
    · exact ⟨b,rfl⟩

theorem exists_foldl_better (h : l ≠ []) : ∃ a, l.foldl (better f) none = some a := by
  cases l using List.reverseRecOn with
  | nil => exact absurd rfl h
  | append_singleton l x =>
    rw [List.foldl_append]
    exact exists_better f _ x

/-- What the search finds is the first of the greatest items. -/
theorem of_foldl_better (h : l.foldl (better f) none = some a) :
    ∃ pre post, l = pre ++ a::post ∧ (∀ x ∈ pre, f x < f a) ∧ ∀ x ∈ post, f x ≤ f a := by
  induction l using List.reverseRecOn generalizing a with
  | nil => cases h
  | append_singleton l x ih =>
    rw [List.foldl_append,List.foldl_cons,List.foldl_nil] at h
    cases hl : l.foldl (better f) none with
    | none =>
      rw [hl] at h
      obtain rfl : x = a := Option.some.inj h
      have hnil : l = [] := by
        by_contra hne
        obtain ⟨b,hb⟩ := exists_foldl_better (f := f) hne
        rw [hl] at hb
        cases hb
      exact ⟨[],[],by simp [hnil],by simp,by simp⟩
    | some b =>
      obtain ⟨pre,post,rfl,hpre,hpost⟩ := ih hl
      rw [hl,better] at h
      split at h
      · next hlt =>
        obtain rfl : x = a := Option.some.inj h
        refine ⟨pre ++ b::post,[],by simp,fun y hy => ?_,by simp⟩
        rw [List.mem_append,List.mem_cons] at hy
        obtain hy | rfl | hy := hy
        · exact (hpre y hy).trans hlt
        · exact hlt
        · exact (hpost y hy).trans_lt hlt
      · next hle =>
        obtain rfl : b = a := Option.some.inj h
        refine ⟨pre,post ++ [x],by simp,hpre,fun y hy => ?_⟩
        rw [List.mem_append,List.mem_singleton] at hy
        obtain hy | rfl := hy
        · exact hpost y hy
        · exact Nat.le_of_not_lt hle

/-- If `m` is a bound that is reached, the search finds the first item that reaches it. -/
theorem foldl_better_eq_head? (hm : ∀ x ∈ l, f x ≤ m) (hf : l.filter (f · = m) ≠ []) :
    l.foldl (better f) none = (l.filter (f · = m)).head? := by
  obtain ⟨x,hx⟩ := List.exists_mem_of_ne_nil _ hf
  obtain ⟨hxl,hxm⟩ := List.mem_filter.mp hx
  rw [decide_eq_true_eq] at hxm
  obtain ⟨a,ha⟩ := exists_foldl_better (f := f) (List.ne_nil_of_mem hxl)
  obtain ⟨pre,post,rfl,hpre,hpost⟩ := of_foldl_better ha
  have ham : f a = m := by
    refine le_antisymm (hm a (by simp)) ?_
    rw [List.mem_append,List.mem_cons] at hxl
    obtain hxl | rfl | hxl := hxl
    · exact hxm ▸ (hpre x hxl).le
    · exact hxm.ge
    · exact hxm ▸ hpost x hxl
  have hnone : pre.filter (f · = m) = [] := by
    rw [List.filter_eq_nil_iff]
    intro y hy
    have hlt := hpre y hy
    simp
    omega
  rw [ha,List.filter_append,hnone,List.nil_append,List.filter_cons_of_pos (by simpa using ham)]
  rfl

/-- If it is not reached, what is found is below it. -/
theorem foldl_better_lt (hm : ∀ x ∈ l, f x ≤ m) (hf : l.filter (f · = m) = [])
    (h : l.foldl (better f) none = some a) : f a < m := by
  obtain ⟨pre,post,rfl,-,-⟩ := of_foldl_better h
  have hne := List.filter_eq_nil_iff.mp hf a (by simp)
  rw [decide_eq_true_eq] at hne
  exact lt_of_le_of_ne (hm a (by simp)) hne

end Best

/-- The next position around a list. -/
theorem getElem?_succ_mod {pre post : List α} {a : α} :
    (pre ++ a::post)[(pre.length + 1) % (pre ++ a::post).length]? = post.head?.or (pre ++ a::post).head? := by
  cases post with
  | nil =>
    have hmod : (pre.length + 1) % (pre ++ [a]).length = 0 := by simp
    rw [hmod,← List.head?_eq_getElem?]
    rfl
  | cons b post =>
    have hmod : (pre.length + 1) % (pre ++ a::b::post).length = pre.length + 1 :=
      Nat.mod_eq_of_lt (by simp)
    rw [hmod,List.getElem?_append_right (by simp)]
    simp

/-- Around a circle of `m` positions, `i` is reached from `k` in the steps of one residue. -/
theorem add_mod_eq_iff {m i : ℕ} (hi : i < m) (k j : ℕ) :
    (k+j) % m = i ↔ j ≡ i + (m - k % m) [MOD m] := by
  have hk : k % m < m := Nat.mod_lt k (by omega)
  have hround : k + (m - k % m) ≡ 0 [MOD m] := by
    have hdiv := Nat.div_add_mod k m
    have hsum : k + (m - k % m) = m * (k / m + 1) := by
      rw [Nat.mul_add,Nat.mul_one]
      omega
    rw [hsum]
    exact Nat.modEq_zero_iff_dvd.mpr (Dvd.intro _ rfl)
  have hcancel : ∀ x, k + (x + (m - k % m)) ≡ x [MOD m] := fun x => by
    have hx := hround.add_right x
    rw [Nat.zero_add] at hx
    rwa [show k + (x + (m - k % m)) = k + (m - k % m) + x by omega]
  constructor
  · intro h
    have hj : k + j ≡ i [MOD m] := h.trans (Nat.mod_eq_of_lt hi).symm
    have hshift := hj.add_right (m - k % m)
    rw [Nat.add_assoc] at hshift
    exact (hcancel j).symm.trans hshift
  · intro h
    have hmod : (k+j) % m = i % m := (h.add_left k).trans (hcancel i)
    rwa [Nat.mod_eq_of_lt hi] at hmod

/-- In so many turns each item has had its share, rounded down or up. -/
theorem count_turns [DecidableEq α] {l : List α} (hl : l.Nodup) {a : α} (ha : a ∈ l) (k n : ℕ) :
    n / l.length ≤ ((List.range n).map fun j => l[(k+j) % l.length]?).count (some a) ∧
      ((List.range n).map fun j => l[(k+j) % l.length]?).count (some a) ≤ n / l.length + 1 := by
  obtain ⟨i,hi,rfl⟩ := List.mem_iff_getElem.mp ha
  have hpos : 0 < l.length := by omega
  have hturn : ∀ j, l[(k+j) % l.length]? = some l[i] ↔ j ≡ i + (l.length - k % l.length) [MOD l.length] := by
    intro j
    rw [List.getElem?_eq_getElem (Nat.mod_lt _ hpos),Option.some_inj,hl.getElem_inj_iff]
    exact add_mod_eq_iff hi k j
  have hcount : ((List.range n).map fun j => l[(k+j) % l.length]?).count (some l[i]) =
      n.count (· ≡ i + (l.length - k % l.length) [MOD l.length]) := by
    rw [Nat.count_eq_card_filter_range,List.count_eq_countP,List.countP_map,List.countP_eq_length_filter]
    refine congrArg List.length (List.filter_congr fun j _ => ?_)
    rw [Function.comp_apply,Bool.eq_iff_iff,beq_iff_eq,decide_eq_true_eq]
    exact hturn j
  rw [hcount,Nat.count_modEq_card _ hpos]
  split <;> omega

end Linuxab.Base
