import Mathlib.Data.List.Induction
import Mathlib.Data.List.Nodup
import Mathlib.Data.List.ProdSigma
import Mathlib.Logic.Function.Basic
import Mathlib.Tactic.SplitIfs

/-! Loops that overwrite a table slot by slot, each value computed from the table as it is by then: fills,
and block moves whose source and destination overlap. -/
namespace Linuxab.Base
variable {κ ι α : Type*} [DecidableEq ι] {dst src : κ → ι} {val : (ι → α) → κ → α} {l : List κ} {f : ι → α}

def sweep (dst : κ → ι) (val : (ι → α) → κ → α) (l : List κ) (f : ι → α) : ι → α :=
  l.foldl (fun f k => Function.update f (dst k) (val f k)) f

@[simp] theorem sweep_nil : sweep dst val [] f = f := rfl

theorem sweep_cons (k : κ) : sweep dst val (k::l) f = sweep dst val l (Function.update f (dst k) (val f k)) := rfl

theorem sweep_append (l₁ l₂ : List κ) : sweep dst val (l₁ ++ l₂) f = sweep dst val l₂ (sweep dst val l₁ f) :=
  List.foldl_append

theorem sweep_map {κ' : Type*} (g : κ' → κ) (l : List κ') :
    sweep dst val (l.map g) f = sweep (fun k => dst (g k)) (fun f k => val f (g k)) l f :=
  List.foldl_map

theorem sweep_congr {dst' : κ → ι} {val' : (ι → α) → κ → α} (hdst : ∀ k ∈ l, dst k = dst' k)
    (hval : ∀ k ∈ l, ∀ f, val f k = val' f k) : sweep dst val l f = sweep dst' val' l f := by
  induction l generalizing f with
  | nil => rfl
  | cons k l ih =>
    rw [sweep_cons,sweep_cons,hdst k List.mem_cons_self,hval k List.mem_cons_self]
    apply ih
    · exact fun k' hk' => hdst k' (List.mem_cons_of_mem k hk')
    · exact fun k' hk' => hval k' (List.mem_cons_of_mem k hk')

/-- Slots that are no destination keep their contents. -/
theorem sweep_of_forall_ne {j : ι} (h : ∀ k ∈ l, dst k ≠ j) : sweep dst val l f j = f j := by
  induction l generalizing f with
  | nil => rfl
  | cons k l ih =>
    rw [sweep_cons,ih fun k' hk' => h k' (List.mem_cons_of_mem k hk'),
      Function.update_of_ne (h k List.mem_cons_self).symm]

/-- A loop that writes each slot once leaves in it the value computed there. -/
theorem sweep_apply {v : κ → α} (hdst : l.Pairwise fun k k' => dst k ≠ dst k')
    (hval : ∀ l₁ k l₂, l = l₁ ++ k::l₂ → val (sweep dst val l₁ f) k = v k) {k : κ} (hk : k ∈ l) :
    sweep dst val l f (dst k) = v k := by
  obtain ⟨l₁,l₂,rfl⟩ := List.append_of_mem hk
  have hlater : ∀ k' ∈ l₂, dst k' ≠ dst k := by
    intro k' hk'
    exact (List.rel_of_pairwise_cons (List.pairwise_append.mp hdst).2.1 hk').symm
  rw [sweep_append,sweep_cons,sweep_of_forall_ne hlater,Function.update_self,hval l₁ k l₂ rfl]

theorem sweep_values {v : κ → α} (hdst : l.Pairwise fun k k' => dst k ≠ dst k') {k : κ} (hk : k ∈ l) :
    sweep dst (fun _ k => v k) l f (dst k) = v k :=
  sweep_apply hdst (fun _ _ _ _ => rfl) hk

theorem sweep_fill (a : α) (j : ι) :
    sweep dst (fun _ _ => a) l f j = if ∃ k ∈ l, dst k = j then a else f j := by
  induction l using List.reverseRecOn with
  | nil => simp
  | append_singleton l k ih =>
    rw [sweep_append,sweep_cons,sweep_nil]
    by_cases hj : dst k = j
    · subst hj
      simp
    · rw [Function.update_of_ne (Ne.symm hj),ih]
      simp [hj]

/-- A loop that changes each slot in place. -/
theorem sweep_modify {f : ι → α} {l : List ι} (hl : l.Nodup) (g : α → α) (j : ι) :
    sweep id (fun f k => g (f k)) l f j = if j ∈ l then g (f j) else f j := by
  induction l generalizing f with
  | nil => simp
  | cons k l ih =>
    obtain ⟨hk,hl⟩ := List.nodup_cons.mp hl
    rw [sweep_cons,ih hl,id_eq]
    obtain rfl | hne := eq_or_ne j k
    · simp [hk]
    · simp [hne]

/-- A block move is right if no slot is overwritten before it has been read. -/
theorem sweep_move (hdst : l.Pairwise fun k k' => dst k ≠ dst k') (hsrc : l.Pairwise fun k k' => dst k ≠ src k')
    {k : κ} (hk : k ∈ l) : sweep dst (fun f k => f (src k)) l f (dst k) = f (src k) := by
  apply sweep_apply (v := fun k => f (src k)) hdst
  · rintro l₁ k l₂ rfl
    apply sweep_of_forall_ne
    intro k' hk'
    exact (List.pairwise_append.mp hsrc).2.2 k' hk' k List.mem_cons_self
  · exact hk

section Range
variable (f : ℕ → α)

/-- Moving a range down in increasing order. -/
theorem sweep_shift (n d i : ℕ) :
    sweep id (fun f k => f (k+d)) (List.range n) f i = if i < n then f (i+d) else f i := by
  have hlt : (List.range n).Pairwise (· < ·) := List.pairwise_lt_range
  split_ifs with hi
  · apply sweep_move (hlt.imp Nat.ne_of_lt) (hlt.imp ?_) (List.mem_range.mpr hi)
    intro k k' hk
    omega
  · apply sweep_of_forall_ne
    rintro k hk rfl
    exact hi (List.mem_range.mp hk)

/-- A loop over the cells of some rows goes through their numbers. -/
theorem map_product_range (a n w : ℕ) :
    (List.range' a n ×ˢ List.range w).map (fun p => p.1*w+p.2) = List.range' (a*w) (n*w) := by
  induction n generalizing a with
  | zero => simp
  | succ n ih =>
    rw [List.range'_succ,List.product_cons,List.map_append,ih,Nat.succ_mul n w,Nat.add_comm (n*w) w,
      ← List.range'_append_1,Nat.succ_mul a w]
    congr 1
    simp [List.range'_eq_map_range,Function.comp_def]

/-- Moving the rows behind the first one up by one, cell by cell. -/
theorem sweep_rows (n w i : ℕ) :
    sweep (fun p : ℕ × ℕ => (p.1-1)*w+p.2) (fun f p => f (p.1*w+p.2)) (List.range' 1 n ×ˢ List.range w) f i
      = if i < n*w then f (i+w) else f i := by
  have hlist : (List.range' 1 n ×ˢ List.range w).map (fun p => p.1*w+p.2) = (List.range (n*w)).map (·+w) := by
    rw [map_product_range,Nat.one_mul,List.range'_eq_map_range]
    simp [Nat.add_comm]
  have hdst : ∀ p ∈ List.range' 1 n ×ˢ List.range w, (p.1-1)*w+p.2 = p.1*w+p.2-w := by
    rintro ⟨r,c⟩ hp
    have hr : 1 ≤ r := (List.mem_range'_1.mp (List.mem_product.mp hp).1).1
    obtain ⟨r,rfl⟩ := Nat.exists_eq_add_of_le' hr
    simp only [Nat.add_sub_cancel,Nat.succ_mul]
    omega
  have hflat : sweep (fun p : ℕ × ℕ => p.1*w+p.2-w) (fun f p => f (p.1*w+p.2)) (List.range' 1 n ×ˢ List.range w) f
      = sweep (·-w) (fun f k => f k) ((List.range' 1 n ×ˢ List.range w).map fun p => p.1*w+p.2) f := by
    rw [sweep_map]
  rw [sweep_congr hdst fun _ _ _ => rfl,hflat,hlist,sweep_map]
  simp only [Nat.add_sub_cancel]
  exact sweep_shift f (n*w) w i

theorem rowMajor_inj {w r c r' c' : ℕ} (hc : c < w) (hc' : c' < w) : r*w+c = r'*w+c' ↔ r = r' ∧ c = c' := by
  constructor
  · intro h
    have hw := Nat.zero_lt_of_lt hc
    have hdiv := congrArg (·/w) h
    have hmod := congrArg (·%w) h
    simp only [Nat.mul_add_mod',Nat.mod_eq_of_lt hc,Nat.mod_eq_of_lt hc'] at hmod
    simp only [Nat.mul_comm _ w,Nat.mul_add_div hw,Nat.div_eq_of_lt hc,Nat.div_eq_of_lt hc',Nat.add_zero] at hdiv
    exact ⟨hdiv,hmod⟩
  · rintro ⟨rfl,rfl⟩
    rfl

/-- Moving whole rows cell by cell is right if no row is overwritten before it has been read. -/
theorem sweep_moveRows {w : ℕ} {rows : List ℕ} {src : ℕ → ℕ} (hrows : rows.Pairwise fun y y' => y ≠ y' ∧ y ≠ src y')
    (hself : ∀ y ∈ rows, y ≠ src y) {r c : ℕ} (hc : c < w) :
    sweep (fun p : ℕ × ℕ => p.1*w+p.2) (fun f p => f (src p.1*w+p.2)) (rows ×ˢ List.range w) f (r*w+c)
      = if r ∈ rows then f (src r*w+c) else f (r*w+c) := by
  split_ifs with hr
  · have hpairs : (rows ×ˢ List.range w).Pairwise fun p q => p.1*w+p.2 ≠ q.1*w+q.2 ∧ p.1*w+p.2 ≠ src q.1*w+q.2 := by
      change (rows.flatMap fun y => (List.range w).map (Prod.mk y)).Pairwise _
      refine List.pairwise_flatMap.mpr ⟨fun y hy => List.pairwise_map.mpr ?_,hrows.imp ?_⟩
      · apply List.nodup_range.imp_of_mem
        intro x x' hx hx' hne
        have hx := List.mem_range.mp hx
        have hx' := List.mem_range.mp hx'
        simp only [ne_eq,rowMajor_inj hx hx',hne,hself y hy,and_false,not_false_eq_true,and_true]
      · rintro y y' ⟨hne,hsrc⟩ p hp q hq
        obtain ⟨x,hx,rfl⟩ := List.mem_map.mp hp
        obtain ⟨x',hx',rfl⟩ := List.mem_map.mp hq
        have hx := List.mem_range.mp hx
        have hx' := List.mem_range.mp hx'
        simp only [ne_eq,rowMajor_inj hx hx',hne,hsrc,false_and,not_false_eq_true,and_true]
    exact sweep_move (k := (r,c)) (hpairs.imp And.left) (hpairs.imp And.right)
      (List.mem_product.mpr ⟨hr,List.mem_range.mpr hc⟩)
  · apply sweep_of_forall_ne
    intro p hp heq
    obtain ⟨hrow,hcol⟩ := List.mem_product.mp hp
    obtain ⟨rfl,-⟩ := (rowMajor_inj (List.mem_range.mp hcol) hc).mp heq
    exact hr hrow

theorem rowMajor_lt {w r c n : ℕ} (hr : r < n) (hc : c < w) : r*w+c < n*w := by
  have hle : (r+1)*w ≤ n*w := Nat.mul_le_mul_right w hr
  rw [Nat.succ_mul] at hle
  omega

/-- Writing a rectangle of `h` rows and `n` columns into a table with rows of length `w`. -/
theorem sweep_block {w h n r₀ c₀ : ℕ} (val : ℕ × ℕ → α) (hfit : c₀+n ≤ w) {r c : ℕ} (hc : c < w) :
    sweep (fun p : ℕ × ℕ => (r₀+p.1)*w+(c₀+p.2)) (fun _ p => val p) (List.range h ×ˢ List.range n) f (r*w+c)
      = if (r₀ ≤ r ∧ r < r₀+h) ∧ c₀ ≤ c ∧ c < c₀+n then val (r-r₀,c-c₀) else f (r*w+c) := by
  have hmem : ∀ p ∈ List.range h ×ˢ List.range n, p.1 < h ∧ p.2 < n := by
    intro p hp
    exact ⟨List.mem_range.mp (List.mem_product.mp hp).1,List.mem_range.mp (List.mem_product.mp hp).2⟩
  split_ifs with hin
  · obtain ⟨⟨hr,hr'⟩,hc₀,hc'⟩ := hin
    have hat : r*w+c = (r₀+(r-r₀))*w+(c₀+(c-c₀)) := by rw [Nat.add_sub_cancel' hr,Nat.add_sub_cancel' hc₀]
    rw [hat]
    apply sweep_apply (k := (r-r₀,c-c₀)) (v := val)
    · have hnodup : (List.range h ×ˢ List.range n).Nodup := List.Nodup.product List.nodup_range List.nodup_range
      apply hnodup.imp_of_mem
      intro p q hp hq hne heq
      have hp := (hmem p hp).2
      have hq := (hmem q hq).2
      obtain ⟨h₁,h₂⟩ := (rowMajor_inj (by omega) (by omega)).mp heq
      exact hne (Prod.ext (by omega) (by omega))
    · intros
      rfl
    · exact List.mem_product.mpr ⟨List.mem_range.mpr (by omega),List.mem_range.mpr (by omega)⟩
  · apply sweep_of_forall_ne
    intro p hp heq
    obtain ⟨h₁,h₂⟩ := hmem p hp
    obtain ⟨hr,hc'⟩ := (rowMajor_inj (by omega) hc).mp heq
    exact hin (by omega)

theorem sweep_fill_range (a n : ℕ) (v : α) (i : ℕ) :
    sweep id (fun _ _ => v) (List.range' a n) f i = if a ≤ i ∧ i < a+n then v else f i := by
  simp [sweep_fill,List.mem_range'_1]

/-- A loop that writes one slot after the other, from `a` on. -/
theorem sweep_range_add (a n : ℕ) (v : ℕ → α) (i : ℕ) :
    sweep (a+·) (fun _ k => v k) (List.range n) f i = if a ≤ i ∧ i < a+n then v (i-a) else f i := by
  split_ifs with hi
  · obtain ⟨k,rfl⟩ := Nat.exists_eq_add_of_le hi.1
    have hdistinct : (List.range n).Pairwise fun k k' => a+k ≠ a+k' :=
      List.nodup_range.imp fun hne h => hne (Nat.add_left_cancel h)
    rw [Nat.add_sub_cancel_left]
    exact sweep_values hdistinct (List.mem_range.mpr (by omega))
  · apply sweep_of_forall_ne
    intro k hk
    have hk := List.mem_range.mp hk
    omega

end Range
end Linuxab.Base
