import Mathlib.Data.List.Basic
import Mathlib.Order.Lattice

/-! Lists changed by exchanging two of their entries, and the sort that exchanges neighbours: each pass
moves a least entry of the part that is not sorted yet to its end. -/
namespace Linuxab.Base
variable {α κ : Type*}

/-- The entries at two positions exchanged. -/
def exchange (l : List α) (i j : ℕ) : List α :=
  match l[i]?, l[j]? with
  | some x, some y => (l.set i y).set j x
  | _, _ => l

theorem exchange_perm (l : List α) (i j : ℕ) : (exchange l i j).Perm l := by
  rw [exchange]
  split
  · next x y hx hy =>
    obtain ⟨hi,rfl⟩ := List.getElem?_eq_some_iff.mp hx
    obtain ⟨hj,rfl⟩ := List.getElem?_eq_some_iff.mp hy
    exact List.set_set_perm hi hj
  · exact .refl l

theorem exchange_append (u v : List α) (x y : α) :
    exchange (u ++ x::y::v) u.length (u.length+1) = u ++ y::x::v := by
  simp [exchange]

section Stable
variable [DecidableEq κ] {key : α → κ} {l l' l'' : List α}

/-- A rearrangement that keeps the order of entries with the same key. -/
structure StablePerm (key : α → κ) (l l' : List α) : Prop where
  perm : l'.Perm l
  filter_eq : ∀ k, l'.filter (key · = k) = l.filter (key · = k)

theorem StablePerm.refl (l : List α) : StablePerm key l l := ⟨.refl l,fun _ => rfl⟩

theorem StablePerm.trans (h : StablePerm key l l') (h' : StablePerm key l' l'') : StablePerm key l l'' :=
  ⟨h'.perm.trans h.perm,fun k => (h'.filter_eq k).trans (h.filter_eq k)⟩

theorem stablePerm_neighbours {x y : α} (h : key x ≠ key y) (u v : List α) :
    StablePerm key (u ++ x::y::v) (u ++ y::x::v) := by
  refine ⟨(List.Perm.swap x y v).append_left u,fun k => ?_⟩
  rw [List.filter_append,List.filter_append]
  congr 1
  by_cases hx : key x = k
  · have hy : key y ≠ k := fun hy => h (hx.trans hy.symm)
    simp [hx,hy]
  · simp [List.filter_cons,hx]

end Stable

section Sink
variable [LinearOrder κ] (key : α → κ)

/-- Exchange an entry with the next one if its key is smaller. -/
def sinkStep (l : List α) (j : ℕ) : List α :=
  match l[j]?, l[j+1]? with
  | some x, some y => if key x < key y then exchange l j (j+1) else l
  | _, _ => l

def sinkPass (m : ℕ) (l : List α) : List α := (List.range m).foldl (sinkStep key) l

/-- All passes over a list of `n` entries. -/
def sinkSort (n : ℕ) (l : List α) : List α := (List.range (n-1)).foldl (fun l i => sinkPass key (n-i-1) l) l

variable {key}

theorem sinkStep_append (u v : List α) (x y : α) :
    sinkStep key (u ++ x::y::v) u.length = if key x < key y then u ++ y::x::v else u ++ x::y::v := by
  have hx : (u ++ x::y::v)[u.length]? = some x := by simp
  have hy : (u ++ x::y::v)[u.length+1]? = some y := by simp
  rw [sinkStep,hx,hy,exchange_append]

/-- After `m` rounds of a pass the entry at position `m` is a least one of those up to there, and what is
behind it has not been touched. -/
theorem sinkPass_spec {m : ℕ} {l : List α} (hm : m < l.length) :
    ∃ u x, sinkPass key m l = u ++ x::l.drop (m+1) ∧ u.length = m ∧ (∀ y ∈ u, key x ≤ key y) ∧
      StablePerm key l (sinkPass key m l) := by
  induction m with
  | zero =>
    obtain ⟨x,v,rfl⟩ : ∃ x v, l = x::v := List.exists_cons_of_length_pos hm
    exact ⟨[],x,rfl,rfl,by simp,.refl _⟩
  | succ m ih =>
    obtain ⟨u,x,heq,hlen,hleast,hstable⟩ := ih (by omega)
    have hdrop : l.drop (m+1) = l[m+1]::l.drop (m+2) := List.drop_eq_getElem_cons hm
    have hnext : sinkPass key (m+1) l = sinkStep key (sinkPass key m l) m := by
      rw [sinkPass,List.range_succ,List.foldl_append]
      rfl
    rw [heq,hdrop] at hnext hstable
    generalize l[m+1] = y at *
    generalize l.drop (m+2) = v at *
    subst hlen
    rw [sinkStep_append] at hnext
    rw [hnext]
    split_ifs with hlt
    · refine ⟨u ++ [y],x,by simp,by simp,?_,hstable.trans (stablePerm_neighbours (ne_of_lt hlt) u v)⟩
      intro z hz
      rcases List.mem_append.mp hz with hz | hz
      · exact hleast z hz
      · rw [List.mem_singleton.mp hz]
        exact le_of_lt hlt
    · refine ⟨u ++ [x],y,by simp,by simp,?_,hstable⟩
      have hyx : key y ≤ key x := not_lt.mp hlt
      intro z hz
      rcases List.mem_append.mp hz with hz | hz
      · exact le_trans hyx (hleast z hz)
      · rw [List.mem_singleton.mp hz]
        exact hyx

/-- The last `i` entries are sorted and not above the others. -/
structure SettledFrom (key : α → κ) (l : List α) (i : ℕ) : Prop where
  sorted : (l.drop (l.length-i)).Pairwise fun a b => key b ≤ key a
  below : ∀ a ∈ l.take (l.length-i), ∀ b ∈ l.drop (l.length-i), key b ≤ key a

theorem SettledFrom.pass {l : List α} {i : ℕ} (h : SettledFrom key l i) (hi : i < l.length) :
    SettledFrom key (sinkPass key (l.length-i-1) l) (i+1) := by
  obtain ⟨u,x,heq,hlen,hleast,hstable⟩ := @sinkPass_spec _ _ _ key (l.length-i-1) l (by omega)
  have hdrop : l.length-i-1+1 = l.length-i := by omega
  rw [hdrop] at heq
  -- the part in front of the settled one is rearranged within itself
  have hfront : (u ++ [x]).Perm (l.take (l.length-i)) := by
    apply (List.perm_append_right_iff (l.drop (l.length-i))).mp
    rw [List.take_append_drop,List.append_assoc]
    exact heq ▸ hstable.perm
  have hlength := hstable.perm.length_eq
  have hsplit : (sinkPass key (l.length-i-1) l).length-(i+1) = u.length := by omega
  constructor
  · rw [hsplit,heq,List.drop_left]
    refine List.pairwise_cons.mpr ⟨fun b hb => ?_,h.sorted⟩
    exact h.below x (hfront.mem_iff.mp (by simp)) b hb
  · rw [hsplit,heq,List.drop_left,List.take_left]
    intro a ha b hb
    rcases List.mem_cons.mp hb with rfl | hb
    · exact hleast a ha
    · exact h.below a (hfront.mem_iff.mp (by simp [ha])) b hb

theorem sinkSort_rounds {n : ℕ} {l : List α} (hn : l.length = n) {r : ℕ} (hr : r ≤ n-1) :
    SettledFrom key ((List.range r).foldl (fun l i => sinkPass key (n-i-1) l) l) r ∧
      StablePerm key l ((List.range r).foldl (fun l i => sinkPass key (n-i-1) l) l) := by
  induction r with
  | zero => exact ⟨⟨by simp,by simp⟩,.refl l⟩
  | succ r ih =>
    obtain ⟨hsettled,hstable⟩ := ih (by omega)
    rw [List.range_succ,List.foldl_append,List.foldl_cons,List.foldl_nil]
    generalize (List.range r).foldl (fun l i => sinkPass key (n-i-1) l) l = t at *
    obtain rfl : t.length = n := hstable.perm.length_eq.trans hn
    obtain ⟨-,-,-,-,-,hpass⟩ := @sinkPass_spec _ _ _ key (t.length-r-1) t (by omega)
    exact ⟨hsettled.pass (by omega),hstable.trans hpass⟩

/-- The sort rearranges the list by falling keys and is stable. -/
theorem sinkSort_spec (l : List α) :
    (sinkSort key l.length l).Pairwise (fun a b => key b ≤ key a) ∧ StablePerm key l (sinkSort key l.length l) := by
  obtain ⟨hsettled,hstable⟩ := @sinkSort_rounds _ _ _ key _ l rfl _ (Nat.le_refl (l.length-1))
  refine ⟨?_,hstable⟩
  change SettledFrom key (sinkSort key l.length l) _ at hsettled
  have hlength := hstable.perm.length_eq
  change (sinkSort key l.length l).length = _ at hlength
  rw [← List.take_append_drop ((sinkSort key l.length l).length-(l.length-1)) (sinkSort key l.length l)]
  refine List.pairwise_append.mpr ⟨?_,hsettled.sorted,hsettled.below⟩
  -- at most one entry is left in front
  have hshort : ((sinkSort key l.length l).take ((sinkSort key l.length l).length-(l.length-1))).length ≤ 1 := by
    rw [List.length_take]
    omega
  generalize (sinkSort key l.length l).take ((sinkSort key l.length l).length-(l.length-1)) = front at hshort
  match front, hshort with
  | [], _ => exact .nil
  | [x], _ => exact List.pairwise_singleton _ x

end Sink
end Linuxab.Base
