import Linuxab.Shell.Path
import Mathlib.Data.List.DropRight

/-! The scanner of `path_normalize` component by component. A component `.` or `..` takes the
separator behind it with it, so the next component is copied without one, whatever it is. -/
namespace Linuxab.Shell
open Linuxab.Base

/-- A path component: no separator and no terminator. -/
def IsComponent (c : List UInt8) : Prop := 47 ∉ c ∧ 0 ∉ c

/-- Every component behind its separator. -/
def slashed (cs : List (List UInt8)) : List UInt8 := cs.flatMap (47::·)

/-- The text of components whose first separator may already be gone. -/
def render : Bool → List (List UInt8) → List UInt8
  | false,cs => slashed cs
  | true,[] => []
  | true,c::cs => c ++ slashed cs

/-- What is kept after `..`: the path up to and with the separator before the last component. -/
def parent (acc : List UInt8) : List UInt8 :=
  (if acc.getLast? = some 47 then acc.dropLast else acc).rdropWhile (· ≠ 47)

/-- The kept text after the components; `bare` says that the separator is gone. -/
def walk : Bool → List UInt8 → List (List UInt8) → List UInt8
  | _,acc,[] => acc
  | true,acc,c::cs => walk false (acc ++ c) cs
  | false,acc,c::cs =>
    if c = [46] then walk true acc cs
    else if c = [46,46] then walk true (parent acc) cs
    else walk false (acc ++ 47::c) cs

/-- From `s` on the array holds the text and then only zeros, at least one. -/
def Remaining (out : PathBuf) (s : ℕ) (u : List UInt8) : Prop :=
  ∃ k, 0 < k ∧ out.toList.drop s = u ++ List.replicate k 0

section Remaining
variable {out : PathBuf} {s : ℕ} {u : List UInt8}

lemma Remaining.lt (h : Remaining out s u) : s+u.length < 128 := by
  obtain ⟨k,hk,h⟩ := h
  have := congrArg List.length h
  simp at this
  omega

lemma Remaining.byte?_nil (h : Remaining out s []) : byte? out s = some 0 := by
  obtain ⟨k,hk,h⟩ := h
  cases k with
  | zero => omega
  | succ k =>
    have := congrArg List.head? h
    rwa [List.head?_drop] at this

lemma Remaining.byte?_cons {b : UInt8} (h : Remaining out s (b::u)) : byte? out s = some b := by
  obtain ⟨k,hk,h⟩ := h
  have := congrArg List.head? h
  rwa [List.head?_drop] at this

lemma Remaining.append {c : List UInt8} (h : Remaining out s (c ++ u)) : Remaining out (s+c.length) u := by
  obtain ⟨k,hk,h⟩ := h
  refine ⟨k,hk,?_⟩
  rw [← List.drop_drop,h,List.append_assoc,List.drop_left]

lemma Remaining.tail {b : UInt8} (h : Remaining out s (b::u)) : Remaining out (s+1) u :=
  Remaining.append (c := [b]) h

/-- Behind a component comes a separator or the end. -/
lemma Remaining.byte?_slashed {cs : List (List UInt8)} (h : Remaining out s (slashed cs)) :
    byte? out s = some (if cs = [] then 0 else 47) := by
  cases cs with
  | nil => exact h.byte?_nil
  | cons c cs => exact h.byte?_cons

lemma Remaining.get {b : UInt8} (h : Remaining out s (b::u)) (hs : s < 128) : out.get ⟨s,hs⟩ = b := by
  obtain ⟨hi,hg⟩ := List.getElem?_eq_some_iff.mp h.byte?_cons
  rw [List.Vector.get_eq_get_toList]
  exact hg

lemma Remaining.get_nil (h : Remaining out s []) (hs : s < 128) : out.get ⟨s,hs⟩ = 0 := by
  obtain ⟨hi,hg⟩ := List.getElem?_eq_some_iff.mp h.byte?_nil
  rw [List.Vector.get_eq_get_toList]
  exact hg

end Remaining

section Tests
variable {out : PathBuf} {s : ℕ} {u : List UInt8}

/-- A known first operand decides whether the second one is read. -/
@[simp] lemma some_andM (a : Bool) (p : Option Bool) : (some a <&&> p) = if a then p else some false := by
  cases a <;> rfl

@[simp] lemma some_orM (a : Bool) (p : Option Bool) : (some a <||> p) = if a then some true else p := by
  cases a <;> rfl

/-- The dot tests fail at once on a byte that is no separator. -/
lemma dotAt_of_ne {b : UInt8} (h : Remaining out s (b::u)) (hb : b ≠ 47) : dotAt out s = some false := by
  simp [dotAt,byteIs,h.byte?_cons,hb]

lemma dotDotAt_of_ne {b : UInt8} (h : Remaining out s (b::u)) (hb : b ≠ 47) :
    dotDotAt out s = some false := by
  simp [dotDotAt,byteIs,h.byte?_cons,hb]

/-- At a separator the test recognises exactly the component `.`. -/
lemma dotAt_component {c : List UInt8} {cs : List (List UInt8)} (hc : IsComponent c)
    (h : Remaining out s (47::(c ++ slashed cs))) : dotAt out s = some (decide (c = [46])) := by
  have h0 := h.byte?_cons
  have h1 := h.tail
  match c,hc with
  | [],_ =>
    have hend := Remaining.byte?_slashed h1
    cases cs <;> simp_all [dotAt,byteIs]
  | [x],_ =>
    have hx := h1.byte?_cons
    have hend := Remaining.byte?_slashed h1.tail
    cases cs <;> by_cases hd : x = 46 <;> simp_all [dotAt,byteIs]
  | x::y::r,hc =>
    have hx := h1.byte?_cons
    have hy := h1.tail.byte?_cons
    simp only [IsComponent,List.mem_cons,not_or] at hc
    have h47 : y ≠ 47 := fun e => hc.1.2.1 e.symm
    have h0' : y ≠ 0 := fun e => hc.2.2.1 e.symm
    by_cases hd : x = 46 <;> simp_all [dotAt,byteIs]

/-- At a separator the second test recognises exactly the component `..`. -/
lemma dotDotAt_component {c : List UInt8} {cs : List (List UInt8)} (hc : IsComponent c)
    (h : Remaining out s (47::(c ++ slashed cs))) (hdot : c ≠ [46]) :
    dotDotAt out s = some (decide (c = [46,46])) := by
  have h0 := h.byte?_cons
  have h1 := h.tail
  match c,hc with
  | [],_ =>
    have hend := Remaining.byte?_slashed h1
    cases cs <;> simp_all [dotDotAt,byteIs]
  | [x],_ =>
    have hx := h1.byte?_cons
    simp_all [dotDotAt,byteIs]
  | [x,y],_ =>
    have hx := h1.byte?_cons
    have hy := h1.tail.byte?_cons
    have hend := Remaining.byte?_slashed h1.tail.tail
    cases cs <;> by_cases hd : x = 46 <;> by_cases hd' : y = 46 <;> simp_all [dotDotAt,byteIs]
  | x::y::z::r,hc =>
    have hx := h1.byte?_cons
    have hy := h1.tail.byte?_cons
    have hz := h1.tail.tail.byte?_cons
    simp only [IsComponent,List.mem_cons,not_or] at hc
    have h47 : z ≠ 47 := fun e => hc.1.2.2.1 e.symm
    have h0' : z ≠ 0 := fun e => hc.2.2.2.1 e.symm
    by_cases hd : x = 46 <;> by_cases hd' : y = 46 <;> simp_all [dotDotAt,byteIs]

end Tests

section Scan
variable {out tmp : PathBuf} {s : ℕ}

/-- The start of `tmp` is the kept text. -/
def Holds (tmp : PathBuf) (acc : List UInt8) : Prop := tmp.toList.take acc.length = acc

lemma Holds.byte? {acc : List UInt8} (h : Holds tmp acc) {i : ℕ} (hi : i < acc.length) :
    byte? tmp i = acc[i]? := by
  conv_rhs => rw [← h]
  rw [List.getElem?_take_of_lt hi]
  rfl

lemma Holds.of_isPrefix {acc acc' : List UInt8} (h : Holds tmp acc) (hp : acc' <+: acc) : Holds tmp acc' := by
  obtain ⟨t,rfl⟩ := hp
  have h2 := congrArg (List.take acc'.length) h
  rwa [List.take_take,List.take_left,List.length_append,Nat.min_eq_left (by omega)] at h2

/-- A byte that is neither a dot component nor the end is copied. -/
lemma resolveDots_copy {acc u : List UInt8} {b : UInt8} (h : Remaining out s (b::u)) (hb : b ≠ 0)
    (hdot : dotAt out s = some false) (hdd : dotDotAt out s = some false) (hacc : Holds tmp acc)
    (hlen : acc.length ≤ s) : ∃ tmp', Holds tmp' (acc ++ [b]) ∧
      resolveDots out s tmp acc.length = resolveDots out (s+1) tmp' (acc ++ [b]).length := by
  have hs : s < 128 := by have := h.lt; omega
  have hfit : acc.length+[b].length ≤ 128 := by simp; omega
  refine ⟨blit tmp acc.length [b] hfit,?_,?_⟩
  · rw [Holds,take_blit tmp hfit (by simp),hacc]
  · rw [resolveDots,dif_pos hs,h.get hs,if_neg hb,hdot]
    simp only [hdd,blit?_of_le tmp hfit]
    simp

/-- A component without its separator is copied whole. -/
lemma resolveDots_copies {c u : List UInt8} (hc : IsComponent c) {s : ℕ} {tmp : PathBuf} {acc : List UInt8}
    (h : Remaining out s (c ++ u)) (hacc : Holds tmp acc) (hlen : acc.length ≤ s) :
    ∃ tmp', Holds tmp' (acc ++ c) ∧
      resolveDots out s tmp acc.length = resolveDots out (s+c.length) tmp' (acc ++ c).length := by
  induction c generalizing s tmp acc with
  | nil => exact ⟨tmp,by simpa using hacc,by simp⟩
  | cons b c ih =>
    simp only [IsComponent,List.mem_cons,not_or] at hc ih
    have hb : b ≠ 47 := fun e => hc.1.1 e.symm
    obtain ⟨t₁,h₁,e₁⟩ := resolveDots_copy h (fun e => hc.2.1 e.symm) (dotAt_of_ne h hb)
      (dotDotAt_of_ne h hb) hacc hlen
    obtain ⟨t₂,h₂,e₂⟩ := ih ⟨hc.1.2,hc.2.2⟩ h.tail h₁ (by simp; omega)
    refine ⟨t₂,by simpa using h₂,?_⟩
    rw [e₁,e₂]
    simp [Nat.add_left_comm,Nat.add_comm]

lemma dropComponent_eq {acc : List UInt8} (h : Holds tmp acc) :
    dropComponent tmp acc.length = some (acc.rdropWhile (· ≠ 47)).length := by
  induction acc using List.reverseRecOn with
  | nil => rfl
  | append_singleton l a ih =>
    have hl := ih (h.of_isPrefix (List.prefix_append l [a]))
    have ha : byte? tmp l.length = some a := by rw [h.byte? (by simp)]; simp
    rw [List.length_append,List.length_singleton,dropComponent,ha,List.rdropWhile_concat]
    by_cases hs : a = 47
    · simp [hs]
    · simpa [hs] using hl

lemma parent_isPrefix (acc : List UInt8) : parent acc <+: acc := by
  unfold parent
  split
  · exact (List.rdropWhile_prefix _ _).trans acc.dropLast_prefix
  · exact List.rdropWhile_prefix _ _

/-- The two loops of the `..` branch go back to the parent. -/
lemma dropLast_eq {acc : List UInt8} (h : Holds tmp acc) : dropLast tmp acc.length = some (parent acc).length := by
  induction acc using List.reverseRecOn with
  | nil => rfl
  | append_singleton l a _ =>
    have hl := h.of_isPrefix (List.prefix_append l [a])
    have ha : byte? tmp l.length = some a := by rw [h.byte? (by simp)]; simp
    have hd := dropComponent_eq h
    simp only [List.length_append,List.length_singleton] at hd ⊢
    rw [dropLast,if_neg (by omega),Nat.add_sub_cancel,ha]
    by_cases hs : a = 47
    · simp [hs,parent,dropComponent_eq hl]
    · simp [hs,parent,hd]

/-- Past a dot component the scan stands behind the next separator, or at the end. -/
lemma Remaining.skip {cs : List (List UInt8)} (h : Remaining out s (slashed cs)) :
    Remaining out (if cs = [] then s else s+1) (render true cs) := by
  cases cs with
  | nil => exact h
  | cons c cs => exact h.tail

lemma resolveDots_dot {cs : List (List UInt8)} (h : Remaining out s (47::([46] ++ slashed cs))) (d : ℕ) :
    resolveDots out s tmp d = resolveDots out (if cs = [] then s+2 else s+2+1) tmp d := by
  have hs : s < 128 := by have := h.lt; omega
  have hend := Remaining.byte?_slashed h.tail.tail
  rw [resolveDots,dif_pos hs,h.get hs,if_neg (by decide),dotAt_component ⟨by decide,by decide⟩ h]
  cases cs <;> simp_all

lemma resolveDots_dotDot {cs : List (List UInt8)} (h : Remaining out s (47::([46,46] ++ slashed cs)))
    {acc : List UInt8} (hacc : Holds tmp acc) :
    resolveDots out s tmp acc.length =
      resolveDots out (if cs = [] then s+3 else s+3+1) tmp (parent acc).length := by
  have hs : s < 128 := by have := h.lt; omega
  have hend := Remaining.byte?_slashed h.tail.tail.tail
  have hc : IsComponent [46,46] := ⟨by decide,by decide⟩
  rw [resolveDots,dif_pos hs,h.get hs,if_neg (by decide),dotAt_component hc h]
  simp only [dotDotAt_component hc h (by decide),dropLast_eq hacc]
  cases cs <;> simp_all

/-- The scanner keeps what the walk over the components keeps. -/
theorem resolveDots_walk {cs : List (List UInt8)} (hcs : ∀ c ∈ cs, IsComponent c) {bare : Bool} {s : ℕ}
    {tmp : PathBuf} {acc : List UInt8} (h : Remaining out s (render bare cs)) (hacc : Holds tmp acc)
    (hlen : acc.length ≤ s) : ∃ tmp', Holds tmp' (walk bare acc cs) ∧
      resolveDots out s tmp acc.length = some (tmp',(walk bare acc cs).length) := by
  induction cs generalizing bare s tmp acc with
  | nil =>
    have h0 : Remaining out s [] := by cases bare <;> exact h
    have hs : s < 128 := by have := h0.lt; omega
    refine ⟨tmp,by simpa [walk] using hacc,?_⟩
    rw [resolveDots,dif_pos hs,h0.get_nil hs,if_pos rfl]
    simp [walk]
  | cons c cs ih =>
    have hc : IsComponent c := hcs c (by simp)
    replace hcs : ∀ c ∈ cs, IsComponent c := fun x hx => hcs x (by simp [hx])
    cases bare with
    | true =>
      obtain ⟨t,ht,e⟩ := resolveDots_copies hc h hacc hlen
      obtain ⟨t',ht',e'⟩ := ih hcs (show Remaining out _ (render false cs) from h.append) ht (by simp; omega)
      exact ⟨t',ht',by rw [e,e']; rfl⟩
    | false =>
      have h47 : Remaining out s (47::(c ++ slashed cs)) := h
      unfold walk
      split
      · next hd =>
        subst hd
        rw [resolveDots_dot h47]
        exact ih hcs (Remaining.skip h47.tail.tail) hacc (by split <;> omega)
      split
      · next hd =>
        subst hd
        have hp := parent_isPrefix acc
        rw [resolveDots_dotDot h47 hacc]
        exact ih hcs (Remaining.skip h47.tail.tail.tail) (hacc.of_isPrefix hp)
          (by have := hp.length_le; split <;> omega)
      · next hd hdd =>
        obtain ⟨t,ht,e⟩ := resolveDots_copy h47 (by decide) (by simpa [hd] using dotAt_component hc h47)
          (by simpa [hdd] using dotDotAt_component hc h47 hd) hacc hlen
        obtain ⟨t₁,h₁,e₁⟩ := resolveDots_copies hc h47.tail ht (by simp; omega)
        obtain ⟨t₂,h₂,e₂⟩ := ih hcs (show Remaining out _ (render false cs) from h47.tail.append) h₁ (by simp; omega)
        rw [e,e₁,e₂]
        exact ⟨t₂,by simpa using h₂,by simp⟩

end Scan
end Linuxab.Shell
