import Linuxab.Shell.PathScan

/-! What `path_normalize` returns, against the resolution of a path component by component. -/
namespace Linuxab.Shell
open Linuxab.Base

/-- The text the scanner works on. -/
def joined (cwd input : List UInt8) : List UInt8 :=
  if input.head? = some 47 then input
  else if cwd.getLast? = some 47 then cwd ++ input
  else cwd ++ 47::input

lemma joined_head {cwd : List UInt8} (h : cwd.head? = some 47) (input : List UInt8) : (joined cwd input).head? = some 47 := by
  unfold joined
  split
  · assumption
  split <;> simp [List.head?_append,h]

lemma joined_noNul {cwd input : List UInt8} (hc : 0 ∉ cwd) (hi : 0 ∉ input) : 0 ∉ joined cwd input := by
  unfold joined
  split
  · exact hi
  split <;> simp [hc,hi]

/-- A path in its array: the text and zeros to the end. -/
def padded (t : List UInt8) : List UInt8 := t ++ List.replicate (128-t.length) 0

section Padded
variable {v : PathBuf} {t : List UInt8}

lemma length_padded (h : t.length ≤ 128) : (padded t).length = 128 := by
  simp [padded]
  omega

lemma text_padded (h : 0 ∉ t) : text (padded t) = t := by
  unfold padded
  cases 128-t.length with
  | zero => simpa using text_of_noNul h
  | succ k => exact text_append_nul h _

/-- A copy behind the text appends to it. -/
lemma blit?_padded (h : v.toList = padded t) (src : List UInt8) (hfit : t.length+src.length ≤ 128) :
    ∃ v', blit? v t.length src = some v' ∧ v'.toList = padded (t ++ src) := by
  refine ⟨_,blit?_of_le v hfit,?_⟩
  rw [toList_blit,h]
  simp only [padded,List.take_left,List.append_assoc,List.append_cancel_left_eq,List.length_append]
  rw [← List.drop_drop,List.drop_left,List.drop_replicate,Nat.sub_sub]

lemma blit?_zeroPath (src : List UInt8) (hfit : src.length ≤ 128) :
    ∃ v', blit? zeroPath 0 src = some v' ∧ v'.toList = padded src :=
  blit?_padded (t := []) rfl src (by simpa using hfit)

/-- The terminator is written over a zero. -/
lemma blit?_terminate (h : v.toList = padded t) (hfit : t.length < 128) :
    ∃ v', blit? v t.length [0] = some v' ∧ v'.toList = padded t := by
  obtain ⟨v',hv,hp⟩ := blit?_padded h [0] (by simp; omega)
  refine ⟨v',hv,?_⟩
  rw [hp]
  simp only [padded,List.append_assoc,List.append_cancel_left_eq,List.length_append]
  rw [← List.replicate_one,List.replicate_append_replicate]
  congr 1
  simp
  omega

lemma remaining_padded (h : v.toList = padded t) (ht : t.length ≤ 127) : Remaining v 0 t :=
  ⟨128-t.length,by omega,h⟩

lemma byte?_padded (h : v.toList = padded t) {i : ℕ} (hi : i < t.length) : byte? v i = t[i]? := by
  rw [byte?,h,padded,List.getElem?_append_left hi]

/-- The input is copied behind the text and terminated. -/
lemma blit?_input (h : v.toList = padded t) (input : List UInt8) (hfit : t.length+input.length ≤ 127) :
    ∃ v', (blit? v t.length (input.take (min input.length (128-t.length-1)))).bind
        (blit? · (t.length+min input.length (128-t.length-1)) [0]) = some v' ∧
      v'.toList = padded (t ++ input) := by
  obtain ⟨v₁,h₁,p₁⟩ := blit?_padded h input (by omega)
  obtain ⟨v₂,h₂,p₂⟩ := blit?_terminate p₁ (by simp; omega)
  refine ⟨v₂,?_,p₂⟩
  rw [Nat.min_eq_left (by omega),List.take_length,h₁]
  simpa using h₂

end Padded

/-- The first half of the function builds that text. -/
lemma joinPath_eq {cwd input : List UInt8} (hcwd : cwd ≠ []) (hc : 0 ∉ cwd) (hi : 0 ∉ input)
    (hfit : (joined cwd input).length ≤ 127) :
    ∃ v, joinPath cwd input = some v ∧ v.toList = padded (joined cwd input) := by
  unfold joinPath joined at *
  by_cases habs : input.head? = some 47
  · simp only [habs,if_true] at hfit ⊢
    obtain ⟨v₁,h₁,p₁⟩ := blit?_zeroPath input (by omega)
    obtain ⟨v₂,h₂,p₂⟩ := blit?_terminate p₁ (by omega)
    refine ⟨v₂,?_,p₂⟩
    rw [List.take_of_length_le (by omega),Nat.min_eq_left hfit]
    simpa [h₁] using h₂
  · have hlen : 0 < cwd.length := List.length_pos_iff.mpr hcwd
    simp only [habs,if_false,strlen_eq,text_of_noNul hc,text_of_noNul hi,List.take_length] at hfit ⊢
    have hcl : cwd.length+input.length ≤ 127 := by split at hfit <;> simp at hfit <;> omega
    obtain ⟨v₁,h₁,p₁⟩ := blit?_zeroPath cwd (by omega)
    have hlast : byte? v₁ (cwd.length-1) = some (cwd.getLast hcwd) := by
      rw [byte?_padded p₁ (by omega),← List.getLast?_eq_getElem?,List.getLast?_eq_getLast_of_ne_nil]
    simp only [List.getLast?_eq_getLast_of_ne_nil hcwd,Option.some_inj] at hfit ⊢
    simp only [h₁,hlen,if_true,hlast,Option.bind_eq_bind,Option.bind_some]
    by_cases hsep : cwd.getLast hcwd = 47
    · obtain ⟨v₂,h₂,p₂⟩ := blit?_input p₁ input hcl
      simp only [hsep,if_true,ne_eq,not_true,false_and,if_false]
      refine ⟨v₂,?_,p₂⟩
      simpa [show ¬128 ≤ cwd.length by omega] using h₂
    · simp only [hsep,if_false,List.length_append,List.length_cons] at hfit
      obtain ⟨v₂,h₂,p₂⟩ := blit?_padded p₁ [47] (by simp; omega)
      obtain ⟨v₃,h₃,p₃⟩ := blit?_input p₂ input (by simp; omega)
      refine ⟨v₃,?_,by simpa [hsep] using p₃⟩
      have hlt : cwd.length < 127 := by omega
      simpa [hsep,hlt,h₂,show ¬128 ≤ cwd.length+1 by omega] using h₃

/-- The components of a text that starts with a separator. -/
def components (t : List UInt8) : List (List UInt8) := (t.splitOn 47).tail

lemma splitOn_separator (t : List UInt8) : (47::t).splitOn 47 = []::t.splitOn 47 := by
  rw [List.splitOn_cons_eq_if_modifyHead,if_pos (by simp)]

lemma slashed_eq_intercalate {cs : List (List UInt8)} (h : cs ≠ []) : slashed cs = 47::[47].intercalate cs := by
  induction cs with
  | nil => exact absurd rfl h
  | cons c cs ih =>
    cases cs with
    | nil => simp [slashed,List.intercalate]
    | cons d ds =>
      have hd := ih (by simp)
      rw [slashed] at hd ⊢
      rw [List.flatMap_cons,hd,List.intercalate_cons_cons]
      simp

lemma slashed_components {t : List UInt8} (h : t.head? = some 47) : slashed (components t) = t := by
  cases t with
  | nil => cases h
  | cons b t =>
    obtain rfl : b = 47 := by simpa using h
    rw [components,splitOn_separator,List.tail_cons,slashed_eq_intercalate (List.splitOn_ne_nil _ _),
      List.intercalate_splitOn]

lemma isComponent_of_mem {t c : List UInt8} (h0 : 0 ∉ t) (h : c ∈ components t) : IsComponent c := by
  obtain ⟨h47,hsub⟩ := mem_splitOn (List.mem_of_mem_tail h)
  exact ⟨h47,fun h => h0 (hsub h)⟩

lemma render_false (cs : List (List UInt8)) : render false cs = slashed cs := rfl

lemma walk_length_le (bare : Bool) (acc : List UInt8) (cs : List (List UInt8)) :
    (walk bare acc cs).length ≤ acc.length+(render bare cs).length := by
  induction cs generalizing bare acc with
  | nil => simp [walk]
  | cons c cs ih =>
    have hslash : (slashed (c::cs)).length = c.length+(slashed cs).length+1 := by simp [slashed]
    have hbare : (render true cs).length ≤ (slashed cs).length := by
      cases cs with
      | nil => simp [render]
      | cons d ds => simp [render,slashed]
    cases bare with
    | true =>
      have := ih false (acc ++ c)
      simp only [walk,render,List.length_append] at this ⊢
      omega
    | false =>
      have h₁ := ih true acc
      have h₂ := ih true (parent acc)
      have h₃ := ih false (acc ++ 47::c)
      have hp := (parent_isPrefix acc).length_le
      simp only [walk,render_false,List.length_append,List.length_cons] at h₃ ⊢
      split
      · omega
      split <;> omega

/-- The root stands for an empty result. -/
def orRoot (t : List UInt8) : List UInt8 := if t = [] then [47] else t

/-- The kept text is terminated and copied to the result. -/
lemma copyOut {tmp : PathBuf} {acc : List UInt8} (h : Holds tmp acc) (hlen : acc.length ≤ 127) :
    ((blit? tmp acc.length [0]).bind fun tmp => blit? zeroPath 0 (tmp.toList.take acc.length)).map (·.toList) =
      some (padded acc) := by
  have hfit : acc.length+[(0 : UInt8)].length ≤ 128 := by simp; omega
  have htake : (blit tmp acc.length [0] hfit).toList.take acc.length = acc := by
    rw [toList_blit,List.append_assoc,h,List.take_left]
  obtain ⟨v,hv,hp⟩ := blit?_zeroPath acc (by omega)
  rw [blit?_of_le tmp hfit,Option.bind_some,htake,hv,Option.map_some,hp]

/-- The function returns what the walk over the components of its text keeps. -/
theorem pathNormalize_eq {cwd input : List UInt8} (hcwd : cwd.head? = some 47) (hc : 0 ∉ cwd) (hi : 0 ∉ input)
    (hfit : (joined cwd input).length ≤ 127) :
    (pathNormalize cwd input).map (·.toList) =
      some (padded (orRoot (walk false [] (components (joined cwd input))))) := by
  have hne : cwd ≠ [] := by rintro rfl; cases hcwd
  have hhead := joined_head hcwd input
  have h0 := joined_noNul hc hi
  set t := joined cwd input
  obtain ⟨out,hout,hpad⟩ := joinPath_eq hne hc hi hfit
  have hrem : Remaining out 0 (render false (components t)) := by
    rw [render,slashed_components hhead]
    exact remaining_padded hpad hfit
  obtain ⟨tmp,htmp,hscan⟩ := resolveDots_walk (fun c => isComponent_of_mem h0) hrem
    (show Holds zeroPath [] by simp [Holds]) (by simp)
  have hlen := walk_length_le false [] (components t)
  rw [render,slashed_components hhead] at hlen
  set w := walk false [] (components t)
  rw [List.length_nil] at hlen hscan
  simp only [pathNormalize,hout,hscan,Option.bind_eq_bind,Option.bind_some,orRoot]
  by_cases hw : w = []
  · have hroot : (0 : ℕ)+[(47 : UInt8)].length ≤ 128 := by simp
    have hh : Holds (blit tmp 0 [47] hroot) [47] := by simp [Holds]
    simpa [hw,blit?_of_le tmp hroot] using copyOut hh (by simp)
  · simpa [hw] using copyOut htmp (by omega)

end Linuxab.Shell
