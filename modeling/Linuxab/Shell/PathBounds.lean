import Linuxab.Shell.PathResolve

/-! `path_normalize` never leaves its arrays: a zero at the last index of the joined text stops every
read ahead, and the write index stays behind the read index. -/
namespace Linuxab.Shell
open Linuxab.Base

section Bytes
variable {v : PathBuf}

lemma exists_byte? (v : PathBuf) {i : ℕ} (h : i < 128) : ∃ b, byte? v i = some b :=
  ⟨_,List.getElem?_eq_getElem (by simpa using h)⟩

lemma byte?_blit_of_ge {off i : ℕ} {src : List UInt8} (h : off+src.length ≤ 128) (hi : off+src.length ≤ i) :
    byte? (blit v off src h) i = byte? v i := by
  have hlen : (v.toList.take off ++ src).length = off+src.length := by simp; omega
  rw [byte?,toList_blit,List.getElem?_append_right (by omega),hlen,List.getElem?_drop,byte?]
  congr 1
  omega

lemma byte?_blit_singleton {off : ℕ} {b : UInt8} (h : off+[b].length ≤ 128) : byte? (blit v off [b] h) off = some b := by
  have hlen : (v.toList.take off).length = off := by simp at h ⊢; omega
  rw [byte?,toList_blit,List.append_assoc,List.getElem?_append_right (by omega),hlen]
  simp

/-- A terminator written behind the copied bytes leaves a zero at the end. -/
lemma byte?_last_terminated {off : ℕ} (h : off+[(0 : UInt8)].length ≤ 128) (hz : off < 127 → byte? v 127 = some 0) :
    byte? (blit v off [0] h) 127 = some 0 := by
  by_cases hoff : off = 127
  · subst hoff
    exact byte?_blit_singleton h
  · simp only [List.length_singleton] at h
    rw [byte?_blit_of_ge _ (by simp; omega)]
    exact hz (by omega)

end Bytes

lemma byte?_zeroPath_last : byte? zeroPath 127 = some 0 := by decide

/-- A copy that leaves room for the terminator, and the terminator. -/
lemma copy_terminate_total {v : PathBuf} (hz : byte? v 127 = some 0) {len : ℕ} (off : ℕ) (src : List UInt8)
    (hlen : len ≤ src.length) (hfit : off+len ≤ 127) :
    ∃ out, (blit? v off (src.take len)).bind (blit? · (off+len) [0]) = some out ∧ byte? out 127 = some 0 := by
  have htake : (src.take len).length = len := by simp [hlen]
  have h0 : off+(src.take len).length ≤ 128 := by omega
  have h1 : off+len+[(0 : UInt8)].length ≤ 128 := by simp; omega
  rw [blit?_of_le v h0,Option.bind_some]
  refine ⟨_,blit?_of_le _ h1,byte?_last_terminated h1 fun hlt => ?_⟩
  rwa [byte?_blit_of_ge h0 (by omega)]

/-- As much of the input as fits, and the terminator. -/
lemma copyInput_total (input : List UInt8) {v : PathBuf} {o : ℕ} (hv : byte? v 127 = some 0) (ho : o ≤ 127) :
    ∃ out, (blit? v o (input.take (min (strlen input) (128-o-1)))).bind
      (blit? · (o+min (strlen input) (128-o-1)) [0]) = some out ∧ byte? out 127 = some 0 := by
  have hin := strlen_le_length input
  exact copy_terminate_total hv o input (by omega) (by omega)

/-- The joined text ends inside its array. -/
lemma joinPath_total {cwd : List UInt8} (hcwd : cwd.length ≤ 127) (input : List UInt8) :
    ∃ out, joinPath cwd input = some out ∧ byte? out 127 = some 0 := by
  unfold joinPath
  split
  · simpa using copy_terminate_total byte?_zeroPath_last 0 input (Nat.min_le_left _ 127)
      (by omega)
  · have hlen := strlen_le_length cwd
    have htake : (cwd.take (strlen cwd)).length = strlen cwd := by simp [hlen]
    have hcopy : 0+(cwd.take (strlen cwd)).length ≤ 128 := by omega
    have hz : strlen cwd < 128 → byte? (blit zeroPath 0 _ hcopy) 127 = some 0 := fun h => by
      rw [byte?_blit_of_ge hcopy (by omega)]
      exact byte?_zeroPath_last
    simp only [blit?_of_le zeroPath hcopy,Option.bind_eq_bind,Option.bind_some]
    split
    · obtain ⟨last,hlast⟩ := exists_byte? (blit zeroPath 0 _ hcopy) (i := strlen cwd-1) (by omega)
      simp only [hlast,Option.bind_some]
      split
      · next hsep =>
        have hs : strlen cwd+[(47 : UInt8)].length ≤ 128 := by simp; omega
        simp only [blit?_of_le _ hs,Option.bind_some,Option.pure_def,if_neg (show ¬128 ≤ strlen cwd+1 by omega)]
        apply copyInput_total input _ (by omega)
        rw [byte?_blit_of_ge hs (by simp; omega)]
        exact hz (by omega)
      · simp only [Option.bind_some,Option.pure_def,if_neg (show ¬128 ≤ strlen cwd by omega)]
        exact copyInput_total input (hz (by omega)) (by omega)
    · simp only [Option.bind_some,Option.pure_def,if_neg (show ¬128 ≤ strlen cwd by omega)]
      exact copyInput_total input (hz (by omega)) (by omega)

section Scan
variable {out tmp : PathBuf} {s d : ℕ}

lemma exists_byteIs (out : PathBuf) {i : ℕ} (h : i < 128) (c : UInt8) :
    ∃ b, byteIs out i c = some b ∧ (b = true → byte? out i = some c) := by
  obtain ⟨x,hx⟩ := exists_byte? out h
  exact ⟨x == c,by simp [byteIs,hx],fun hb => by simpa [hx] using hb⟩

/-- A byte that is not zero stands before the last index. -/
lemma lt_of_byte?_ne_zero (hz : byte? out 127 = some 0) {c : UInt8} (h : byte? out s = some c) (hc : c ≠ 0) :
    s < 127 := by
  have := lt_of_byte?_eq_some h
  have hne : s ≠ 127 := by
    rintro rfl
    exact hc (Option.some_inj.mp (h.symm.trans hz))
  omega

/-- `&&` reads on only behind a byte that matched. -/
lemma byteIs_and_total {c : UInt8} {rest : Option Bool} {P : Prop} (hs : s < 128)
    (h : byte? out s = some c → ∃ b, rest = some b ∧ (b = true → P)) :
    ∃ b, (byteIs out s c <&&> rest) = some b ∧ (b = true → P) := by
  obtain ⟨b,e,hb⟩ := exists_byteIs out hs c
  rw [e]
  cases b with
  | false => exact ⟨false,rfl,by simp⟩
  | true => exact h (hb rfl)

lemma byteIs_or_total (out : PathBuf) {s : ℕ} (hs : s < 128) (c d : UInt8) : ∃ b, (byteIs out s c <||> byteIs out s d) = some b := by
  obtain ⟨b,e,-⟩ := exists_byteIs out hs c
  obtain ⟨b',e',-⟩ := exists_byteIs out hs d
  rw [e,e']
  cases b with
  | false => exact ⟨b',rfl⟩
  | true => exact ⟨true,rfl⟩

lemma dotAt_total (hz : byte? out 127 = some 0) (hs : s < 127) :
    ∃ b, dotAt out s = some b ∧ (b = true → s+2 ≤ 127) := by
  apply byteIs_and_total (by omega)
  intro _
  apply byteIs_and_total (by omega)
  intro h₁
  have hlt := lt_of_byte?_ne_zero hz h₁ (by decide)
  obtain ⟨b,hb⟩ := byteIs_or_total out (show s+2 < 128 by omega) 47 0
  exact ⟨b,hb,fun _ => hlt⟩

lemma dotDotAt_total (hz : byte? out 127 = some 0) (hs : s < 127) :
    ∃ b, dotDotAt out s = some b ∧ (b = true → s+3 ≤ 127) := by
  apply byteIs_and_total (by omega)
  intro _
  apply byteIs_and_total (by omega)
  intro h₁
  have hlt := lt_of_byte?_ne_zero hz h₁ (by decide)
  apply byteIs_and_total (by omega)
  intro h₂
  have hlt' := lt_of_byte?_ne_zero hz h₂ (by decide)
  obtain ⟨b,hb⟩ := byteIs_or_total out (show s+3 < 128 by omega) 47 0
  exact ⟨b,hb,fun _ => hlt'⟩

/-- A separator, which a dot component takes along, is never the last byte. -/
lemma exists_separator? (hz : byte? out 127 = some 0) (hs : s ≤ 127) :
    ∃ c, byte? out s = some c ∧ (if c = 47 then s+1 else s) ≤ 127 := by
  obtain ⟨c,hc⟩ := exists_byte? out (show s < 128 by omega)
  refine ⟨c,hc,?_⟩
  split
  · next hsep => exact lt_of_byte?_ne_zero hz hc (by rw [hsep]; decide)
  · exact hs

/-- Between two reads the kept text does not overtake the scan. -/
lemma resolveDots_total (hz : byte? out 127 = some 0) {acc : List UInt8} (hacc : Holds tmp acc) (h0 : 0 ∉ acc)
    (hlen : acc.length ≤ s) (hs : s ≤ 127) :
    ∃ tmp' acc', resolveDots out s tmp acc.length = some (tmp',acc'.length) ∧ Holds tmp' acc' ∧ 0 ∉ acc' ∧
      acc'.length ≤ 127 := by
  induction hm : 128-s using Nat.strong_induction_on generalizing s tmp acc with
  | _ m ih =>
    have next : ∀ {s' tmp acc}, s < s' → s' ≤ 127 → Holds tmp acc → 0 ∉ acc → acc.length ≤ s' →
        ∃ tmp' acc', resolveDots out s' tmp acc.length = some (tmp',acc'.length) ∧ Holds tmp' acc' ∧ 0 ∉ acc' ∧
          acc'.length ≤ 127 := by
      intro s' tmp acc hlt hle hacc h0 hlen
      exact ih (128-s') (by omega) hacc h0 hlen hle rfl
    have hs128 : s < 128 := by omega
    have hget : byte? out s = some (out.get ⟨s,hs128⟩) := by
      rw [byte?,List.getElem?_eq_getElem (by simpa using hs128),List.Vector.get_eq_get_toList]
      rfl
    rw [resolveDots,dif_pos hs128]
    split
    · exact ⟨tmp,acc,rfl,hacc,h0,by omega⟩
    · next hb =>
      have hlt : s < 127 := lt_of_byte?_ne_zero hz hget hb
      obtain ⟨b₁,e₁,h₁⟩ := dotAt_total hz hlt
      obtain ⟨b₂,e₂,h₂⟩ := dotDotAt_total hz hlt
      rw [e₁]
      cases b₁ with
      | true =>
        obtain ⟨c,hc,hle⟩ := exists_separator? hz (h₁ rfl)
        simp only [hc]
        exact next (by split <;> omega) hle hacc h0 (by split <;> omega)
      | false =>
        simp only [e₂]
        cases b₂ with
        | true =>
          have hp := parent_isPrefix acc
          have hpl := hp.length_le
          have hp0 : 0 ∉ parent acc := fun h => h0 (hp.subset h)
          obtain ⟨c,hc,hle⟩ := exists_separator? hz (h₂ rfl)
          simp only [hc,dropLast_eq hacc]
          exact next (by split <;> omega) hle (hacc.of_isPrefix hp) hp0 (by split <;> omega)
        | false =>
          have hfit : acc.length+[out.get ⟨s,hs128⟩].length ≤ 128 := by simp; omega
          have hh : Holds (blit tmp acc.length [out.get ⟨s,hs128⟩] hfit) (acc ++ [out.get ⟨s,hs128⟩]) := by
            rw [Holds,take_blit tmp hfit (by simp),hacc]
          have := next (Nat.lt_succ_self s) (by omega) hh (by simpa [h0] using Ne.symm hb) (by simp; omega)
          simpa [blit?_of_le tmp hfit] using this

end Scan

/-- From a working directory of at most 127 bytes the function returns, with a path of 1 to 127 bytes
and zeros behind it. -/
theorem pathNormalize_total {cwd : List UInt8} (hcwd : cwd.length ≤ 127) (input : List UInt8) :
    ∃ v t, pathNormalize cwd input = some v ∧ v.toList = padded t ∧ 0 ∉ t ∧ 1 ≤ t.length ∧ t.length ≤ 127 := by
  obtain ⟨out,hout,hz⟩ := joinPath_total hcwd input
  obtain ⟨tmp,acc,hscan,hacc,h0,hlen⟩ := resolveDots_total hz (show Holds zeroPath [] by simp [Holds]) (s := 0)
    (by simp) (by simp) (by omega)
  rw [List.length_nil] at hscan
  have hfin : ∃ tmp' acc', Holds tmp' acc' ∧ 0 ∉ acc' ∧ 1 ≤ acc'.length ∧ acc'.length ≤ 127 ∧
      pathNormalize cwd input =
        (blit? tmp' acc'.length [0]).bind fun tmp => blit? zeroPath 0 (tmp.toList.take acc'.length) := by
    simp only [pathNormalize,hout,hscan,Option.bind_eq_bind,Option.bind_some]
    split
    · have hroot : (0 : ℕ)+[(47 : UInt8)].length ≤ 128 := by simp
      refine ⟨blit tmp 0 [47] hroot,[47],by simp [Holds],by simp,by simp,by simp,?_⟩
      rw [blit?_of_le tmp hroot]
      rfl
    · exact ⟨tmp,acc,hacc,h0,by omega,hlen,rfl⟩
  obtain ⟨tmp',acc',hacc',h0',hpos,hlen',heq⟩ := hfin
  obtain ⟨v,hv,hp⟩ := Option.map_eq_some_iff.mp (copyOut hacc' hlen')
  exact ⟨v,acc',heq.trans hv,hp,h0',hpos,hlen'⟩

end Linuxab.Shell
