import Linuxab.Desktop.EditorSave
import Linuxab.Desktop.Safety

/-! What the terminal's `write` stores. The argument parser keeps eight words of 32 bytes and drops the
rest of the line in silence, and the command reports `ok` all the same. -/
namespace Linuxab.Desktop
open Linuxab.Base
open Linuxab.Shell (bytes copyBytes strlen take_strlen isBlank)

section Scan
variable {args : List (List UInt8)} {word w : List UInt8}

lemma WordScan.foldl_step_full (h : 8 ≤ args.length) (line : List UInt8) :
    line.foldl WordScan.step ⟨args,[],false⟩ = ⟨args,[],false⟩ := by
  induction line with
  | nil => rfl
  | cons b line ih =>
    have hstep : WordScan.step ⟨args,[],false⟩ b = ⟨args,[],false⟩ := by
      simp [WordScan.step,Nat.not_lt.mpr h]
    rw [List.foldl_cons,hstep,ih]

lemma WordScan.foldl_step_inWord (h : args.length < 8) (hw : 32 ∉ w) (hlen : word.length ≤ 32) :
    w.foldl WordScan.step ⟨args,word,true⟩ = ⟨args,(word ++ w).take 32,true⟩ := by
  induction w generalizing word with
  | nil => rw [List.append_nil,List.take_of_length_le hlen]; rfl
  | cons b w ih =>
    obtain ⟨hb,hw⟩ := not_or.mp (List.mem_cons.not.mp hw)
    rw [List.foldl_cons,WordScan.step,if_neg (Ne.symm hb)]
    by_cases hroom : word.length < 32
    · rw [if_pos ⟨h,hroom⟩,ih hw (by simp; omega),List.append_assoc,List.singleton_append]
    · -- the word is full: both sides are its 32 bytes
      rw [if_neg fun hc => hroom hc.2,ih hw hlen,List.take_append_of_le_length (by omega),
        List.take_append_of_le_length (by omega)]

/-- A word is cut at 32 bytes. -/
lemma WordScan.foldl_step_word (h : args.length < 8) (hw : 32 ∉ w) (hne : w ≠ []) :
    w.foldl WordScan.step ⟨args,[],false⟩ = ⟨args,w.take 32,true⟩ := by
  cases w with
  | nil => exact absurd rfl hne
  | cons b w =>
    obtain ⟨hb,hw⟩ := not_or.mp (List.mem_cons.not.mp hw)
    rw [List.foldl_cons,WordScan.step,if_neg (Ne.symm hb),if_pos ⟨h,by simp⟩]
    exact foldl_step_inWord h hw (by simp)

/-- The words behind the loop. -/
def WordScan.finish (w : WordScan) : List (List UInt8) := if w.inWord then w.args ++ [w.word] else w.args

lemma WordScan.finish_intercalate (words : List (List UInt8)) (hargs : args.length ≤ 8)
    (hwords : ∀ w ∈ words, 32 ∉ w ∧ w ≠ []) :
    (([32].intercalate words).foldl WordScan.step ⟨args,[],false⟩).finish
      = (args ++ words.map (·.take 32)).take 8 := by
  induction words generalizing args with
  | nil => simp [finish,List.take_of_length_le hargs]
  | cons w words ih =>
    obtain ⟨hw,hwords⟩ := List.forall_mem_cons.mp hwords
    rcases Nat.lt_or_eq_of_le hargs with hlt | heq
    · cases words with
      | nil =>
        have hfit : (args ++ [w].map (·.take 32)).length ≤ 8 := by simp; omega
        rw [List.intercalate_singleton,foldl_step_word hlt hw.1 hw.2,List.take_of_length_le hfit]
        rfl
      | cons v words =>
        rw [List.intercalate_cons_cons,List.foldl_append,List.foldl_append,foldl_step_word hlt hw.1 hw.2]
        have := @ih (args ++ [w.take 32]) (by simp; omega) hwords
        rw [List.append_assoc] at this
        exact this
    · rw [foldl_step_full (by omega),List.take_append_of_le_length (by omega),List.take_of_length_le hargs]
      rfl

/-- Words between single blanks: the first eight, each cut at 32 bytes. -/
theorem splitWords_intercalate {words : List (List UInt8)} (hwords : ∀ w ∈ words, 32 ∉ w ∧ w ≠ []) :
    splitWords ([32].intercalate words) = (words.map (·.take 32)).take 8 :=
  @WordScan.finish_intercalate [] words (by simp) hwords

end Scan

section Join
variable {args words : List (List UInt8)}

lemma argsFrom_eq (h : args.length ≤ 8) (k : ℕ) : argsFrom k args = some (args.drop k) := by
  have hget : ∀ i ∈ List.range' k (args.length-k), argAt args i = some (args.getD i []) := by
    intro i hi
    rw [List.mem_range'_1] at hi
    exact if_pos (by omega)
  rw [argsFrom,mapM_eq_map hget]
  congr 1
  apply List.ext_getElem
  · simp
  · intro i hi _
    have hlt : k+i < args.length := by simp at hi; omega
    simp [List.getD_eq_getElem?_getD,List.getElem?_eq_getElem hlt]

lemma foldlM_writeWord {buf : List UInt8} (hpos : 0 < buf.length)
    (hfit : buf.length+(words.flatMap (32::·)).length ≤ 1023) :
    words.foldlM writeWord buf = some (buf ++ words.flatMap (32::·)) := by
  induction words generalizing buf with
  | nil => simp
  | cons w words ih =>
    simp only [List.flatMap_cons,List.length_append,List.length_cons] at hfit
    have hblank : writeBlank buf = some (buf ++ [32]) := by
      rw [writeBlank,if_pos ⟨hpos,by omega⟩,fill?_of_le (by simp; omega)]
    have hword : writeWord buf w = some (buf ++ 32::w) := by
      have hmin : min w.length (1024-(buf ++ [32]).length) = w.length := by simp; omega
      rw [writeWord,hblank]
      change fill? 1024 (buf ++ [32]) (w.take (min w.length (1024-(buf ++ [32]).length))) = _
      rw [hmin,List.take_length,fill?_of_le (by simp; omega),List.append_assoc,List.singleton_append]
    rw [List.foldlM_cons,hword]
    change words.foldlM writeWord (buf ++ 32::w) = _
    rw [ih (by simp) (by rw [List.length_append,List.length_cons]; omega),List.append_assoc,List.flatMap_cons]

/-- Words that fit the buffer are joined by single blanks. -/
lemma foldlM_writeWord_intercalate (hne : ∀ w ∈ words, w ≠ []) (hfit : ([32].intercalate words).length ≤ 1023) :
    words.foldlM writeWord [] = some ([32].intercalate words) := by
  cases words with
  | nil => rfl
  | cons w words =>
    have hpos : 0 < w.length := List.length_pos_iff.mpr (hne w (by simp))
    rw [intercalate_cons] at hfit ⊢
    rw [List.length_append] at hfit
    have hword : writeWord [] w = some w := by
      have hmin : min w.length (1024-([] : List UInt8).length) = w.length := by simp; omega
      change fill? 1024 [] (w.take (min w.length (1024-([] : List UInt8).length))) = _
      rw [hmin,List.take_length,fill?_of_le (by simp; omega),List.nil_append]
    rw [List.foldlM_cons,hword]
    exact foldlM_writeWord hpos hfit

/-- Joined words without blanks fall apart again, so equal texts come from equal words. -/
lemma intercalate_inj {vs : List (List UInt8)} (hws : words ≠ []) (hvs : vs ≠ []) (hw : ∀ w ∈ words, 32 ∉ w)
    (hv : ∀ w ∈ vs, 32 ∉ w) (h : [32].intercalate words = [32].intercalate vs) : words = vs := by
  rw [← List.splitOn_intercalate 32 hw hws,h,List.splitOn_intercalate 32 hv hvs]

end Join

section Command
variable {d d' : DesktopState} {name : List UInt8} {words : List (List UInt8)}

/-- A non-empty run of printable bytes other than the blank. -/
def IsWord (w : List UInt8) : Prop := w ≠ [] ∧ ∀ b ∈ w, 0x21 ≤ b ∧ b ≤ 0x7E

instance (w : List UInt8) : Decidable (IsWord w) := inferInstanceAs (Decidable (_ ∧ _))

lemma IsWord.not_mem {w : List UInt8} (h : IsWord w) {b : UInt8} (hb : b < 0x21) : b ∉ w := by
  intro hmem
  exact UInt8.not_le.mpr hb (h.2 b hmem).1

/-- The bytes typed so far. -/
def inputLine (d : DesktopState) : List UInt8 := d.termInputBuf.toList.take d.termInputPos

/-- `write name w1 ... wn` -/
def writeLine (name : List UInt8) (words : List (List UInt8)) : List UInt8 :=
  [32].intercalate (bytes "write"::name::words)

/-- The lines the terminal shows. -/
def scrollback (d : DesktopState) : List (List UInt8) :=
  ((List.finRange 18).take d.termLineCount).map fun i => text (d.termLines i).toList

/-- What the parser keeps of the words. -/
def keptWords (words : List (List UInt8)) : List (List UInt8) := (words.map (·.take 32)).take 6

def keptText (words : List (List UInt8)) : List UInt8 := [32].intercalate (keptWords words)

def writeAnswer (ok : Bool) : String := if ok then "ok" else "write: failed"

/-- The file has the text, and every file with another name is as before. -/
structure StoresText (fs fs' : FsTable) (name data : List UInt8) : Prop where
  read : fsRead fs' name = some data
  kept : ∀ i, (fs i).used = true → fileName (fs i) ≠ name → fs' i = fs i

lemma scrollback_pushLine (d : DesktopState) {s : List UInt8} (hs : s.length < 80) (hnul : 0 ∉ s)
    (h : s.length ≤ 80) : (scrollback (pushLine d s h)).getLast? = some s := by
  have hlast : ∀ i (hi : i < 18), ((List.finRange 18).take (i+1)).getLast? = some ⟨i,hi⟩ := by
    intro i hi
    simp [List.getLast?_take,List.getElem?_eq_getElem (l := List.finRange 18) (i := i) (by simpa using hi)]
  rw [scrollback,List.getLast?_map]
  change ((List.finRange 18).take (min d.termLineCount 17+1)).getLast?.map _ = _
  rw [hlast _ (by omega),Option.map_some]
  simp only [pushLine,Function.update_self,toList_blit,List.take_zero,List.nil_append,Nat.zero_add]
  obtain ⟨k,hk⟩ : ∃ k, 80-s.length = k+1 := ⟨79-s.length,by omega⟩
  change some (text (s ++ (List.replicate 80 (0 : UInt8)).drop s.length)) = some s
  rw [List.drop_replicate,hk,List.replicate_succ,text_append_nul hnul]

/-- Nothing is cut off a line that neither begins nor ends with a blank. -/
lemma trimBytes_eq {s : List UInt8} (hhead : ∀ b ∈ s.head?, isBlank b = false)
    (hlast : ∀ b ∈ s.getLast?, isBlank b = false) : trimBytes s = s := by
  have hdrop : ∀ l : List UInt8, (∀ b ∈ l.head?, isBlank b = false) → l.dropWhile isBlank = l := by
    intro l hl
    cases l with
    | nil => rfl
    | cons b l => rw [List.dropWhile_cons_of_neg (by simp [hl b rfl])]
  rw [trimBytes,hdrop s hhead,hdrop _ (by rwa [List.head?_reverse]),List.reverse_reverse]

lemma getLast?_intercalate (hne : ∀ w ∈ words, w ≠ []) :
    ∀ b ∈ ([32].intercalate words).getLast?, ∃ w ∈ words, b ∈ w := by
  induction words with
  | nil => simp
  | cons w words ih =>
    obtain ⟨hw,hne⟩ := List.forall_mem_cons.mp hne
    intro b hb
    cases words with
    | nil => exact ⟨w,by simp,List.mem_of_getLast? (by simpa using hb)⟩
    | cons v words =>
      have hv : [32].intercalate (v::words) ≠ [] := by
        rw [intercalate_cons]
        exact List.append_ne_nil_of_left_ne_nil (hne v (by simp)) _
      rw [List.intercalate_cons_cons,List.getLast?_append_of_ne_nil _ hv] at hb
      obtain ⟨u,hu,hbu⟩ := ih hne b hb
      exact ⟨u,List.mem_cons_of_mem w hu,hbu⟩

lemma forall_isWord (hname : IsWord name) (hwords : ∀ w ∈ words, IsWord w) :
    ∀ w ∈ bytes "write"::name::words, IsWord w :=
  List.forall_mem_cons.mpr ⟨by decide +kernel,List.forall_mem_cons.mpr ⟨hname,hwords⟩⟩

lemma typedLine_write (hname : IsWord name) (hwords : ∀ w ∈ words, IsWord w)
    (hline : inputLine d = writeLine name words) : typedLine d = writeLine name words := by
  have hblank : ∀ {w : List UInt8}, IsWord w → ∀ b ∈ w, isBlank b = false := by
    intro w hw b hb
    have h32 : b ≠ 32 := by rintro rfl; exact hw.not_mem (by decide) hb
    have h9 : b ≠ 9 := by rintro rfl; exact hw.not_mem (by decide) hb
    simp [isBlank,h32,h9]
  have hall := forall_isWord hname hwords
  rw [typedLine,← inputLine,hline]
  apply trimBytes_eq
  · intro b hb
    rw [writeLine,intercalate_cons] at hb
    obtain rfl : 119 = b := Option.some.inj hb
    rfl
  · intro b hb
    obtain ⟨w,hw,hbw⟩ := getLast?_intercalate (fun w hw => (hall w hw).1) b hb
    exact hblank (hall w hw) b hbw

lemma splitWords_writeLine (hname : IsWord name) (hwords : ∀ w ∈ words, IsWord w) :
    splitWords (writeLine name words) = bytes "write"::name.take 32::keptWords words := by
  have hall := forall_isWord hname hwords
  exact splitWords_intercalate fun w hw => ⟨(hall w hw).not_mem (by decide),(hall w hw).1⟩

lemma length_keptWords_le (words : List (List UInt8)) : (keptWords words).length ≤ 6 := by
  simp [keptWords]

lemma exists_of_mem_keptWords {w : List UInt8} (h : w ∈ keptWords words) : ∃ v ∈ words, w = v.take 32 := by
  obtain ⟨v,hv,rfl⟩ := List.mem_map.mp (List.mem_of_mem_take h)
  exact ⟨v,hv,rfl⟩

/-- Six words of 32 bytes are far from filling the buffer. -/
lemma length_keptText_le (words : List (List UInt8)) : (keptText words).length ≤ 1023 := by
  have hsum : ∀ ws : List (List UInt8), (∀ w ∈ ws, w.length ≤ 32) → (ws.flatMap (32::·)).length ≤ 33*ws.length := by
    intro ws hws
    induction ws with
    | nil => simp
    | cons w ws ih =>
      obtain ⟨hw,hws⟩ := List.forall_mem_cons.mp hws
      have := ih hws
      rw [List.flatMap_cons,List.length_append,List.length_cons,List.length_cons]
      omega
  have hshort : ∀ w ∈ keptWords words, w.length ≤ 32 := by
    intro w hw
    obtain ⟨v,-,rfl⟩ := exists_of_mem_keptWords hw
    simp
  have hlen := length_keptWords_le words
  unfold keptText
  cases hk : keptWords words with
  | nil => simp
  | cons w ws =>
    rw [hk] at hshort hlen
    obtain ⟨hw,hws⟩ := List.forall_mem_cons.mp hshort
    have := hsum ws hws
    rw [List.length_cons] at hlen
    rw [intercalate_cons,List.length_append]
    omega

lemma termWrite_effect (hwords : ∀ w ∈ words, IsWord w) (hne : words ≠ []) (d : DesktopState) :
    ∃ d', termWrite d (bytes "write"::name.take 32::keptWords words) = .ok d' ∧
      d'.fs = (fsWrite d.fs (name.take 32) (keptText words)).2 ∧
      (scrollback d').getLast? = some (bytes (writeAnswer (fsWrite d.fs (name.take 32) (keptText words)).1)) := by
  have hargs : (bytes "write"::name.take 32::keptWords words).length ≤ 8 := by
    have := length_keptWords_le words
    rw [List.length_cons,List.length_cons]
    omega
  have hmore : 2 < (bytes "write"::name.take 32::keptWords words).length := by
    have : 0 < words.length := List.length_pos_iff.mpr hne
    simp [keptWords]
    omega
  have hjoin : (keptWords words).foldlM writeWord [] = some (keptText words) := by
    apply foldlM_writeWord_intercalate _ (length_keptText_le words)
    intro v hv
    obtain ⟨u,hu,rfl⟩ := exists_of_mem_keptWords hv
    simpa using (hwords u hu).1
  have hanswer : ∀ ok, (bytes (writeAnswer ok)).length < 80 ∧ 0 ∉ bytes (writeAnswer ok) := by decide
  obtain ⟨hshort,hnul⟩ := hanswer (fsWrite d.fs (name.take 32) (keptText words)).1
  rw [termWrite,if_pos hmore]
  simp only [argsFrom_eq hargs,List.drop_succ_cons,List.drop_zero,hjoin,checked_some,bind,Except.bind]
  exact ⟨_,termAddLineBytes_of_le (Nat.le_of_lt hshort),rfl,scrollback_pushLine _ hshort hnul _⟩

/-- The whole effect of the command: one write under the cut name, and the answer in the last line. -/
lemma termExec_write (hname : IsWord name) (hwords : ∀ w ∈ words, IsWord w) (hne : words ≠ [])
    (hline : inputLine d = writeLine name words) :
    ∃ d', termExec d = .ok d' ∧ d'.fs = (fsWrite d.fs (name.take 32) (keptText words)).2 ∧
      (scrollback d').getLast? = some (bytes (writeAnswer (fsWrite d.fs (name.take 32) (keptText words)).1)) := by
  have htyped := typedLine_write hname hwords hline
  have hlen := length_typedLine_le d
  have hnil : typedLine d ≠ [] := by
    rw [htyped,writeLine,intercalate_cons]
    exact List.append_ne_nil_of_left_ne_nil (by decide) _
  have hprompt : promptLine (typedLine d) = some ([36,32] ++ typedLine d) := if_pos (by omega)
  have hadd : ([36,32] ++ typedLine d).length ≤ 80 := by simp; omega
  have hsplit : splitWords (typedLine d) = bytes "write"::name.take 32::keptWords words := by
    rw [htyped,splitWords_writeLine hname hwords]
  have hcmd : termCommandOf (bytes "write") = some .write := by decide
  obtain ⟨d',hwrite,hfs,hlast⟩ := @termWrite_effect name words hwords hne (pushLine d _ hadd)
  refine ⟨promptAgain d',?_,hfs,hlast⟩
  rw [termExec,if_neg hnil]
  simp only [hprompt,checked_some,bind,Except.bind,termAddLineBytes_of_le hadd,hsplit,List.headD_cons,hcmd]
  rw [runTermCommand,hwrite]
  rfl

end Command

section Stored
variable {fs : FsTable} {name data : List UInt8} {words : List (List UInt8)}

lemma HasRoom.of_fsWrite (h : (fsWrite fs name data).1 = true) : HasRoom fs name := by
  unfold fsWrite at h
  cases hf : fsFind fs name with
  | some i => exact .inl (by simp [hf])
  | none =>
    simp only [hf,fsCreate,Option.isSome_none,Bool.false_eq_true,if_false] at h
    split at h
    · next i hi =>
      have hfree := List.find?_some hi
      exact .inr ⟨i,by simpa using hfree⟩
    · cases h

/-- A write changes the file it found or takes an unused slot. -/
lemma fsWrite_kept {i : Fin 32} (hused : (fs i).used = true) (hname : fileName (fs i) ≠ text name) :
    (fsWrite fs name data).2 i = fs i := by
  unfold fsWrite
  cases hf : fsFind fs name with
  | some j =>
    refine Function.update_of_ne ?_ _ _
    rintro rfl
    exact hname (fsFind_some hf).2
  | none =>
    simp only [fsCreate,hf,Option.isSome_none,Bool.false_eq_true,if_false]
    split
    · next j hj =>
      have hfree := List.find?_some hj
      refine Function.update_of_ne ?_ _ _
      rintro rfl
      simp [hused] at hfree
    · rfl

/-- No file has a name of more than 32 bytes. -/
lemma fsRead_of_long (hnul : 0 ∉ name) (hlong : 32 < name.length) : fsRead fs name = none := by
  have hnone : fsFind fs name = none := by
    rw [Option.eq_none_iff_forall_ne_some]
    intro i hf
    have hle := length_fileName_le (fs i)
    rw [(fsFind_some hf).2,text_of_noNul hnul] at hle
    omega
  rw [fsRead,hnone,Option.map_none]

/-- Nothing is cut exactly if there are at most six words and none has more than 32 bytes. -/
lemma keptText_eq_iff (hwords : ∀ w ∈ words, IsWord w) (hne : words ≠ []) :
    keptText words = [32].intercalate words ↔ words.length ≤ 6 ∧ ∀ w ∈ words, w.length ≤ 32 := by
  constructor
  · intro h
    have hkept : keptWords words = words := by
      apply intercalate_inj _ hne _ _ h
      · cases words with
        | nil => exact absurd rfl hne
        | cons w words => exact List.cons_ne_nil _ _
      · intro w hw hblank
        obtain ⟨v,hv,rfl⟩ := exists_of_mem_keptWords hw
        exact (hwords v hv).not_mem (by decide) (List.mem_of_mem_take hblank)
      · exact fun w hw => (hwords w hw).not_mem (by decide)
    refine ⟨?_,fun w hw => ?_⟩
    · rw [← hkept]
      exact length_keptWords_le words
    · rw [← hkept] at hw
      obtain ⟨v,-,rfl⟩ := exists_of_mem_keptWords hw
      simp
  · rintro ⟨hcount,hshort⟩
    have hcut : words.map (·.take 32) = words := by
      conv_rhs => rw [← List.map_id words]
      exact List.map_congr_left fun w hw => List.take_of_length_le (hshort w hw)
    rw [keptText,keptWords,hcut,List.take_of_length_le hcount]

/-- A line `write name w1 ... wn` always comes to its end, and if it reports `ok`, the file holds the
words and the others are as before exactly if nothing was too long for the argument parser. -/
theorem write_stores_iff {d : DesktopState} (hname : IsWord name) (hwords : ∀ w ∈ words, IsWord w)
    (hne : words ≠ []) (hline : inputLine d = writeLine name words) :
    ∃ d', termExec d = .ok d' ∧ ((scrollback d').getLast? = some (bytes "ok") →
      (StoresText d.fs d'.fs name ([32].intercalate words) ↔
        name.length ≤ 32 ∧ words.length ≤ 6 ∧ ∀ w ∈ words, w.length ≤ 32)) := by
  obtain ⟨d',hrun,hfs,hanswer⟩ := termExec_write hname hwords hne hline
  have hnul : 0 ∉ name := hname.not_mem (by decide)
  refine ⟨d',hrun,fun hok => ?_⟩
  have hroom : HasRoom d.fs (name.take 32) := by
    rw [hanswer] at hok
    cases hw : (fsWrite d.fs (name.take 32) (keptText words)).1 with
    | true => exact HasRoom.of_fsWrite hw
    | false =>
      rw [hw] at hok
      exact absurd hok (by decide)
  by_cases hlong : 32 < name.length
  · refine iff_of_false (fun h => ?_) (fun h => absurd h.1 (Nat.not_le.mpr hlong))
    have := h.read
    rw [fsRead_of_long hnul hlong] at this
    cases this
  · have hle : name.length ≤ 32 := Nat.not_lt.mp hlong
    rw [List.take_of_length_le hle] at hfs hroom
    have hread : fsRead d'.fs name = some (keptText words) := by
      rw [hfs]
      exact fsRead_fsWrite hle ((length_keptText_le words).trans (by decide)) hroom
    rw [and_iff_right hle,← keptText_eq_iff hwords hne]
    constructor
    · intro h
      exact Option.some.inj (hread.symm.trans h.read)
    · intro h
      refine ⟨by rw [hread,h],fun i hused hother => ?_⟩
      rw [hfs]
      exact fsWrite_kept hused (by rwa [text_of_noNul hnul])

/-- The first screen of the terminal with a line typed in. -/
def withLine (line : List UInt8) (h : line.length ≤ 77) : DesktopState :=
  { switchApp desktopInit .terminal with
    termInputBuf := copyBytes (List.Vector.replicate 78 0) line
    termInputPos := line.length
    termInputPos_le := h }

theorem write_stores_iff_two_words : ∃ d', termExec (withLine (bytes "write a.txt x y") (by decide)) = .ok d' ∧
    (scrollback d').getLast? = some (bytes "ok") ∧ fsRead d'.fs (bytes "a.txt") = some (bytes "x y") := by
  obtain ⟨d',hrun,hstores⟩ := @write_stores_iff (bytes "a.txt") [bytes "x",bytes "y"]
    (withLine (bytes "write a.txt x y") (by decide)) (by decide +kernel) (by decide +kernel) (by decide)
    (by decide +kernel)
  obtain ⟨d₁,hrun₁,hok⟩ := exists_of_holdsAfter (P := fun d => decide ((scrollback d).getLast? = some (bytes "ok")))
    (show holdsAfter _ (termExec (withLine (bytes "write a.txt x y") (by decide))) = true by decide +kernel)
  obtain rfl : d' = d₁ := Except.ok.inj (hrun.symm.trans hrun₁)
  have hok := of_decide_eq_true hok
  exact ⟨d',hrun,hok,((hstores hok).mpr (by decide)).read⟩

/-- The seventh word is lost. -/
theorem write_drops_word : ∃ d', termExec (withLine (bytes "write f a b c d e f g") (by decide)) = .ok d' ∧
    (scrollback d').getLast? = some (bytes "ok") ∧ fsRead d'.fs (bytes "f") = some (bytes "a b c d e f") ∧
    ¬ StoresText (withLine (bytes "write f a b c d e f g") (by decide)).fs d'.fs (bytes "f")
      (bytes "a b c d e f g") := by
  obtain ⟨d',hrun,hd'⟩ := exists_of_holdsAfter
    (P := fun d => decide ((scrollback d).getLast? = some (bytes "ok") ∧
      fsRead d.fs (bytes "f") = some (bytes "a b c d e f")))
    (show holdsAfter _ (termExec (withLine (bytes "write f a b c d e f g") (by decide))) = true by decide +kernel)
  obtain ⟨hok,hread⟩ := of_decide_eq_true hd'
  refine ⟨d',hrun,hok,hread,fun h => ?_⟩
  exact absurd (hread.symm.trans h.read) (by decide)

end Stored
end Linuxab.Desktop
