import Linuxab.Base.Fold
import Linuxab.Desktop.Input

/-! Which keys stop the desktop with a panic. All accesses but those of the terminal commands are in
range by the types of the state; of the commands only `cat` can fail, on a line that is wider than
the screen. -/
namespace Linuxab.Desktop
open Linuxab.Base
open Linuxab.Shell (bytes strEq isBlank)

/-- The computation comes to an end with a value. -/
def Succeeds {α : Type} (e : Except Stop α) : Prop := ∃ a, e = .ok a

lemma Succeeds.map {α β : Type} {e : Except Stop α} (h : Succeeds e) (f : α → β) : Succeeds (f <$> e) := by
  obtain ⟨a,rfl⟩ := h
  exact ⟨f a,rfl⟩

lemma Succeeds.not_panicked {α : Type} {e : Except Stop α} (h : Succeeds e) : e ≠ .error .panicked := by
  obtain ⟨a,rfl⟩ := h
  exact nofun

section Lines
variable {d : DesktopState}

lemma termAddLineBytes_of_le {s : List UInt8} (h : s.length ≤ 80) : termAddLineBytes d s = .ok (pushLine d s h) :=
  dif_pos (by omega)

lemma termAddLineBytes_of_lt {s : List UInt8} (h : 80 < s.length) : termAddLineBytes d s = .error .panicked :=
  dif_neg (by omega)

lemma termAddLine_succeeds {s : String} (h : (bytes s).length ≤ 80) : Succeeds (termAddLine d s) :=
  ⟨_,termAddLineBytes_of_le h⟩

/-- `cat` fails exactly if a line of the text has more than 80 bytes. -/
lemma catLines_panicked_iff {line : List UInt8} (hline : 10 ∉ line) (data : List UInt8) :
    catLines d line data = .error .panicked ↔ ∃ l ∈ (line ++ data).splitOn 10, 80 < l.length := by
  induction data generalizing d line with
  | nil =>
    have hsplit : (line ++ []).splitOn 10 = [line] := by rw [List.append_nil,List.splitOn_eq_singleton hline]
    rw [hsplit,catLines]
    by_cases hlong : 80 < line.length
    · have hne : line ≠ [] := by rintro rfl; simp at hlong
      simp [hne,termAddLineBytes_of_lt hlong,hlong]
    · have hok := termAddLineBytes_of_le (d := d) (Nat.le_of_not_lt hlong)
      by_cases hne : line = [] <;> simp_all
  | cons b data ih =>
    by_cases hb : b = 10
    · subst hb
      have hsplit : (line ++ 10::data).splitOn 10 = line::data.splitOn 10 := by
        rw [List.splitOn_append_cons_self,List.splitOn_eq_singleton hline]
        rfl
      rw [hsplit,catLines,if_pos rfl]
      by_cases hlong : 80 < line.length
      · rw [termAddLineBytes_of_lt hlong]
        simp [hlong,bind,Except.bind]
      · rw [termAddLineBytes_of_le (Nat.le_of_not_lt hlong)]
        simp [bind,Except.bind,ih,hlong]
    · have hcons : line ++ b::data = line ++ [b] ++ data := by simp
      rw [catLines,if_neg hb,hcons]
      exact ih (by simpa [hline] using Ne.symm hb)

end Lines

section Words

/-- An open word has its place among the eight arguments. -/
def WordScan.HasRoom (w : WordScan) : Prop := w.args.length ≤ 8 ∧ (w.inWord = true → w.args.length < 8)

lemma WordScan.HasRoom.step {w : WordScan} (h : w.HasRoom) (b : UInt8) : (w.step b).HasRoom := by
  unfold WordScan.step
  split_ifs with _ hin hroom
  · have := h.2 hin
    exact ⟨by simp; omega,by simp⟩
  · exact h
  · exact ⟨h.1,fun _ => hroom.1⟩
  · exact h

/-- Eight words are the most that the parser finds. -/
lemma length_splitWords_le (line : List UInt8) : (splitWords line).length ≤ 8 := by
  have hscan : (line.foldl WordScan.step ⟨[],[],false⟩).HasRoom :=
    List.foldlRecOn line _ ⟨by simp,by simp⟩ fun w h b _ => h.step b
  unfold splitWords
  simp only
  split
  · next hin =>
    have := hscan.2 hin
    simp
    omega
  · exact hscan.1

/-- The loops over the arguments stay inside their array. -/
lemma exists_argsFrom {args : List (List UInt8)} (h : args.length ≤ 8) (k : ℕ) : ∃ words, argsFrom k args = some words := by
  apply exists_mapM
  intro i hi
  rw [List.mem_range'_1] at hi
  exact ⟨_,if_pos (by omega)⟩

lemma exists_writeBlank {buf : List UInt8} (h : buf.length ≤ 1024) :
    ∃ b, writeBlank buf = some b ∧ b.length ≤ 1024 := by
  unfold writeBlank
  split
  · exact ⟨_,fill?_of_le (by simp; omega),by simp; omega⟩
  · exact ⟨buf,rfl,h⟩

lemma exists_writeWord {buf : List UInt8} (w : List UInt8) (h : buf.length ≤ 1024) :
    ∃ b, writeWord buf w = some b ∧ b.length ≤ 1024 := by
  obtain ⟨b,hb,hlen⟩ := exists_writeBlank h
  have hfit : b.length+(w.take (min w.length (1024-b.length))).length ≤ 1024 := by simp; omega
  refine ⟨b ++ w.take (min w.length (1024-b.length)),?_,by simpa using hfit⟩
  simp only [writeWord,hb,Option.bind_eq_bind,Option.bind_some,fill?_of_le hfit]

/-- An echoed line fits on the screen. -/
lemma exists_echoLine (line : List UInt8) (h : line.length ≤ 80) (words : List (List UInt8)) :
    ∃ line', echoLine line words = some line' ∧ line'.length ≤ 80 := by
  induction words generalizing line with
  | nil => exact ⟨line,rfl,h⟩
  | cons w words ih =>
    unfold echoLine
    split
    · exact ⟨line,rfl,h⟩
    · have hfit : line.length+w.length ≤ 80 := by omega
      simp only [fill?_of_le hfit,Option.bind_eq_bind,Option.bind_some]
      split
      · next hroom =>
        have hblank : (line ++ w).length+[(32 : UInt8)].length ≤ 80 := by simp at hroom ⊢; omega
        simp only [fill?_of_le hblank,Option.bind_some]
        exact ih _ (by simp at hblank ⊢; omega)
      · exact ih _ (by simpa using hfit)

end Words

section Commands
variable {d : DesktopState}

lemma lsRoom_succeeds {st : DesktopState × List UInt8} (h : st.2.length ≤ 79) {name : List UInt8}
    (hname : name.length ≤ 32) : ∃ st', lsRoom st name = .ok st' ∧ st'.2.length+name.length+2 ≤ 79 := by
  unfold lsRoom
  split
  · rw [termAddLineBytes_of_le (by omega)]
    exact ⟨_,rfl,by simp; omega⟩
  · exact ⟨st,rfl,by omega⟩

/-- A line of the listing never fills the screen. -/
lemma lsStep_succeeds {st : DesktopState × List UInt8} (h : st.2.length ≤ 79) (i : Fin 32) :
    ∃ st', lsStep st i = .ok st' ∧ st'.2.length ≤ 79 := by
  unfold lsStep
  split
  · obtain ⟨st',he,hfit⟩ := lsRoom_succeeds h (length_fileName_le (st.1.fs i))
    generalize fileName (st.1.fs i) = name at he hfit
    have h₁ : st'.2.length+name.length ≤ 80 := by omega
    have h₂ : (st'.2 ++ name).length+[(32 : UInt8)].length ≤ 80 := by simp; omega
    have h₃ : (st'.2 ++ name ++ [32]).length+[(32 : UInt8)].length ≤ 80 := by simp; omega
    simp only [he,bind,Except.bind,fill?_of_le h₁,fill?_of_le h₂,fill?_of_le h₃,checked_some]
    exact ⟨_,rfl,by simp; omega⟩
  · exact ⟨st,rfl,h⟩

lemma termLs_succeeds : Succeeds (termLs d) := by
  obtain ⟨st,he,h⟩ : ∃ st, (List.finRange 32).foldlM lsStep (d,[]) = .ok st ∧ st.2.length ≤ 79 :=
    exists_foldlM (fun _ i h => lsStep_succeeds h i) _ (Nat.zero_le _)
  unfold termLs
  rw [he]
  simp only [bind,Except.bind]
  split
  · exact ⟨_,termAddLineBytes_of_le (by omega)⟩
  · exact termAddLine_succeeds (by decide)

lemma termWrite_succeeds {args : List (List UInt8)} (h : args.length ≤ 8) : Succeeds (termWrite d args) := by
  unfold termWrite
  split
  · obtain ⟨words,hwords⟩ := exists_argsFrom h 2
    obtain ⟨buf,hbuf,-⟩ : ∃ buf, words.foldlM writeWord [] = some buf ∧ buf.length ≤ 1024 :=
      exists_foldlM (fun _ w h => exists_writeWord w h) words (Nat.zero_le _)
    simp only [argAt,hwords,hbuf,bind,Except.bind,checked_some,if_true,Nat.one_lt_ofNat]
    split <;> exact termAddLine_succeeds (by decide)
  · exact termAddLine_succeeds (by decide)

lemma termRm_succeeds (args : List (List UInt8)) : Succeeds (termRm d args) := by
  unfold termRm
  split
  · simp only [argAt,bind,Except.bind,checked_some,if_true,Nat.one_lt_ofNat]
    split <;> exact termAddLine_succeeds (by decide)
  · exact termAddLine_succeeds (by decide)

lemma termEcho_succeeds {args : List (List UInt8)} (h : args.length ≤ 8) : Succeeds (termEcho d args) := by
  obtain ⟨words,hwords⟩ := exists_argsFrom h 1
  obtain ⟨line,hline,hlen⟩ := exists_echoLine [] (by simp) words
  simp only [termEcho,hwords,hline,bind,Except.bind,checked_some]
  exact ⟨_,termAddLineBytes_of_le hlen⟩

lemma termMem_succeeds : Succeeds (termMem d) := by
  obtain ⟨d',he⟩ := termAddLine_succeeds (d := d) (s := "Memory: Wire kernel_get_meminfo() for real stats.") (by decide)
  simp only [termMem,he,bind,Except.bind]
  exact termAddLine_succeeds (by decide)

end Commands

section Exec
variable {d : DesktopState}

/-- The file named by the first argument has a line of more than 80 bytes. -/
def HasLongLine (fs : FsTable) (args : List (List UInt8)) : Prop :=
  ∃ name data, args[1]? = some name ∧ fsRead fs name = some data ∧ ∃ line ∈ data.splitOn 10, 80 < line.length

lemma termCat_panicked_iff (args : List (List UInt8)) :
    termCat d args = .error .panicked ↔ HasLongLine d.fs args := by
  unfold termCat HasLongLine
  split
  · next hargs =>
    obtain ⟨name,hget⟩ : ∃ name, args[1]? = some name := ⟨_,List.getElem?_eq_getElem hargs⟩
    have harg : argAt args 1 = some name := by simp [argAt,hget]
    simp only [harg,bind,Except.bind,checked_some,hget,Option.some_inj]
    cases hread : fsRead d.fs name with
    | none =>
      have := (termAddLine_succeeds (d := d) (s := "cat: file not found") (by decide)).not_panicked
      simp [this,hread]
    | some data =>
      simp only [catLines_panicked_iff (show (10 : UInt8) ∉ ([] : List UInt8) by simp),List.nil_append]
      simp [hread]
  · next hargs =>
    have hget : args[1]? = none := List.getElem?_eq_none (by omega)
    have := (termAddLine_succeeds (d := d) (s := "usage: cat <file>") (by decide)).not_panicked
    simp [this,hget]

/-- Of all commands only `cat` can panic. -/
lemma runTermCommand_panicked_iff {args : List (List UInt8)} (h : args.length ≤ 8) (cmd : Option TermCommand) :
    runTermCommand d args cmd = .error .panicked ↔ cmd = some .cat ∧ HasLongLine d.fs args := by
  have hfine : ∀ {e : Except Stop DesktopState}, Succeeds e → cmd ≠ some .cat →
      (promptAgain <$> e = .error .panicked ↔ cmd = some .cat ∧ HasLongLine d.fs args) := by
    intro e he hcmd
    simp [(he.map promptAgain).not_panicked,hcmd]
  match cmd with
  | some .help => exact hfine (termAddLine_succeeds (by decide)) (by decide)
  | some .clear => simp [runTermCommand]
  | some .ls => exact hfine termLs_succeeds (by decide)
  | some .cat =>
    simp only [runTermCommand,true_and]
    rw [← termCat_panicked_iff]
    cases termCat d args <;> simp [Functor.map,Except.map]
  | some .write => exact hfine (termWrite_succeeds h) (by decide)
  | some .rm => exact hfine (termRm_succeeds args) (by decide)
  | some .echo => exact hfine (termEcho_succeeds h) (by decide)
  | some .mem => exact hfine termMem_succeeds (by decide)
  | some .reboot =>
    obtain ⟨d',he⟩ := termAddLine_succeeds (d := d) (s := "Rebooting...") (by decide)
    simp [runTermCommand,he,bind,Except.bind]
  | some .quit => simp [runTermCommand]
  | none => exact hfine (termAddLine_succeeds (by decide)) (by decide)

lemma length_typedLine_le (d : DesktopState) : (typedLine d).length ≤ 77 := by
  have hdrop : ∀ l : List UInt8, (l.dropWhile isBlank).length ≤ l.length := fun l => (List.dropWhile_suffix _).length_le
  have hpos := d.termInputPos_le
  have h₁ := hdrop ((d.termInputBuf.toList.take d.termInputPos).dropWhile isBlank).reverse
  have h₂ := hdrop (d.termInputBuf.toList.take d.termInputPos)
  simp only [typedLine,trimBytes,List.length_reverse,List.length_take] at *
  omega

/-- The typed line is `cat` with a file that has a line of more than 80 bytes. -/
def CatsLongLine (d : DesktopState) : Prop :=
  termCommandOf ((splitWords (typedLine d)).headD []) = some .cat ∧ HasLongLine d.fs (splitWords (typedLine d))

lemma termExec_panicked_iff : termExec d = .error .panicked ↔ CatsLongLine d := by
  unfold termExec
  split
  · next hempty =>
    have hnone : termCommandOf ((splitWords []).headD []) ≠ some .cat := by decide
    rw [CatsLongLine,hempty]
    exact ⟨nofun,fun h => absurd h.1 hnone⟩
  · have hlen := length_typedLine_le d
    have hprompt : promptLine (typedLine d) = some ([36,32] ++ typedLine d) := if_pos (by omega)
    have hadd : ([36,32] ++ typedLine d).length ≤ 80 := by simp; omega
    simp only [hprompt,checked_some,bind,Except.bind,termAddLineBytes_of_le hadd]
    exact runTermCommand_panicked_iff (length_splitWords_le _) _

end Exec

/-- The key runs a `cat` of a file with a line of more than 80 bytes. -/
def RunsLongCat (d : DesktopState) (c : UInt8) : Prop :=
  d.activeApp = .terminal ∧ (c = 10 ∨ c = 13) ∧ CatsLongLine d

lemma desktopInputChar_panicked_iff (d : DesktopState) (c : UInt8) :
    desktopInputChar d c = .error .panicked ↔ RunsLongCat d c := by
  unfold desktopInputChar RunsLongCat
  split
  · next happ => simp [happ]
  · next happ =>
    simp only [happ,true_and]
    unfold termInput
    split
    · next hc => rw [termExec_panicked_iff]; simp [hc]
    · next hc => split_ifs <;> simp [hc]
  · next happ => simp [happ]
  · next happ => simp [happ]
  · next happ => simp [happ]

/-- A sequence of keys ends in a panic exactly if one of them runs a `cat` of a file with a line of
more than 80 bytes. -/
theorem pressKeys_panicked_iff (keys : List UInt8) :
    pressKeys desktopInit keys = .error .panicked ↔
      ∃ pre c post d, keys = pre ++ c::post ∧ pressKeys desktopInit pre = .ok d ∧ RunsLongCat d c := by
  simp only [pressKeys,foldlM_error_iff,desktopInputChar_panicked_iff]

def isPanicked {α : Type} : Except Stop α → Bool
  | .error .panicked => true
  | _ => false

lemma eq_panicked_of_isPanicked {α : Type} {e : Except Stop α} (h : isPanicked e = true) : e = .error .panicked := by
  cases e with
  | ok a => cases h
  | error stop =>
    cases stop with
    | panicked => rfl
    | rebooted => cases h

/-- The editor is opened, 81 bytes are typed and saved, and the terminal is asked for the file. -/
def crashKeys : List UInt8 :=
  bytes "ddd\n" ++ List.replicate 81 120 ++ [0x13,0x11] ++ bytes "aaa\ncat untitled.txt\n"

theorem pressKeys_crashKeys : pressKeys desktopInit crashKeys = .error .panicked :=
  eq_panicked_of_isPanicked (by decide +kernel)

end Linuxab.Desktop
