import Linuxab.Base.Fold
import Linuxab.Desktop.Input

/-! What a key changes apart from the app it goes to: it makes at most one call to the file system, and
an app is left for the desktop only. -/
namespace Linuxab.Desktop
open Linuxab.Base
open Linuxab.Shell (bytes strlen)

section Lines
variable {d d' d'' : DesktopState}

/-- The states differ in the scrollback only. -/
def SameButLines (d d' : DesktopState) : Prop :=
  ∃ lines count h, d' = { d with termLines := lines, termLineCount := count, termLineCount_le := h }

lemma SameButLines.refl (d : DesktopState) : SameButLines d d := ⟨d.termLines,d.termLineCount,d.termLineCount_le,rfl⟩

lemma SameButLines.trans (h : SameButLines d d') (h' : SameButLines d' d'') : SameButLines d d'' := by
  obtain ⟨_,_,_,rfl⟩ := h
  obtain ⟨lines,count,hle,rfl⟩ := h'
  exact ⟨lines,count,hle,rfl⟩

lemma SameButLines.fs (h : SameButLines d d') : d'.fs = d.fs := by
  obtain ⟨_,_,_,rfl⟩ := h
  rfl

lemma SameButLines.activeApp (h : SameButLines d d') : d'.activeApp = d.activeApp := by
  obtain ⟨_,_,_,rfl⟩ := h
  rfl

/-- If the command comes to an end, it has changed nothing but the scrollback. -/
def OnlyPrints (d : DesktopState) (e : Except Stop DesktopState) : Prop := ∀ d', e = .ok d' → SameButLines d d'

lemma OnlyPrints.bind {α : Type} {e : Except Stop α} {f : α → Except Stop DesktopState}
    (h : ∀ a, OnlyPrints d (f a)) : OnlyPrints d (e >>= f) := by
  intro d' hd
  obtain ⟨a,-,ha⟩ := bind_eq_ok.mp hd
  exact h a d' ha

lemma OnlyPrints.bind_state {e : Except Stop DesktopState} {f : DesktopState → Except Stop DesktopState}
    (he : OnlyPrints d e) (h : ∀ d₁, OnlyPrints d₁ (f d₁)) : OnlyPrints d (e >>= f) := by
  intro d' hd
  obtain ⟨d₁,h₁,h₂⟩ := bind_eq_ok.mp hd
  exact (he d₁ h₁).trans (h d₁ d' h₂)

lemma termAddLineBytes_onlyPrints (d : DesktopState) (s : List UInt8) : OnlyPrints d (termAddLineBytes d s) := by
  intro d' h
  unfold termAddLineBytes at h
  split at h
  · cases h
    exact ⟨_,_,_,rfl⟩
  · cases h

lemma termAddLine_onlyPrints (d : DesktopState) (s : String) : OnlyPrints d (termAddLine d s) :=
  termAddLineBytes_onlyPrints d (bytes s)

lemma catLines_onlyPrints (line data : List UInt8) (d : DesktopState) : OnlyPrints d (catLines d line data) := by
  induction data generalizing d line with
  | nil =>
    unfold catLines
    split
    · intro d' h
      cases h
      exact SameButLines.refl d
    · exact termAddLineBytes_onlyPrints d line
  | cons b data ih =>
    unfold catLines
    split
    · exact (termAddLineBytes_onlyPrints d line).bind_state (ih [])
    · exact ih (line ++ [b]) d

lemma lsStep_sameButLines {st st' : DesktopState × List UInt8} {i : Fin 32} (h : lsStep st i = .ok st') :
    SameButLines st.1 st'.1 := by
  unfold lsStep at h
  split at h
  · obtain ⟨st₁,hroom,h⟩ := bind_eq_ok.mp h
    obtain ⟨l₁,-,h⟩ := bind_eq_ok.mp h
    obtain ⟨l₂,-,h⟩ := bind_eq_ok.mp h
    obtain ⟨l₃,-,h⟩ := bind_eq_ok.mp h
    cases h
    unfold lsRoom at hroom
    split at hroom
    · obtain ⟨d₁,h₁,rfl⟩ := map_eq_ok.mp hroom
      exact termAddLineBytes_onlyPrints _ _ d₁ h₁
    · cases hroom
      exact SameButLines.refl _
  · cases h
    exact SameButLines.refl _

lemma termLs_onlyPrints (d : DesktopState) : OnlyPrints d (termLs d) := by
  intro d' h
  obtain ⟨st,hst,h⟩ := bind_eq_ok.mp h
  have hkeep : SameButLines d st.1 :=
    foldlM_ok_keeps (P := fun st => SameButLines d st.1) (fun s i t hs ht => hs.trans (lsStep_sameButLines ht))
      _ (SameButLines.refl d) hst
  apply hkeep.trans
  split at h
  · exact termAddLineBytes_onlyPrints _ _ d' h
  · exact termAddLine_onlyPrints _ _ d' h

lemma termCat_onlyPrints (d : DesktopState) (args : List (List UInt8)) : OnlyPrints d (termCat d args) := by
  unfold termCat
  split
  · apply OnlyPrints.bind
    intro name
    split
    · exact catLines_onlyPrints [] _ d
    · exact termAddLine_onlyPrints d _
  · exact termAddLine_onlyPrints d _

lemma termEcho_onlyPrints (d : DesktopState) (args : List (List UInt8)) : OnlyPrints d (termEcho d args) := by
  apply OnlyPrints.bind
  intro words
  apply OnlyPrints.bind
  intro line
  exact termAddLineBytes_onlyPrints d line

lemma termMem_onlyPrints (d : DesktopState) : OnlyPrints d (termMem d) := by
  apply (termAddLine_onlyPrints d _).bind_state
  intro d₁
  exact termAddLine_onlyPrints d₁ _

end Lines

/-- What one key does to the files: at most one call of the file system, with a name that fits. -/
inductive FsChange (fs : FsTable) : FsTable → Prop
  | same : FsChange fs fs
  | create (name data : List UInt8) (h : name.length ≤ 32) : FsChange fs (fsCreate fs name data).2
  | write (name data : List UInt8) (h : name.length ≤ 32) : FsChange fs (fsWrite fs name data).2
  | delete (name : List UInt8) : FsChange fs (fsDelete fs name).2

section Words

/-- No word has more than 32 bytes. -/
def WordScan.Short (w : WordScan) : Prop := (∀ a ∈ w.args, a.length ≤ 32) ∧ w.word.length ≤ 32

lemma WordScan.Short.step {w : WordScan} (h : w.Short) (b : UInt8) : (w.step b).Short := by
  unfold WordScan.step
  split_ifs with _ hin hroom
  · refine ⟨fun a ha => ?_,Nat.zero_le _⟩
    obtain ha | ha := List.mem_append.mp ha
    · exact h.1 a ha
    · rw [List.mem_singleton.mp ha]
      exact h.2
  · exact h
  · refine ⟨h.1,?_⟩
    rw [List.length_append]
    exact hroom.2
  · exact h

lemma length_of_mem_splitWords {line w : List UInt8} (h : w ∈ splitWords line) : w.length ≤ 32 := by
  have hscan : (line.foldl WordScan.step ⟨[],[],false⟩).Short :=
    List.foldlRecOn line _ ⟨nofun,Nat.zero_le _⟩ fun w h b _ => h.step b
  unfold splitWords at h
  dsimp only at h
  split at h
  · obtain h | h := List.mem_append.mp h
    · exact hscan.1 w h
    · rw [List.mem_singleton.mp h]
      exact hscan.2
  · exact hscan.1 w h

lemma length_of_argAt {args : List (List UInt8)} (hargs : ∀ w ∈ args, w.length ≤ 32) {i : ℕ} {w : List UInt8}
    (h : argAt args i = some w) : w.length ≤ 32 := by
  unfold argAt at h
  split at h
  · cases h
    rw [List.getD_eq_getElem?_getD]
    cases hi : args[i]? with
    | none => exact Nat.zero_le _
    | some a => exact hargs a (List.mem_of_getElem? hi)
  · cases h

end Words

section Commands
variable {d d' : DesktopState} {args : List (List UInt8)}

lemma checked_eq_ok {α : Type} {o : Option α} {a : α} : checked o = .ok a ↔ o = some a := by
  cases o with
  | none => simp [checked]
  | some b => simp [checked]

/-- The files may change, the active app does not. -/
structure Stays (d d' : DesktopState) : Prop where
  fs : FsChange d.fs d'.fs
  app : d'.activeApp = d.activeApp

lemma SameButLines.stays (h : SameButLines d d') : Stays d d' := by
  obtain ⟨_,_,_,rfl⟩ := h
  exact ⟨.same,rfl⟩

lemma termWrite_stays (hargs : ∀ w ∈ args, w.length ≤ 32) (h : termWrite d args = .ok d') : Stays d d' := by
  unfold termWrite at h
  split at h
  · obtain ⟨name,hname,h⟩ := bind_eq_ok.mp h
    obtain ⟨words,-,h⟩ := bind_eq_ok.mp h
    obtain ⟨buf,-,h⟩ := bind_eq_ok.mp h
    have hprint := termAddLine_onlyPrints { d with fs := (fsWrite d.fs name buf).2 } _ d' h
    refine ⟨?_,hprint.activeApp⟩
    rw [hprint.fs]
    exact .write name buf (length_of_argAt hargs (checked_eq_ok.mp hname))
  · exact (termAddLine_onlyPrints d _ d' h).stays

lemma termRm_stays (h : termRm d args = .ok d') : Stays d d' := by
  unfold termRm at h
  split at h
  · obtain ⟨name,-,h⟩ := bind_eq_ok.mp h
    have hprint := termAddLine_onlyPrints { d with fs := (fsDelete d.fs name).2 } _ d' h
    refine ⟨?_,hprint.activeApp⟩
    rw [hprint.fs]
    exact .delete name
  · exact (termAddLine_onlyPrints d _ d' h).stays

/-- The files may change, and the active app stays or is the desktop. -/
structure KeyEffect (d d' : DesktopState) : Prop where
  fs : FsChange d.fs d'.fs
  app : d'.activeApp = d.activeApp ∨ d'.activeApp = .desktop

lemma runTermCommand_effect (hargs : ∀ w ∈ args, w.length ≤ 32) {cmd : Option TermCommand}
    (h : runTermCommand d args cmd = .ok d') : KeyEffect d d' := by
  -- a command that stays in the terminal ends with a fresh prompt
  have hprompt : ∀ {e : Except Stop DesktopState}, (∀ d₁, e = .ok d₁ → Stays d d₁) → promptAgain <$> e = .ok d' →
      KeyEffect d d' := by
    intro e he hd
    obtain ⟨d₁,h₁,rfl⟩ := map_eq_ok.mp hd
    exact ⟨(he d₁ h₁).fs,.inl (he d₁ h₁).app⟩
  have hprint : ∀ {e : Except Stop DesktopState}, OnlyPrints d e → promptAgain <$> e = .ok d' → KeyEffect d d' :=
    fun he => hprompt fun d₁ h₁ => (he d₁ h₁).stays
  cases cmd with
  | none => exact hprint (termAddLine_onlyPrints d _) h
  | some cmd =>
    cases cmd with
    | help => exact hprint (termAddLine_onlyPrints d _) h
    | clear =>
      cases h
      exact ⟨.same,.inl rfl⟩
    | ls => exact hprint (termLs_onlyPrints d) h
    | cat => exact hprint (termCat_onlyPrints d args) h
    | write => exact hprompt (fun _ => termWrite_stays hargs) h
    | rm => exact hprompt (fun _ => termRm_stays) h
    | echo => exact hprint (termEcho_onlyPrints d args) h
    | mem => exact hprint (termMem_onlyPrints d) h
    | reboot =>
      obtain ⟨d₁,-,h⟩ := bind_eq_ok.mp h
      cases h
    | quit =>
      cases h
      exact ⟨.same,.inr rfl⟩

theorem termInput_effect {c : UInt8} (h : termInput d c = .ok d') : KeyEffect d d' := by
  unfold termInput at h
  split at h
  · unfold termExec at h
    split at h
    · cases h
      exact ⟨.same,.inl rfl⟩
    · obtain ⟨prompt,-,h⟩ := bind_eq_ok.mp h
      obtain ⟨d₁,h₁,h⟩ := bind_eq_ok.mp h
      have hprint := termAddLineBytes_onlyPrints d prompt d₁ h₁
      have hrun := runTermCommand_effect (fun _ => length_of_mem_splitWords) h
      exact ⟨hprint.fs ▸ hrun.fs,hprint.activeApp ▸ hrun.app⟩
  split at h
  · cases h
    split <;> exact ⟨.same,.inl rfl⟩
  split at h
  · cases h
    exact ⟨.same,.inr rfl⟩
  split at h
  · cases h
    split <;> exact ⟨.same,.inl rfl⟩
  · cases h
    exact ⟨.same,.inl rfl⟩

end Commands

section Apps
variable {d d' : DesktopState} {c : UInt8}

@[simp] lemma switchApp_activeApp (d : DesktopState) (app : App) : (switchApp d app).activeApp = app := by
  cases app <;> rfl

@[simp] lemma switchApp_fs (d : DesktopState) (app : App) : (switchApp d app).fs = d.fs := by
  cases app <;> rfl

lemma KeyEffect.refl (d : DesktopState) : KeyEffect d d := ⟨.same,.inl rfl⟩

lemma switchApp_desktop_effect (d : DesktopState) : KeyEffect d (switchApp d .desktop) := ⟨.same,.inr rfl⟩

lemma newFile_effect (d : DesktopState) : KeyEffect d (newFile d) := by
  unfold newFile
  split
  · exact ⟨.create _ _ (by decide),.inl rfl⟩
  · exact KeyEffect.refl d

lemma deleteSelected_effect (d : DesktopState) : KeyEffect d (deleteSelected d) := by
  unfold deleteSelected
  split
  · exact ⟨.delete _,.inl rfl⟩
  · exact KeyEffect.refl d

theorem filesInput_effect (d : DesktopState) (c : UInt8) : KeyEffect d (filesInput d c) := by
  unfold filesInput
  dsimp only
  split_ifs
  -- the keys that only move the selection or open a file draw it again
  all_goals try exact ⟨.same,.inl rfl⟩
  · exact ⟨(newFile_effect d).fs,(newFile_effect d).app⟩
  · exact ⟨(deleteSelected_effect d).fs,(deleteSelected_effect d).app⟩
  · exact switchApp_desktop_effect d

theorem sysmonInput_effect (d : DesktopState) (c : UInt8) : KeyEffect d (sysmonInput d c) := by
  unfold sysmonInput
  split
  · exact switchApp_desktop_effect d
  · exact KeyEffect.refl d

lemma editorSave_effect (d : DesktopState) : KeyEffect d (editorSave d) := by
  have hname : (d.edFilename.toList.take (strlen d.edFilename.toList)).length ≤ 32 := by
    rw [List.length_take,List.Vector.toList_length]
    exact Nat.min_le_right _ _
  unfold editorSave
  dsimp only
  split
  · exact ⟨.write _ _ hname,.inl rfl⟩
  · exact ⟨.write _ _ (by decide),.inl rfl⟩

lemma editorInsert_effect (d : DesktopState) (b : UInt8) : KeyEffect d (editorInsert d b) := by
  unfold editorInsert
  split <;> exact ⟨.same,.inl rfl⟩

lemma editorBackspace_effect (d : DesktopState) : KeyEffect d (editorBackspace d) := by
  unfold editorBackspace
  split <;> exact ⟨.same,.inl rfl⟩

theorem editorInput_effect (d : DesktopState) (c : UInt8) : KeyEffect d (editorInput d c) := by
  have hdraw : ∀ {d'}, KeyEffect d d' → KeyEffect d (editorDraw (placeCursor d')) := fun h => ⟨h.fs,h.app⟩
  unfold editorInput
  dsimp only
  split_ifs
  · exact switchApp_desktop_effect d
  · exact ⟨(editorSave_effect d).fs,(editorSave_effect d).app⟩
  · exact hdraw (editorBackspace_effect d)
  · exact hdraw (editorInsert_effect d 10)
  · exact hdraw (editorInsert_effect d c)
  · exact hdraw (KeyEffect.refl d)

/-- Only the launcher starts an app. -/
theorem desktopInputChar_effect (h : desktopInputChar d c = .ok d') :
    d.activeApp = .desktop ∧ d' = launcherInput d c ∨ KeyEffect d d' := by
  unfold desktopInputChar at h
  split at h
  · next happ =>
    cases h
    exact .inl ⟨happ,rfl⟩
  · exact .inr (termInput_effect h)
  · cases h
    exact .inr (filesInput_effect d c)
  · cases h
    exact .inr (sysmonInput_effect d c)
  · cases h
    exact .inr (editorInput_effect d c)

/-- In the launcher a key moves the selection or starts an app. -/
lemma launcherInput_cases (d : DesktopState) (c : UInt8) :
    (launcherInput d c).fs = d.fs ∧ (launcherInput d c).activeApp = d.activeApp ∨
      ∃ app, launcherInput d c = switchApp d app := by
  unfold launcherInput
  split_ifs
  all_goals try exact .inl ⟨rfl,rfl⟩
  split
  · exact .inr ⟨.terminal,rfl⟩
  · exact .inr ⟨.files,rfl⟩
  · exact .inr ⟨.sysmon,rfl⟩
  · exact .inr ⟨.editor,rfl⟩
  · exact .inl ⟨rfl,rfl⟩

theorem desktopInputChar_fsChange (h : desktopInputChar d c = .ok d') : FsChange d.fs d'.fs := by
  obtain ⟨-,rfl⟩ | heffect := desktopInputChar_effect h
  · obtain ⟨hfs,-⟩ | ⟨app,happ⟩ := launcherInput_cases d c
    · rw [hfs]
      exact .same
    · rw [happ,switchApp_fs]
      exact .same
  · exact heffect.fs

/-- An app other than the desktop that is active after a key was active before, or was just started. -/
theorem desktopInputChar_app (h : desktopInputChar d c = .ok d') (happ : d'.activeApp ≠ .desktop) :
    d'.activeApp = d.activeApp ∨ d' = switchApp d d'.activeApp := by
  obtain ⟨hd,rfl⟩ | heffect := desktopInputChar_effect h
  · obtain ⟨-,hsame⟩ | ⟨app,hstart⟩ := launcherInput_cases d c
    · exact absurd (hsame.trans hd) happ
    · right
      rw [hstart,switchApp_activeApp]
  · exact .inl (heffect.app.resolve_right happ)

end Apps
end Linuxab.Desktop
