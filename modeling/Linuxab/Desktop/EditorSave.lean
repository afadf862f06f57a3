import Mathlib.Data.List.Induction
import Linuxab.Base.Slots
import Linuxab.Desktop.KeyEffect

/-! When a clean editor means a saved file. Ctrl+S clears `ED_DIRTY` without looking at what
`fs_write` returned, and `fs_write` fails on a new name while all 32 slots are taken. -/
namespace Linuxab.Desktop
open Linuxab.Base
open Linuxab.Shell (bytes copyBytes strEq strEq_iff strlen take_strlen text_copyBytes text_copyBytes_eq)

section Table
variable {fs : FsTable} {name data : List UInt8}

/-- A write to the name has a slot to go to. -/
def HasRoom (fs : FsTable) (name : List UInt8) : Prop := (fsFind fs name).isSome ∨ ∃ i, (fs i).used = false

instance : Decidable (HasRoom fs name) := inferInstanceAs (Decidable (_ ∨ _))

lemma contents_store (f : FsFile) (h : data.length ≤ 1024) : (f.store data).contents = data := by
  have hmin : min data.length 1024 = data.length := Nat.min_eq_left h
  have htake : data.take (min data.length 1024) = data := by rw [hmin,List.take_length]
  have hs : (f.store data).contents = f.data.toList.take 0 ++ data.take (min data.length 1024) :=
    take_blit f.data (by simp) (by simp [FsFile.store])
  rw [hs,htake,List.take_zero,List.nil_append]

/-- The entry answers to the name. -/
def answers (name : List UInt8) (f : FsFile) : Bool := f.used && strEq f.name.toList name

lemma fsFind_eq (fs : FsTable) (name : List UInt8) :
    fsFind fs name = (List.finRange 32).find? fun i => answers name (fs i) := rfl

lemma fileName_eq (f : FsFile) : fileName f = text f.name.toList := take_strlen _

lemma answers_iff {f : FsFile} : answers name f = true ↔ f.used = true ∧ fileName f = text name := by
  rw [answers,Bool.and_eq_true,strEq_iff,fileName_eq]

lemma fsFind_some {i : Fin 32} (h : fsFind fs name = some i) : (fs i).used = true ∧ fileName (fs i) = text name :=
  answers_iff.mp (List.find?_some (p := fun j => answers name (fs j)) h)

lemma fsFind_none (h : fsFind fs name = none) {i : Fin 32} (hi : (fs i).used = true) :
    fileName (fs i) ≠ text name := by
  intro hname
  have ha := find?_slots_eq_none (p := answers name) |>.mp h i
  rw [answers_iff.mpr ⟨hi,hname⟩] at ha
  cases ha

lemma exists_free {i : Fin 32} (hi : (fs i).used = false) :
    ∃ j, ((List.finRange 32).find? fun i => !(fs i).used) = some j := by
  apply Option.ne_none_iff_exists'.mp
  intro hn
  simpa [hi] using find?_slots_eq_none (p := fun f : FsFile => !f.used) |>.mp hn i

/-- A write that has room is read back. -/
theorem fsRead_fsWrite (hlen : name.length ≤ 32) (hdata : data.length ≤ 1024)
    (hroom : HasRoom fs name) : fsRead (fsWrite fs name data).2 name = some data := by
  unfold fsWrite
  cases hf : fsFind fs name with
  | some i =>
    have ha : answers name ((fs i).store data) = true := answers_iff.mpr (fsFind_some hf)
    have hfind := find?_slots_update_of_some ((fsFind_eq fs name).symm.trans hf) ha
    simp only [fsRead,fsFind_eq,hfind,Option.map_some,Function.update_self,contents_store _ hdata]
  | none =>
    obtain ⟨i,hi⟩ := hroom.resolve_left (by simp [hf])
    obtain ⟨j,hj⟩ := exists_free hi
    have ha : answers name (({ fs j with used := true, name := copyBytes (fs j).name name }).store data) = true := by
      rw [answers_iff,fileName_eq]
      exact ⟨rfl,text_copyBytes_eq _ hlen⟩
    have hfind := find?_slots_update_of_none ((fsFind_eq fs name).symm.trans hf) j ha
    simp only [fsCreate,hf,hj,Option.isSome_none,Bool.false_eq_true,if_false]
    simp only [fsRead,fsFind_eq,hfind,Option.map_some,Function.update_self,contents_store _ hdata]

/-- A write without room changes nothing, and the name stays unknown. -/
theorem fsWrite_of_noRoom (hroom : ¬ HasRoom fs name) :
    (fsWrite fs name data).2 = fs ∧ fsRead fs name = none := by
  simp only [HasRoom,not_or,Option.not_isSome_iff_eq_none,not_exists] at hroom
  obtain ⟨hf,hused⟩ := hroom
  have hfull : ((List.finRange 32).find? fun i => !(fs i).used) = none := by
    apply (find?_slots_eq_none (p := fun f : FsFile => !f.used)).mpr
    intro i
    simpa using hused i
  constructor
  · simp [fsWrite,fsCreate,hf,hfull]
  · simp [fsRead,hf]

end Table

section Router
variable {d d' : DesktopState}

/-- The editor is entered only from the launcher, with no file name. -/
theorem desktopInputChar_editor {c : UInt8} (h : desktopInputChar d c = .ok d') (happ : d'.activeApp = .editor) :
    d.activeApp = .editor ∧ c ≠ 0x11 ∧ d' = editorInput d c ∨ strlen d'.edFilename.toList = 0 := by
  obtain hsame | hstart := desktopInputChar_app h (by rw [happ]; decide)
  · have happ₀ : d.activeApp = .editor := hsame.symm.trans happ
    simp only [desktopInputChar,happ₀,Except.ok.injEq] at h
    subst h
    refine .inl ⟨happ₀,?_,rfl⟩
    rintro rfl
    exact absurd ((switchApp_activeApp d .desktop).symm.trans happ) (by decide)
  · right
    rw [hstart,happ]
    change strlen (List.Vector.replicate 32 (0 : UInt8)).toList = 0
    decide

end Router

section Saved
variable {d d' d₀ : DesktopState} {keys : List UInt8} {c : UInt8}

/-- `&ED_FILENAME[..name_len]` -/
def edName (d : DesktopState) : List UInt8 := d.edFilename.toList.take (strlen d.edFilename.toList)

/-- The state in which the last Ctrl+S of the keys was pressed. -/
def LastSave (keys : List UInt8) (d₀ : DesktopState) : Prop :=
  ∃ pre post, keys = pre ++ 0x13::post ∧ 0x13 ∉ post ∧ pressKeys desktopInit pre = .ok d₀

lemma LastSave.concat (h : LastSave keys d₀) (hc : c ≠ 0x13) : LastSave (keys ++ [c]) d₀ := by
  obtain ⟨pre,post,rfl,hpost,hrun⟩ := h
  refine ⟨pre,post ++ [c],by simp,?_,hrun⟩
  simpa [hpost] using Ne.symm hc

lemma LastSave.unique {d₁ : DesktopState} (h₀ : LastSave keys d₀) (h₁ : LastSave keys d₁) : d₀ = d₁ := by
  obtain ⟨pre,post,rfl,hpost,hrun⟩ := h₀
  obtain ⟨pre',post',heq,hpost',hrun'⟩ := h₁
  obtain ⟨rfl,-⟩ : pre = pre' ∧ post = post' := by
    rcases List.append_eq_append_iff.mp heq with ⟨l,rfl,hl⟩ | ⟨l,rfl,hl⟩
    · cases l with
      | nil => simpa using hl
      | cons b l =>
        obtain ⟨rfl,rfl⟩ := List.cons.inj hl
        simp at hpost
    · cases l with
      | nil => simpa using hl.symm
      | cons b l =>
        obtain ⟨rfl,rfl⟩ := List.cons.inj hl
        simp at hpost'
  exact Except.ok.inj (hrun.symm.trans hrun')

/-- What holds in the editor: the only name a file is saved under, and where the text is while it is
clean. -/
structure EditorInv (keys : List UInt8) (d : DesktopState) : Prop where
  name : edName d = bytes "untitled.txt"
  last : ∃ d₀, LastSave keys d₀ ∧ (d.edDirty = false →
    if HasRoom d₀.fs (bytes "untitled.txt") then fsRead d.fs (edName d) = some (edText d)
    else fsRead d.fs (edName d) = none)

lemma EditorInv.draw (h : EditorInv keys d) : EditorInv keys (editorDraw d) := ⟨h.name,h.last⟩

lemma length_edText_le (d : DesktopState) : (edText d).length ≤ 1024 := by
  simp [edText]

/-- Saving writes to `untitled.txt`, under which name the text is known from then on. -/
lemma editorSave_inv (hrun : pressKeys desktopInit keys = .ok d)
    (hname : edName d = [] ∨ edName d = bytes "untitled.txt") : EditorInv (keys ++ [0x13]) (editorSave d) := by
  have hsaved : (editorSave d).fs = (fsWrite d.fs (bytes "untitled.txt") (edText d)).2 ∧
      edName (editorSave d) = bytes "untitled.txt" ∧ edText (editorSave d) = edText d := by
    unfold editorSave
    dsimp only
    split
    · next hpos =>
      have hn : edName d = bytes "untitled.txt" := by
        refine hname.resolve_left fun h => ?_
        have := congrArg List.length h
        rw [edName,List.length_take,List.length_nil] at this
        have := Linuxab.Shell.strlen_le_length d.edFilename.toList
        omega
      refine ⟨?_,hn,rfl⟩
      change (fsWrite d.fs (edName d) (edText d)).2 = _
      rw [hn]
    · refine ⟨rfl,?_,rfl⟩
      change List.take (strlen (copyBytes d.edFilename (bytes "untitled.txt")).toList) _ = _
      rw [take_strlen]
      exact text_copyBytes d.edFilename (by decide) (by decide)
  obtain ⟨hfs,hn,htext⟩ := hsaved
  refine ⟨hn,d,⟨keys,[],rfl,by simp,hrun⟩,fun _ => ?_⟩
  rw [hn,hfs,htext]
  split
  · next hroom => exact fsRead_fsWrite (by decide) (length_edText_le d) hroom
  · next hroom =>
    obtain ⟨hsame,hnone⟩ := fsWrite_of_noRoom hroom
    rw [hsame,hnone]

/-- The name and the files are kept, and so is the text unless it is dirty. -/
structure Edits (d d' : DesktopState) : Prop where
  name : edName d' = edName d
  fs : d'.fs = d.fs
  text : d'.edDirty = true ∨ d'.edDirty = d.edDirty ∧ edText d' = edText d

lemma EditorInv.edit (h : EditorInv keys d) (hc : c ≠ 0x13) (hedits : Edits d d') : EditorInv (keys ++ [c]) d' := by
  obtain ⟨d₀,hlast,hclean⟩ := h.last
  refine ⟨hedits.name.trans h.name,d₀,hlast.concat hc,fun hd => ?_⟩
  obtain hdirty | ⟨hdirty,htext⟩ := hedits.text
  · rw [hdirty] at hd
    cases hd
  · rw [hedits.name,hedits.fs,htext]
    exact hclean (hdirty.symm.trans hd)

lemma editorInsert_edits (d : DesktopState) (b : UInt8) : Edits d (editorInsert d b) := by
  unfold editorInsert
  split
  · exact ⟨rfl,rfl,.inl rfl⟩
  · exact ⟨rfl,rfl,.inr ⟨rfl,rfl⟩⟩

lemma editorBackspace_edits (d : DesktopState) : Edits d (editorBackspace d) := by
  unfold editorBackspace
  split
  · exact ⟨rfl,rfl,.inl rfl⟩
  · exact ⟨rfl,rfl,.inr ⟨rfl,rfl⟩⟩

lemma Edits.draw (h : Edits d d') : Edits d (editorDraw (placeCursor d')) := ⟨h.name,h.fs,h.text⟩

/-- Every key but Ctrl+Q and Ctrl+S edits the text or does nothing. -/
lemma editorInput_edits (d : DesktopState) (h₁ : c ≠ 0x11) (h₂ : c ≠ 0x13) : Edits d (editorInput d c) := by
  unfold editorInput
  rw [if_neg h₁,if_neg h₂]
  split_ifs
  · exact (editorBackspace_edits d).draw
  · exact (editorInsert_edits d 10).draw
  · exact (editorInsert_edits d c).draw
  · exact ⟨rfl,rfl,.inr ⟨rfl,rfl⟩⟩

/-- In the editor either nothing was saved yet, or the invariant holds. -/
theorem pressKeys_editor (h : pressKeys desktopInit keys = .ok d) (happ : d.activeApp = .editor) :
    edName d = [] ∨ EditorInv keys d := by
  induction keys using List.reverseRecOn generalizing d with
  | nil =>
    cases h
    cases happ
  | append_singleton keys c ih =>
    rw [pressKeys,List.foldlM_append] at h
    obtain ⟨d₁,h₁,h₂⟩ := bind_eq_ok.mp h
    obtain ⟨d₂,hstep,h₂⟩ := bind_eq_ok.mp h₂
    obtain rfl : d₂ = d := Except.ok.inj h₂
    obtain ⟨happ₁,hq,rfl⟩ | hempty := desktopInputChar_editor hstep happ
    · have hprev := ih h₁ happ₁
      by_cases hs : c = 0x13
      · subst hs
        exact .inr (editorSave_inv h₁ (hprev.imp_right fun hi => hi.name)).draw
      · have hedits := editorInput_edits d₁ hq hs
        exact hprev.imp (fun he => hedits.name.trans he) fun hi => hi.edit hs hedits
    · left
      rw [edName,hempty,List.take_zero]

/-- In a clean editor with a file name the text is what the file holds exactly if the last Ctrl+S
found the file or a free slot. -/
theorem clean_editor_saved_iff (h : pressKeys desktopInit keys = .ok d) (happ : d.activeApp = .editor)
    (hname : edName d ≠ []) (hclean : d.edDirty = false) :
    fsRead d.fs (edName d) = some (edText d) ↔
      ∃ d₀, LastSave keys d₀ ∧ HasRoom d₀.fs (bytes "untitled.txt") := by
  obtain ⟨d₀,hlast,hread⟩ := ((pressKeys_editor h happ).resolve_left hname).last
  have hread := hread hclean
  constructor
  · intro hsaved
    refine ⟨d₀,hlast,?_⟩
    by_contra hroom
    rw [if_neg hroom,hsaved] at hread
    cases hread
  · rintro ⟨d₁,hlast₁,hroom⟩
    obtain rfl := hlast.unique hlast₁
    rwa [if_pos hroom] at hread

end Saved

section Runs

/-- What holds of the state after the keys, if they come to an end. -/
def holdsAfter (P : DesktopState → Bool) : Except Stop DesktopState → Bool
  | .ok d => P d
  | .error _ => false

lemma exists_of_holdsAfter {P : DesktopState → Bool} {e : Except Stop DesktopState} (h : holdsAfter P e = true) :
    ∃ d, e = .ok d ∧ P d = true := by
  cases e with
  | ok d => exact ⟨d,rfl,h⟩
  | error e => cases h

/-- The editor is open with a name and no unsaved changes. -/
def looksSaved (d : DesktopState) : Bool :=
  decide (d.activeApp = .editor) && decide (edName d ≠ []) && !d.edDirty

/-- One byte is typed into a new file and saved. -/
theorem clean_editor_saved_iff_one_byte : ∃ d, pressKeys desktopInit (bytes "ddd\nx" ++ [0x13]) = .ok d ∧
    d.activeApp = .editor ∧ edName d ≠ [] ∧ d.edDirty = false ∧ fsRead d.fs (edName d) = some (edText d) := by
  obtain ⟨d,hd,hP⟩ := exists_of_holdsAfter (P := looksSaved)
    (show holdsAfter _ (pressKeys desktopInit (bytes "ddd\nx" ++ [0x13])) = true by decide +kernel)
  obtain ⟨d₀,hd₀,hroom⟩ := exists_of_holdsAfter (P := fun d => HasRoom d.fs (bytes "untitled.txt"))
    (show holdsAfter _ (pressKeys desktopInit (bytes "ddd\nx")) = true by decide +kernel)
  simp only [looksSaved,Bool.and_eq_true,decide_eq_true_eq,Bool.not_eq_true'] at hP
  obtain ⟨⟨happ,hname⟩,hclean⟩ := hP
  refine ⟨d,hd,happ,hname,hclean,(clean_editor_saved_iff hd happ hname hclean).mpr ⟨d₀,?_,by simpa using hroom⟩⟩
  exact ⟨bytes "ddd\nx",[],rfl,by simp,hd₀⟩

/-- The terminal fills the remaining 28 slots, then a byte is typed into the editor and saved. -/
def fullTableKeys : List UInt8 :=
  [10] ++ (bytes "abcdefghijklmnopqrstuvwxyz01").flatMap (fun b => bytes "write " ++ [b] ++ bytes " x\n") ++
    [0x11] ++ bytes "ddd\nx" ++ [0x13]

theorem clean_editor_not_saved : ∃ d, pressKeys desktopInit fullTableKeys = .ok d ∧ d.activeApp = .editor ∧
    edName d ≠ [] ∧ d.edDirty = false ∧ fsRead d.fs (edName d) ≠ some (edText d) := by
  obtain ⟨d,hd,hP⟩ := exists_of_holdsAfter
    (P := fun d => looksSaved d && decide (fsRead d.fs (edName d) ≠ some (edText d)))
    (show holdsAfter _ (pressKeys desktopInit fullTableKeys) = true by decide +kernel)
  simp only [looksSaved,Bool.and_eq_true,decide_eq_true_eq,Bool.not_eq_true'] at hP
  obtain ⟨⟨⟨happ,hname⟩,hclean⟩,hread⟩ := hP
  exact ⟨d,hd,happ,hname,hclean,hread⟩

end Runs
end Linuxab.Desktop
