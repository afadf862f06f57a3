import Linuxab.Desktop.EditorSave

/-! `desktop_edit_file` loads the file into the editor and then switches to the editor, which starts it
anew: nothing of what was loaded is left. -/
namespace Linuxab.Desktop
open Linuxab.Base
open Linuxab.Shell (bytes copyBytes strlen take_strlen text_copyBytes)

section Load

lemma loaded_fits (data : List UInt8) : 0+(data.take (min data.length 1024)).length ≤ 1024 := by
  simp

lemma loaded_le (data : List UInt8) : min data.length 1024 ≤ 1024 := Nat.min_le_right _ _

def editorLoad (d : DesktopState) (name : List UInt8) : DesktopState :=
  let d := { d with edFilename := copyBytes d.edFilename name, edCursX := 0, edCursY := 0, edDirty := false }
  match fsRead d.fs name with
  | some data =>
    { d with
      edBuf := blit d.edBuf 0 (data.take (min data.length 1024)) (loaded_fits data)
      edSize := min data.length 1024
      edSize_le := loaded_le data }
  | none => { d with edSize := 0, edSize_le := FsFile.empty_le }

/-- The loop over the bytes behind the pointer: it stops at a NUL and after 31 bytes. -/
def pointedName (name : ℕ → UInt8) : List UInt8 := text ((List.range 31).map name)

def desktopEditFile (d : DesktopState) (name : ℕ → UInt8) : DesktopState :=
  switchApp (editorLoad d (pointedName name)) .editor

/-- The pointer leads to the text and a NUL behind it. -/
def PointsTo (p : ℕ → UInt8) (name : List UInt8) : Prop := (List.range (name.length+1)).map p = name ++ [0]

lemma pointedName_eq {p : ℕ → UInt8} {name : List UInt8} (hp : PointsTo p name) (hnul : 0 ∉ name)
    (hlen : name.length ≤ 31) : pointedName p = name := by
  have hname : (List.range name.length).map p = name := by
    have h := hp
    rw [PointsTo,List.range_succ,List.map_append] at h
    exact (List.append_inj h (by simp)).1
  have hend : p name.length = 0 := by
    have h := hp
    rw [PointsTo,List.range_succ,List.map_append] at h
    exact List.singleton_inj.mp (List.append_inj h (by simp)).2
  rcases Nat.lt_or_eq_of_le hlen with hlt | heq
  · obtain ⟨k,hk⟩ : ∃ k, 31 = name.length+(k+1) := ⟨30-name.length,by omega⟩
    rw [pointedName,hk,List.range_add,List.map_append,hname,List.range_succ_eq_map]
    simp only [List.map_cons,Nat.add_zero,hend]
    exact text_append_nul hnul _
  · rw [pointedName,← heq,hname,text_of_noNul hnul]

end Load

section Shown
variable {d d' : DesktopState} {p : ℕ → UInt8} {name data : List UInt8}

/-- What the editor holds. -/
structure Shows (d : DesktopState) (name data : List UInt8) : Prop where
  named : edName d = name
  text : edText d = data
  clean : d.edDirty = false

/-- Ctrl+S leaves the file as it is and creates no other one. -/
def SaveKeeps (d d' : DesktopState) (name data : List UInt8) : Prop :=
  ∃ d₁, desktopInputChar d' 0x13 = .ok d₁ ∧ fsRead d₁.fs name = some data ∧ usedSlots d₁.fs = usedSlots d.fs

/-- The file is open in the editor. -/
structure OpensFile (d d' : DesktopState) (name data : List UInt8) : Prop extends Shows d' name data where
  app : d'.activeApp = .editor
  save : SaveKeeps d d' name data

lemma length_of_fsRead {fs : FsTable} (h : fsRead fs name = some data) : data.length ≤ 1024 := by
  obtain ⟨i,-,rfl⟩ := Option.map_eq_some_iff.mp h
  rw [FsFile.contents,List.length_take,List.Vector.toList_length]
  exact Nat.min_le_right _ _

/-- Loading by itself does what it should. -/
lemma editorLoad_shows (hnul : 0 ∉ name) (hlen : name.length ≤ 31) (hread : fsRead d.fs name = some data) :
    Shows (editorLoad d name) name data := by
  have hle := length_of_fsRead hread
  have hmin : min data.length 1024 = data.length := Nat.min_eq_left hle
  have htake : data.take (min data.length 1024) = data := by rw [hmin,List.take_length]
  refine ⟨?_,?_,by simp only [editorLoad,hread]⟩
  · have hfile : (editorLoad d name).edFilename = copyBytes d.edFilename name := by
      simp only [editorLoad,hread]
    rw [edName,take_strlen,hfile]
    exact text_copyBytes _ hnul (by omega)
  · simp only [edText,editorLoad,hread]
    rw [take_blit _ (loaded_fits data) (by rw [htake,Nat.zero_add,hmin]),List.take_zero,List.nil_append,htake]

/-- Opening a file is opening the empty editor. -/
theorem desktopEditFile_eq (d : DesktopState) (p : ℕ → UInt8) : desktopEditFile d p = switchApp d .editor := by
  unfold desktopEditFile editorLoad
  dsimp only
  split <;> rfl

lemma switchApp_editor_shows (d : DesktopState) : Shows (switchApp d .editor) [] [] := by
  refine ⟨?_,rfl,rfl⟩
  change (List.replicate 32 (0 : UInt8)).take (strlen (List.replicate 32 0)) = []
  decide

/-- The empty editor saves an empty `untitled.txt`. -/
lemma save_switchApp_editor (d : DesktopState) : ∃ d₁, desktopInputChar (switchApp d .editor) 0x13 = .ok d₁ ∧
    d₁.fs = (fsWrite d.fs (bytes "untitled.txt") []).2 := by
  refine ⟨editorDraw (editorSave (switchApp d .editor)),rfl,?_⟩
  have hnone : strlen (switchApp d .editor).edFilename.toList = 0 := by
    change strlen (List.replicate 32 0) = 0
    decide
  change (editorSave (switchApp d .editor)).fs = _
  unfold editorSave
  rw [if_neg (by omega)]
  rfl

end Shown

section Table
variable {fs : FsTable} {name data other : List UInt8}

lemma usedSlots_congr {fs' : FsTable} (h : ∀ i, (fs' i).used = (fs i).used) : usedSlots fs' = usedSlots fs := by
  unfold usedSlots
  simp only [h]

lemma mem_usedSlots {i : Fin 32} : i ∈ usedSlots fs ↔ (fs i).used = true := by
  simp [usedSlots]

/-- A write to a file that exists changes no other one. -/
lemma fsRead_fsWrite_of_ne {i : Fin 32} (hfind : fsFind fs name = some i) (hne : text other ≠ text name) :
    fsRead (fsWrite fs name data).2 other = fsRead fs other := by
  have hother : ∀ f : FsFile, f.name = (fs i).name → answers other f = false := by
    intro f hf
    rw [Bool.eq_false_iff]
    intro ha
    apply hne
    rw [← (answers_iff.mp ha).2,← (fsFind_some hfind).2,fileName_eq,fileName_eq,hf]
  have hsame := find?_slots_update_of_neither (p := answers other) (hother (fs i) rfl)
    (hother ((fs i).store data) rfl)
  simp only [fsWrite,hfind,fsRead,fsFind_eq,hsame]
  apply Option.map_congr
  intro j hj
  have hjo : answers other (fs j) = true := List.find?_some (p := fun j => answers other (fs j)) hj
  have hji : j ≠ i := by
    rintro rfl
    rw [hother (fs j) rfl] at hjo
    cases hjo
  rw [Function.update_of_ne hji]

lemma not_hasRoom (hfind : fsFind fs name = none) (hfull : ∀ i, (fs i).used = true) : ¬ HasRoom fs name := by
  rintro (h | ⟨i,hi⟩)
  · rw [hfind] at h
    cases h
  · rw [hfull i] at hi
    cases hi

/-- A write creates a file unless the name is there already or no slot is free. -/
lemma usedSlots_fsWrite_iff : usedSlots (fsWrite fs name data).2 = usedSlots fs ↔
    (fsFind fs name).isSome = true ∨ ∀ i, (fs i).used = true := by
  cases hf : fsFind fs name with
  | some i =>
    refine iff_of_true (usedSlots_congr fun j => ?_) (.inl rfl)
    simp only [fsWrite,hf]
    by_cases hj : j = i
    · rw [hj,Function.update_self]
      rfl
    · rw [Function.update_of_ne hj]
  | none =>
    by_cases hfree : ∃ i, (fs i).used = false
    · -- the new file takes a slot that was unused before
      obtain ⟨i,hi⟩ := hfree
      obtain ⟨j,hj⟩ := exists_free hi
      refine iff_of_false (fun h => ?_) (fun h => ?_)
      · have hnew : j ∈ usedSlots (fsWrite fs name data).2 := by
          rw [mem_usedSlots]
          simp only [fsWrite,hf,fsCreate,hj,Option.isSome_none,Bool.false_eq_true,if_false,Function.update_self]
          rfl
        have hunused := List.find?_some hj
        rw [h,mem_usedSlots] at hnew
        simp [hnew] at hunused
      · have := h.resolve_left (by simp) i
        rw [hi] at this
        cases this
    · have hfull : ∀ i, (fs i).used = true := by simpa using hfree
      rw [(fsWrite_of_noRoom (not_hasRoom hf hfull)).1]
      exact iff_of_true rfl (.inr hfull)

/-- A write that creates no file changes what is read under its own name only. -/
lemma fsRead_fsWrite_iff {old : List UInt8} (hnul : 0 ∉ name) (hlen : name.length ≤ 32) (hdata : data.length ≤ 1024)
    (hnul' : 0 ∉ other) (hread : fsRead fs other = some old)
    (hkept : (fsFind fs name).isSome = true ∨ ∀ i, (fs i).used = true) :
    fsRead (fsWrite fs name data).2 other = some old ↔ (other = name → old = data) := by
  cases hf : fsFind fs name with
  | some i =>
    by_cases hname : other = name
    · subst hname
      rw [fsRead_fsWrite hlen hdata (.inl (by rw [hf]; rfl)),Option.some.injEq]
      exact ⟨fun h _ => h.symm,fun h => (h rfl).symm⟩
    · have hne : text other ≠ text name := by rwa [text_of_noNul hnul',text_of_noNul hnul]
      rw [fsRead_fsWrite_of_ne hf hne]
      exact iff_of_true hread (fun h => absurd h hname)
  | none =>
    have hname : other ≠ name := by
      rintro rfl
      rw [fsRead,hf] at hread
      cases hread
    rw [hf] at hkept
    have hfull : ∀ i, (fs i).used = true := hkept.resolve_left (by simp)
    rw [(fsWrite_of_noRoom (not_hasRoom hf hfull)).1]
    exact iff_of_true hread (fun h => absurd h hname)

end Table

section Opened
variable {d : DesktopState} {p : ℕ → UInt8} {name data : List UInt8}

/-- `editor_load` brings the file into the editor, but what `desktop_edit_file` leaves is an empty editor
without a name: the file is never open, and Ctrl+S writes an empty `untitled.txt`. -/
theorem desktopEditFile_forgets (hp : PointsTo p name) (hnul : 0 ∉ name) (hpos : 1 ≤ name.length)
    (hlen : name.length ≤ 31) (hread : fsRead d.fs name = some data) :
    Shows (editorLoad d (pointedName p)) name data ∧
      (desktopEditFile d p).activeApp = .editor ∧ Shows (desktopEditFile d p) [] [] ∧
      ¬ OpensFile d (desktopEditFile d p) name data ∧
      (SaveKeeps d (desktopEditFile d p) name data ↔
        (name = bytes "untitled.txt" → data = []) ∧
          ((fsFind d.fs (bytes "untitled.txt")).isSome ∨ ∀ i, (d.fs i).used = true)) := by
  have hempty : Shows (desktopEditFile d p) [] [] := by
    rw [desktopEditFile_eq]
    exact switchApp_editor_shows d
  refine ⟨?_,?_,hempty,fun h => ?_,?_⟩
  · rw [pointedName_eq hp hnul hlen]
    exact editorLoad_shows hnul hlen hread
  · rw [desktopEditFile_eq]
    rfl
  · have : name = [] := h.named.symm.trans hempty.named
    rw [this] at hpos
    cases hpos
  · obtain ⟨d₁,hsave,hfs⟩ := save_switchApp_editor d
    have hiff : ((fsFind d.fs (bytes "untitled.txt")).isSome = true ∨ ∀ i, (d.fs i).used = true) →
        (fsRead (fsWrite d.fs (bytes "untitled.txt") []).2 name = some data ↔
          (name = bytes "untitled.txt" → data = [])) :=
      fsRead_fsWrite_iff (by decide) (by decide) (Nat.zero_le _) hnul hread
    rw [desktopEditFile_eq]
    constructor
    · rintro ⟨d₂,hd₂,hsame,hslots⟩
      obtain rfl : d₁ = d₂ := Except.ok.inj (hsave.symm.trans hd₂)
      rw [hfs] at hsame hslots
      have hkept := usedSlots_fsWrite_iff.mp hslots
      exact ⟨(hiff hkept).mp hsame,hkept⟩
    · rintro ⟨hsame,hkept⟩
      refine ⟨d₁,hsave,?_⟩
      rw [hfs]
      exact ⟨(hiff hkept).mpr hsame,usedSlots_fsWrite_iff.mpr hkept⟩

/-- A pointer to a text in memory that is zero behind it. -/
def pointer (name : List UInt8) : ℕ → UInt8 := fun i => name.getD i 0

theorem desktopEditFile_forgets_notes :
    PointsTo (pointer (bytes "notes.txt")) (bytes "notes.txt") ∧
      (fsRead desktopInit.fs (bytes "notes.txt")).isSome ∧
      Shows (desktopEditFile desktopInit (pointer (bytes "notes.txt"))) [] [] := by
  have hp : PointsTo (pointer (bytes "notes.txt")) (bytes "notes.txt") := by
    unfold PointsTo
    decide
  have hsome : (fsRead desktopInit.fs (bytes "notes.txt")).isSome = true := by decide +kernel
  obtain ⟨data,hread⟩ := Option.isSome_iff_exists.mp hsome
  exact ⟨hp,hsome,(desktopEditFile_forgets hp (by decide) (by decide) (by decide) hread).2.2.1⟩

/-- After opening `notes.txt` the editor has no name, and Ctrl+S creates a file that was not there. -/
theorem desktopEditFile_creates_untitled :
    PointsTo (pointer (bytes "notes.txt")) (bytes "notes.txt") ∧
      (fsRead desktopInit.fs (bytes "notes.txt")).isSome ∧
      edName (desktopEditFile desktopInit (pointer (bytes "notes.txt"))) = [] ∧
      fsRead desktopInit.fs (bytes "untitled.txt") = none ∧
      ∃ d₁, desktopInputChar (desktopEditFile desktopInit (pointer (bytes "notes.txt"))) 0x13 = .ok d₁ ∧
        fsRead d₁.fs (bytes "untitled.txt") = some [] := by
  refine ⟨by unfold PointsTo; decide,by decide +kernel,?_,by decide +kernel,?_⟩
  · rw [desktopEditFile_eq]
    exact (switchApp_editor_shows _).named
  · obtain ⟨d₁,hd₁,hread⟩ := exists_of_holdsAfter
      (P := fun d => decide (fsRead d.fs (bytes "untitled.txt") = some []))
      (show holdsAfter _ (desktopInputChar (desktopEditFile desktopInit (pointer (bytes "notes.txt"))) 0x13) = true by
        decide +kernel)
    exact ⟨d₁,hd₁,of_decide_eq_true hread⟩

end Opened
end Linuxab.Desktop
