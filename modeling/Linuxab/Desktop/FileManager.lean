import Linuxab.Desktop.EditFile

/-! The file manager selects by rank among the used slots and deletes by name. The two agree because no
two files ever have the same name, whichever app made them. -/
namespace Linuxab.Desktop
open Linuxab.Base
open Linuxab.Shell (bytes copyBytes text_copyBytes_eq)

section Names
variable {fs fs' : FsTable} {name data : List UInt8}

/-- No two files have the same name. -/
def NamesDistinct (fs : FsTable) : Prop := Set.InjOn (fun i => fileName (fs i)) {i | (fs i).used = true}

/-- With distinct names a file is found by its name. -/
lemma NamesDistinct.fsFind_eq_some (h : NamesDistinct fs) {i : Fin 32} (hi : (fs i).used = true)
    (hname : text name = fileName (fs i)) : fsFind fs name = some i := by
  cases hfind : fsFind fs name with
  | none => exact absurd hname.symm (fsFind_none hfind hi)
  | some j =>
    obtain ⟨hj,hjname⟩ := fsFind_some hfind
    rw [h hj hi (hjname.trans hname)]

lemma namesDistinct_fsCreate (h : NamesDistinct fs) (hlen : name.length ≤ 32) :
    NamesDistinct (fsCreate fs name data).2 := by
  unfold fsCreate
  split
  · exact h
  · next hfind =>
    split
    · apply injOn_slots_update (p := fun f : FsFile => f.used = true) h
      intro _ j _ hj
      have hnew : ∀ dst : List.Vector UInt8 32, text (copyBytes dst name).toList = text name :=
        fun dst => text_copyBytes_eq dst hlen
      rw [fileName_eq (FsFile.store _ _)]
      exact (hnew _).symm ▸ fsFind_none (Option.not_isSome_iff_eq_none.mp hfind) hj
    · exact h

/-- Whatever a key does to the files, their names stay distinct. -/
theorem FsChange.namesDistinct (hchange : FsChange fs fs') (h : NamesDistinct fs) : NamesDistinct fs' := by
  cases hchange with
  | same => exact h
  | create name data hlen => exact namesDistinct_fsCreate h hlen
  | write name data hlen =>
    unfold fsWrite
    split
    · next i hfind =>
      apply injOn_slots_update (p := fun f : FsFile => f.used = true) h
      intro _ j hji hj hname
      exact hji (h hj (fsFind_some hfind).1 hname)
    · exact namesDistinct_fsCreate h hlen
  | delete name =>
    unfold fsDelete
    split
    · apply injOn_slots_update (p := fun f : FsFile => f.used = true) h
      intro hused
      cases hused
    · exact h

lemma fsInit_namesDistinct : NamesDistinct fsInit := by
  have hblank : NamesDistinct blankFs := by
    intro i hi
    cases hi
  refine namesDistinct_fsCreate (namesDistinct_fsCreate (namesDistinct_fsCreate
    (namesDistinct_fsCreate hblank ?_) ?_) ?_) ?_
  all_goals decide

end Names

section Count

lemma length_usedSlots_update (fs : FsTable) (i : Fin 32) (f : FsFile) :
    (usedSlots (Function.update fs i f)).length+(fs i).used.toNat = (usedSlots fs).length+f.used.toNat := by
  unfold usedSlots
  rw [length_filter_slots FsFile.used,length_filter_slots FsFile.used]
  exact card_slots_update FsFile.used fs i f

lemma length_usedSlots_fsCreate (fs : FsTable) (name data : List UInt8) :
    (usedSlots fs).length ≤ (usedSlots (fsCreate fs name data).2).length := by
  unfold fsCreate
  split
  · exact le_rfl
  · split
    · next i hfree =>
      have hunused : (fs i).used = false := by simpa using List.find?_some hfree
      have hcount := length_usedSlots_update fs i
        (FsFile.store { fs i with used := true, name := copyBytes (fs i).name name } data)
      rw [hunused] at hcount
      exact (Nat.le_add_right _ _).trans hcount.symm.le
    · exact le_rfl

end Count

section Delete
variable {d : DesktopState} {i : Fin 32}

/-- `FM_SEL` is the rank of a file, or there is none. -/
def SelInRange (d : DesktopState) : Prop :=
  d.fmSel < (usedSlots d.fs).length ∨ d.fmSel = 0 ∧ (usedSlots d.fs).length = 0

/-- The slot is given up, the others are as they were. -/
structure DeletesOnly (i : Fin 32) (fs fs' : FsTable) : Prop where
  gone : (fs' i).used = false
  others : ∀ j, j ≠ i → fs' j = fs j

/-- The padded name is the name of the file. -/
lemma text_padded (d : DesktopState) (i : Fin 32) :
    text (blit (List.Vector.replicate 32 0) 0 (fileName (d.fs i)) (fileName_fits d i)).toList = fileName (d.fs i) := by
  have hzero : (List.Vector.replicate 32 (0 : UInt8)).toList = List.replicate 32 0 := rfl
  rw [toList_blit,List.take_zero,List.nil_append,hzero,List.drop_replicate,
    text_append_replicate,fileName_eq,text_of_noNul (zero_notMem_text _)]

/-- With distinct names the slot found by its rank is the one deleted by its name. -/
lemma deleteSelected_eq (h : NamesDistinct d.fs) (hi : (usedSlots d.fs)[d.fmSel]? = some i) :
    deleteSelected d = { d with
      fs := Function.update d.fs i { d.fs i with used := false, size := 0, size_le := FsFile.empty_le }
      fmSel := if 0 < d.fmSel then d.fmSel-1 else d.fmSel } := by
  have hused : (d.fs i).used = true := mem_usedSlots.mp (List.mem_of_getElem? hi)
  have hfind := h.fsFind_eq_some hused (text_padded d i)
  simp only [deleteSelected,hi,fsDelete,hfind]

lemma deleteSelected_deletesOnly (h : NamesDistinct d.fs) (hi : (usedSlots d.fs)[d.fmSel]? = some i) :
    DeletesOnly i d.fs (deleteSelected d).fs := by
  rw [deleteSelected_eq h hi]
  refine ⟨by simp,?_⟩
  intro j hj
  exact Function.update_of_ne hj _ _

lemma deleteSelected_selInRange (h : NamesDistinct d.fs) (hsel : SelInRange d) : SelInRange (deleteSelected d) := by
  cases hi : (usedSlots d.fs)[d.fmSel]? with
  | none =>
    simp only [deleteSelected,hi]
    exact hsel
  | some i =>
    have hused : (d.fs i).used = true := mem_usedSlots.mp (List.mem_of_getElem? hi)
    have hlt := (List.getElem?_eq_some_iff.mp hi).1
    have hcount := length_usedSlots_update d.fs i
      { d.fs i with used := false, size := 0, size_le := FsFile.empty_le }
    rw [hused] at hcount
    rw [deleteSelected_eq h hi]
    simp only [SelInRange,Bool.toNat_true,Bool.toNat_false] at hcount ⊢
    split <;> omega

lemma newFile_selInRange (hsel : SelInRange d) : SelInRange (newFile d) := by
  unfold newFile
  split
  · have hcount := length_usedSlots_fsCreate d.fs (bytes "newfile.txt") []
    simp only [SelInRange] at hsel ⊢
    omega
  · exact hsel

/-- No key in the file manager moves the selection out of range. -/
lemma filesInput_selInRange (h : NamesDistinct d.fs) (hsel : SelInRange d) (c : UInt8) :
    SelInRange (filesInput d c) := by
  unfold filesInput
  dsimp only
  split_ifs with hview hq hup hpos hdown hnext
  all_goals try exact hsel
  · have hlt : d.fmSel-1 < (usedSlots d.fs).length := by
      unfold SelInRange at hsel
      omega
    exact .inl hlt
  · exact .inl hnext
  · exact newFile_selInRange hsel
  · exact deleteSelected_selInRange h hsel

end Delete

section Runs
variable {d d' : DesktopState} {keys : List UInt8} {c : UInt8}

/-- The names are distinct, and in the file manager a file is selected if there is one. -/
structure FilesInv (d : DesktopState) : Prop where
  names : NamesDistinct d.fs
  sel : d.activeApp = .files → SelInRange d

lemma FilesInv.step (hinv : FilesInv d) (h : desktopInputChar d c = .ok d') : FilesInv d' := by
  refine ⟨(desktopInputChar_fsChange h).namesDistinct hinv.names,?_⟩
  intro happ
  obtain hsame | hstart := desktopInputChar_app h (by rw [happ]; decide)
  · have happ₀ : d.activeApp = .files := hsame.symm.trans happ
    simp only [desktopInputChar,happ₀,Except.ok.injEq] at h
    subst h
    exact filesInput_selInRange hinv.names (hinv.sel happ₀) c
  · -- the file manager starts with the first file
    rw [hstart,happ]
    have hzero : (switchApp d .files).fmSel = 0 := rfl
    unfold SelInRange
    omega

theorem pressKeys_filesInv (h : pressKeys desktopInit keys = .ok d) : FilesInv d := by
  have hinit : FilesInv desktopInit := by
    refine ⟨fsInit_namesDistinct,?_⟩
    intro happ
    cases happ
  exact foldlM_ok_keeps (P := FilesInv) (fun _ _ _ hinv hstep => hinv.step hstep) keys hinit h

/-- Whatever was typed before, `D` in the list deletes the selected file and no other. -/
theorem delete_selected_file (h : pressKeys desktopInit keys = .ok d) (happ : d.activeApp = .files) :
    SelInRange d ∧ NamesDistinct d.fs ∧
      (d.fmView = false → 0 < (usedSlots d.fs).length → ∀ c, c = 100 ∨ c = 68 →
        ∃ i d', (usedSlots d.fs)[d.fmSel]? = some i ∧ desktopInputChar d c = .ok d' ∧
          DeletesOnly i d.fs d'.fs ∧ SelInRange d') := by
  have hinv := pressKeys_filesInv h
  have hsel := hinv.sel happ
  refine ⟨hsel,hinv.names,?_⟩
  intro hview hpos c hc
  have hlt : d.fmSel < (usedSlots d.fs).length := by
    unfold SelInRange at hsel
    omega
  have hi := List.getElem?_eq_getElem hlt
  have hkey : filesInput d c = filesDraw (deleteSelected d) := by
    unfold filesInput
    rw [hview]
    rcases hc with rfl | rfl <;> rfl
  refine ⟨(usedSlots d.fs)[d.fmSel],filesDraw (deleteSelected d),hi,?_,deleteSelected_deletesOnly hinv.names hi,
    deleteSelected_selInRange hinv.names hsel⟩
  simp only [desktopInputChar,happ,hkey]

/-- The file manager is opened and the second of the first four files is selected. -/
theorem delete_selected_file_second : ∃ d i d', pressKeys desktopInit (bytes "d\ns") = .ok d ∧
    (usedSlots d.fs)[1]? = some i ∧ desktopInputChar d 68 = .ok d' ∧ DeletesOnly i d.fs d'.fs := by
  obtain ⟨d,hd,hP⟩ := exists_of_holdsAfter
    (P := fun d => decide (d.activeApp = .files) && !d.fmView && decide (0 < (usedSlots d.fs).length) &&
      decide (d.fmSel = 1))
    (show holdsAfter _ (pressKeys desktopInit (bytes "d\ns")) = true by decide +kernel)
  simp only [Bool.and_eq_true,decide_eq_true_eq,Bool.not_eq_true'] at hP
  obtain ⟨⟨⟨happ,hview⟩,hpos⟩,hone⟩ := hP
  obtain ⟨i,d',hi,hd',hdel,-⟩ := (delete_selected_file hd happ).2.2 hview hpos 68 (.inr rfl)
  exact ⟨d,i,d',hd,by rw [← hone]; exact hi,hd',hdel⟩

end Runs
end Linuxab.Desktop
