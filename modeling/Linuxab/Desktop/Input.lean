import Linuxab.Desktop.Terminal

/-! The key handlers of `desktop.rs` and the router over them. -/
namespace Linuxab.Desktop
open Linuxab.Base
open Linuxab.Shell (bytes copyBytes strlen)

section Files

lemma length_fileName_le (f : FsFile) : (fileName f).length ≤ 32 := by
  rw [fileName,List.length_take,List.Vector.toList_length]
  exact Nat.min_le_right _ _

lemma fileName_fits (d : DesktopState) (i : Fin 32) : 0+(fileName (d.fs i)).length ≤ 32 := by
  rw [Nat.zero_add]
  exact length_fileName_le (d.fs i)

/-- The selected file is deleted by its name, padded with zeros. -/
def deleteSelected (d : DesktopState) : DesktopState :=
  match (usedSlots d.fs)[d.fmSel]? with
  | some i =>
    let name := blit (List.Vector.replicate 32 0) 0 (fileName (d.fs i)) (fileName_fits d i)
    { d with
      fs := (fsDelete d.fs name.toList).2
      fmSel := if 0 < d.fmSel then d.fmSel-1 else d.fmSel }
  | none => d

def newFile (d : DesktopState) : DesktopState :=
  if (fsFind d.fs (bytes "newfile.txt")).isNone then
    { d with fs := (fsCreate d.fs (bytes "newfile.txt") []).2 }
  else d

def filesInput (d : DesktopState) (c : UInt8) : DesktopState :=
  if d.fmView then
    if c = 113 ∨ c = 81 then filesDraw { d with fmView := false } else d
  else
    let count := (usedSlots d.fs).length
    if c = 119 ∨ c = 87 ∨ c = 0x48 then
      if 0 < d.fmSel then filesDraw { d with fmSel := d.fmSel-1 } else d
    else if c = 115 ∨ c = 83 ∨ c = 0x50 then
      if d.fmSel+1 < count then filesDraw { d with fmSel := d.fmSel+1 } else d
    else if c = 13 ∨ c = 10 then
      if 0 < count then filesDraw { d with fmView := true } else d
    else if c = 110 ∨ c = 78 then filesDraw (newFile d)
    else if c = 100 ∨ c = 68 then filesDraw (deleteSelected d)
    else if c = 113 ∨ c = 81 then switchApp d .desktop
    else d

end Files

def sysmonInput (d : DesktopState) (c : UInt8) : DesktopState :=
  if c = 113 ∨ c = 81 then switchApp d .desktop else d

section Editor

/-- `&ED_BUF[..ED_SIZE]` -/
def edText (d : DesktopState) : List UInt8 := d.edBuf.toList.take d.edSize

/-- Ctrl+S: to the file that was saved before, or to `untitled.txt`. -/
def editorSave (d : DesktopState) : DesktopState :=
  let name := d.edFilename.toList.take (strlen d.edFilename.toList)
  if 0 < strlen d.edFilename.toList then
    { d with fs := (fsWrite d.fs name (edText d)).2, edDirty := false }
  else
    { d with
      fs := (fsWrite d.fs (bytes "untitled.txt") (edText d)).2
      edFilename := copyBytes d.edFilename (bytes "untitled.txt")
      edDirty := false }

/-- The common body of the Enter and the printable branch. -/
def editorInsert (d : DesktopState) (c : UInt8) : DesktopState :=
  if h : d.edSize < 1023 then
    { d with
      edBuf := blit d.edBuf d.edSize [c] (by simp; omega)
      edSize := d.edSize+1
      edDirty := true
      edSize_le := by omega }
  else d

lemma edSize_pred_fits (d : DesktopState) (h : 0 < d.edSize) : d.edSize-1+[(0 : UInt8)].length ≤ 1024 :=
  (Nat.sub_add_cancel h).le.trans d.edSize_le

lemma edSize_pred_le (d : DesktopState) : d.edSize-1 ≤ 1024 := (Nat.sub_le _ _).trans d.edSize_le

def editorBackspace (d : DesktopState) : DesktopState :=
  if h : 0 < d.edSize then
    { d with
      edSize := d.edSize-1
      edBuf := blit d.edBuf (d.edSize-1) [0] (edSize_pred_fits d h)
      edDirty := true
      edSize_le := edSize_pred_le d }
  else d

/-- The cursor behind one more byte, wrapped at the right edge. -/
def advanceCursor (xy : ℕ × ℕ) (b : UInt8) : ℕ × ℕ :=
  if b = 10 then (0,xy.2+1)
  else if 80 ≤ xy.1+1 then (0,xy.2+1)
  else (xy.1+1,xy.2)

def placeCursor (d : DesktopState) : DesktopState :=
  let (x,y) := (edText d).foldl advanceCursor (0,0)
  { d with edCursX := x, edCursY := if 22 ≤ y then 21 else y }

def editorInput (d : DesktopState) (c : UInt8) : DesktopState :=
  if c = 0x11 then switchApp d .desktop
  else if c = 0x13 then editorDraw (editorSave d)
  else
    let d :=
      if c = 0x7F ∨ c = 0x08 then editorBackspace d
      else if c = 13 ∨ c = 10 then editorInsert d 10
      else if 0x20 ≤ c ∧ c ≤ 0x7E then editorInsert d c
      else d
    editorDraw (placeCursor d)

end Editor

section Router

def launcherInput (d : DesktopState) (c : UInt8) : DesktopState :=
  if c = 97 ∨ c = 65 ∨ c = 0x4B then
    if 0 < d.iconSel then drawDesktop { d with iconSel := d.iconSel-1 } else d
  else if c = 100 ∨ c = 68 ∨ c = 0x4D then
    if d.iconSel < 3 then drawDesktop { d with iconSel := d.iconSel+1 } else d
  else if c = 13 ∨ c = 10 then
    match d.iconSel with
    | 0 => switchApp d .terminal
    | 1 => switchApp d .files
    | 2 => switchApp d .sysmon
    | 3 => switchApp d .editor
    | _ => d
  else d

/-- `desktop_keypress` -/
def desktopInputChar (d : DesktopState) (c : UInt8) : Except Stop DesktopState :=
  match d.activeApp with
  | .desktop => .ok (launcherInput d c)
  | .terminal => termInput d c
  | .files => .ok (filesInput d c)
  | .sysmon => .ok (sysmonInput d c)
  | .editor => .ok (editorInput d c)

/-- A sequence of keys; after a stop there is no further one. -/
def pressKeys (d : DesktopState) (keys : List UInt8) : Except Stop DesktopState := keys.foldlM desktopInputChar d

end Router
end Linuxab.Desktop
