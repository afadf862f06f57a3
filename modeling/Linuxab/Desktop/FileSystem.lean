import Mathlib.Data.List.FinRange
import Mathlib.Logic.Function.Basic
import Linuxab.Shell.Words

/-! The RAM file system of `desktop.rs`: 32 flat files of at most 1024 bytes. The string helpers are
those of the shell. -/
namespace Linuxab.Desktop
open Linuxab.Base
open Linuxab.Shell (bytes copyBytes strEq)

structure FsFile where
  name : List.Vector UInt8 32
  data : List.Vector UInt8 1024
  size : ℕ
  used : Bool
  size_le : size ≤ 1024

lemma FsFile.empty_le : 0 ≤ 1024 := Nat.zero_le _

abbrev FsTable := Fin 32 → FsFile

/-- `data[..size]` -/
def FsFile.contents (f : FsFile) : List UInt8 := f.data.toList.take f.size

/-- `data[..len].copy_from_slice(&data[..len])` and the new size. -/
def FsFile.store (f : FsFile) (data : List UInt8) : FsFile :=
  { f with
    data := blit f.data 0 (data.take (min data.length 1024)) (by simp)
    size := min data.length 1024
    size_le := Nat.min_le_right _ _ }

def fsFind (fs : FsTable) (name : List UInt8) : Option (Fin 32) :=
  (List.finRange 32).find? fun i => (fs i).used && strEq (fs i).name.toList name

/-- Take the first unused slot unless the name exists. -/
def fsCreate (fs : FsTable) (name data : List UInt8) : Bool × FsTable :=
  if (fsFind fs name).isSome then (false,fs)
  else
    match (List.finRange 32).find? fun i => !(fs i).used with
    | some i =>
      let f := { fs i with used := true, name := copyBytes (fs i).name name }
      (true,Function.update fs i (f.store data))
    | none => (false,fs)

def fsWrite (fs : FsTable) (name data : List UInt8) : Bool × FsTable :=
  match fsFind fs name with
  | some i => (true,Function.update fs i ((fs i).store data))
  | none => fsCreate fs name data

def fsRead (fs : FsTable) (name : List UInt8) : Option (List UInt8) :=
  (fsFind fs name).map fun i => (fs i).contents

def fsDelete (fs : FsTable) (name : List UInt8) : Bool × FsTable :=
  match fsFind fs name with
  | some i => (true,Function.update fs i { fs i with used := false, size := 0, size_le := FsFile.empty_le })
  | none => (false,fs)

/-- `static mut FS` before `fs_init`. -/
def blankFs : FsTable := fun _ =>
  { name := List.Vector.replicate 32 0, data := List.Vector.replicate 1024 0, size := 0, used := false,
    size_le := FsFile.empty_le }

def fsInit : FsTable :=
  let fs := (fsCreate blankFs (bytes "motd.txt")
    (bytes "Welcome to linuxab Desktop!\nSelect an app with arrow keys and press Enter.\n")).2
  let fs := (fsCreate fs (bytes "notes.txt")
    (bytes "Your notes here.\nUse the Editor app to modify this file.\n")).2
  let fs := (fsCreate fs (bytes "todo.txt")
    (bytes "[ ] Fix keyboard driver\n[ ] Add mouse support\n[ ] Write real network stack\n")).2
  (fsCreate fs (bytes "readme.txt")
    (bytes "This is the desktop file manager.\nAll files are stored in RAM.\nUse Editor to create new files.\n")).2

/-- The used slots in slot order. -/
def usedSlots (fs : FsTable) : List (Fin 32) := (List.finRange 32).filter fun i => (fs i).used

end Linuxab.Desktop
