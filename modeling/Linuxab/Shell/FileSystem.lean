import Mathlib.Data.Fintype.Card
import Mathlib.Data.List.FinRange
import Mathlib.Logic.Function.Basic
import Linuxab.Shell.Text

/-! The RAM file system of `terl.rs`: a table of 48 entries that is searched from the front. -/
namespace Linuxab.Shell
open Linuxab.Base

structure FileEntry where
  path : List.Vector UInt8 128
  data : List.Vector UInt8 4096
  size : ℕ
  isDir : Bool
  used : Bool
  size_le : size ≤ 4096

lemma FileEntry.empty_le : 0 ≤ 4096 := Nat.zero_le _

/-- `static mut FILES`. -/
abbrev FileTable := Fin 48 → FileEntry

/-- The bytes of a file, `data[..size]`. -/
def FileEntry.contents (e : FileEntry) : List UInt8 := e.data.toList.take e.size

def fsFind (files : FileTable) (path : List UInt8) : Option (Fin 48) :=
  (List.finRange 48).find? fun i => (files i).used && strEq (files i).path.toList path

def fsFindFree (files : FileTable) : Option (Fin 48) :=
  (List.finRange 48).find? fun i => !(files i).used

/-- An entry that is put to use for a new directory or file; its data bytes stay. -/
def FileEntry.claim (e : FileEntry) (path : List UInt8) (isDir : Bool) : FileEntry :=
  { e with
    used := true
    isDir := isDir
    size := 0
    path := copyBytes e.path path
    size_le := FileEntry.empty_le }

/-- The common body of `fs_mkdir` and `fs_create`. -/
def fsAdd (isDir : Bool) (files : FileTable) (path : List UInt8) : Bool × FileTable :=
  if (fsFind files path).isSome then (false,files)
  else
    match fsFindFree files with
    | some i => (true,Function.update files i ((files i).claim path isDir))
    | none => (false,files)

def fsMkdir : FileTable → List UInt8 → Bool × FileTable := fsAdd true
def fsCreate : FileTable → List UInt8 → Bool × FileTable := fsAdd false

/-- `data[..len].copy_from_slice(&data[..len])` and the new size. -/
def FileEntry.overwrite (e : FileEntry) (data : List UInt8) : FileEntry :=
  { e with
    data := blit e.data 0 (data.take (min data.length 4096)) (by simp)
    size := min data.length 4096
    size_le := Nat.min_le_right _ _ }

/-- Copy what still fits behind the current contents. -/
def FileEntry.extend (e : FileEntry) (data : List UInt8) : FileEntry :=
  { e with
    data := blit e.data e.size (data.take (min data.length (4096-e.size)))
      (by have := e.size_le; simp; omega)
    size := e.size+min data.length (4096-e.size)
    size_le := by have := e.size_le; omega }

/-- The number of unused entries. -/
def freeCount (files : FileTable) : ℕ := (Finset.univ.filter fun i => (files i).used = false).card

lemma fsFindFree_spec {files : FileTable} {i : Fin 48} (h : fsFindFree files = some i) :
    (files i).used = false := by
  have := List.find?_some h
  simpa using this

lemma freeCount_claim {files : FileTable} {i : Fin 48} (h : (files i).used = false) (path : List UInt8)
    (isDir : Bool) : freeCount (Function.update files i ((files i).claim path isDir)) < freeCount files := by
  unfold freeCount
  apply Finset.card_lt_card
  rw [Finset.ssubset_iff_of_subset]
  · refine ⟨i,by simpa using h,?_⟩
    rw [Finset.mem_filter,Function.update_self]
    simp [FileEntry.claim]
  · intro j hj
    simp only [Finset.mem_filter,Finset.mem_univ,true_and] at hj ⊢
    by_cases hij : j = i
    · subst hij
      exact h
    · rwa [Function.update_of_ne hij] at hj

/-- A successful creation uses up a free entry. -/
lemma freeCount_fsAdd {isDir : Bool} {files : FileTable} {path : List UInt8}
    (h : (fsAdd isDir files path).1) : freeCount (fsAdd isDir files path).2 < freeCount files := by
  unfold fsAdd at *
  split at h
  · simp at h
  · cases hi : fsFindFree files with
    | none => simp [hi] at h
    | some i =>
      rw [if_neg (by assumption)]
      exact freeCount_claim (fsFindFree_spec hi) path isDir

/-- Write to the file, creating it first if there is none. -/
def fsWrite (files : FileTable) (path data : List UInt8) : Bool × FileTable :=
  match fsFind files path with
  | some idx =>
    if (files idx).isDir then (false,files)
    else (true,Function.update files idx ((files idx).overwrite data))
  | none =>
    if _h : (fsCreate files path).1 then fsWrite (fsCreate files path).2 path data
    else (false,(fsCreate files path).2)
termination_by freeCount files
decreasing_by exact freeCount_fsAdd _h

def fsAppend (files : FileTable) (path data : List UInt8) : Bool × FileTable :=
  match fsFind files path with
  | some idx =>
    if (files idx).isDir then (false,files)
    else (true,Function.update files idx ((files idx).extend data))
  | none => (false,files)

def fsRead (files : FileTable) (path : List UInt8) : Option (List UInt8) :=
  match fsFind files path with
  | some idx => if (files idx).isDir then none else some (files idx).contents
  | none => none

lemma fsFind_spec {files : FileTable} {path : List UInt8} {i : Fin 48} (h : fsFind files path = some i) :
    (files i).used = true ∧ text (files i).path.toList = text path := by
  have := List.find?_some h
  rwa [Bool.and_eq_true,strEq_iff] at this

lemma fsFind_eq_none {files : FileTable} {path : List UInt8} :
    fsFind files path = none ↔ ∀ i, (files i).used → text (files i).path.toList ≠ text path := by
  simp [fsFind,List.find?_eq_none,strEq_iff]

/-- The entry lies below the directory whose path has `prefixLen` bytes. -/
def liesBelow (entry dir : FileEntry) (prefixLen : ℕ) : Bool :=
  startsWith entry.path.toList (dir.path.toList.take prefixLen) &&
    decide (prefixLen < strlen entry.path.toList) && entry.path.toList[prefixLen]? == some 47

/-- Delete an entry; a directory takes the entries below it with it. -/
def fsDelete (files : FileTable) (path : List UInt8) : Bool × FileTable :=
  match _h : fsFind files path with
  | some idx =>
    let prefixLen := strlen (files idx).path.toList
    let files' :=
      if (files idx).isDir then
        (List.finRange 48).foldl (fun current j =>
          if j = idx ∨ (current j).used = false then current
          else if _hj : liesBelow (current j) (current idx) prefixLen then
            (fsDelete current (current j).path.toList).2
          else current) files
      else files
    (true,Function.update files' idx { files' idx with
      used := false, size := 0, size_le := FileEntry.empty_le })
  | none => (false,files)
termination_by 128-strlen path
decreasing_by
  have hpath : strlen (files idx).path.toList = strlen path := by
    rw [strlen_eq,strlen_eq,(fsFind_spec _h).2]
  simp only [liesBelow,Bool.and_eq_true,decide_eq_true_eq] at _hj
  obtain ⟨⟨-,_⟩,-⟩ := _hj
  have hle := strlen_le_length (current j).path.toList
  rw [List.Vector.toList_length] at hle
  omega

end Linuxab.Shell
