import Linuxab.Shell.FileMap
import Linuxab.Shell.State
import Linuxab.Shell.Words

/-! The state in which `shell_init` leaves the shell. -/
namespace Linuxab.Shell
open Linuxab.Base

/-- The root entry and the calls that `fs_init` makes after it. -/
def rootFiles : FileTable :=
  Function.update blankFiles 0
    { blankFiles 0 with used := true, isDir := true, path := copyBytes (blankFiles 0).path (bytes "/") }

def initCalls : List FsCall :=
  [.mkdir (bytes "/etc"),.mkdir (bytes "/bin"),.mkdir (bytes "/home"),.mkdir (bytes "/root"),
    .mkdir (bytes "/tmp"),.mkdir (bytes "/var"),.mkdir (bytes "/usr"),.mkdir (bytes "/usr/local"),
    .write (bytes "/etc/hostname") (bytes "linuxab-pc"),
    .write (bytes "/etc/passwd")
      (bytes "root:x:0:0:root:/root:/bin/sh\nguest:x:1000:1000:guest:/home/guest:/bin/sh"),
    .write (bytes "/etc/motd")
      (bytes "Welcome to linuxab OS!\nType 'help' for commands.\nType 'neofetch' for system info."),
    .write (bytes "/home/readme.txt")
      (bytes "This is your home directory.\nUse 'write <file> <text>' to create files.\nUse 'ls' to list.\nUse 'cat' to read."),
    .write (bytes "/root/.bashrc")
      (bytes "export PATH=/bin:/usr/bin:/usr/local/bin\nexport HOME=/root\nalias ll='ls -l'\nalias la='ls -a'")]

def fsInit : FileTable := (runSteps fsStep rootFiles initCalls).2

/-- The state after `shell_init`. -/
def bootState : ShellState where
  history := ⟨fun _ => ⟨List.Vector.replicate 256 0,0,Nat.zero_le _⟩,0,Nat.zero_le _⟩
  env := ⟨fun _ => ⟨List.Vector.replicate 32 0,List.Vector.replicate 64 0⟩,0,Nat.zero_le _⟩
  aliases := ⟨fun _ => ⟨List.Vector.replicate 32 0,List.Vector.replicate 256 0,0,Nat.zero_le _⟩,0,Nat.zero_le _⟩
  cwd := List.Vector.replicate 128 47
  cwdLen := 1
  files := fsInit
  processes :=
    ⟨fun _ => ⟨0,0,0,List.Vector.replicate 16 0,List.Vector.replicate 64 0⟩,0,Nat.zero_le _⟩
  totalMem := 0
  freeMem := 0
  cpuFreq := 0
  cpuCount := 0
  uptime := 0
  cwdLen_pos := rootLen_pos
  cwdLen_le := rootLen_le

lemma bootState_files : bootState.files = fsInit := by simp only [bootState]

lemma bootState_cwdText : bootState.cwdText = [47] := by
  change (List.replicate 128 (47 : UInt8)).take 1 = [47]
  rw [List.take_replicate]
  rfl

lemma FileMap.step_cases (m : FileMap) (c : FsCall) :
    (m.step c).2 = m ∨ ∃ node, (m.step c).2 = Function.update m c.path (some node) := by
  have hadd : ∀ node p, (m.add node p).2 = m ∨
      ∃ node', (m.add node p).2 = Function.update m p (some node') := by
    intro node p
    unfold FileMap.add
    split
    · exact Or.inr ⟨node,rfl⟩
    · exact Or.inl rfl
  cases c with
  | mkdir p => exact hadd .dir p
  | create p => exact hadd (.file []) p
  | write p data =>
    simp only [FileMap.step,FileMap.write]
    split
    · exact Or.inl rfl
    · exact Or.inr ⟨_,rfl⟩
    · exact hadd _ p
  | append p data =>
    simp only [FileMap.step,FileMap.append]
    split
    · exact Or.inr ⟨_,rfl⟩
    · exact Or.inl rfl
  | read p => exact Or.inl rfl

lemma FileMap.size_update_le (m : FileMap) (p : List UInt8) (node : Node) :
    FileMap.size (Function.update m p (some node)) ≤ m.size+1 := by
  have hsub : {q | Function.update m p (some node) q ≠ none} = insert p {q | m q ≠ none} := by
    ext q
    by_cases hq : q = p <;> simp [Function.update_apply,hq]
  rw [FileMap.size,hsub]
  exact Set.ncard_insert_le _ _

/-- Calls on other paths leave a path absent, and each of them adds at most one. -/
lemma FileMap.run_absent (m : FileMap) {p : List UInt8} (calls : List FsCall) (hp : ∀ c ∈ calls, p ≠ c.path) :
    (runSteps FileMap.step m calls).2 p = m p ∧ FileMap.size (runSteps FileMap.step m calls).2 ≤ m.size+calls.length := by
  induction calls generalizing m with
  | nil => exact ⟨rfl,Nat.le_refl _⟩
  | cons c calls ih =>
    obtain ⟨hlook,hsize⟩ := ih (m.step c).2 (fun c hc => hp c (by simp [hc]))
    have hstep : (m.step c).2 p = m p ∧ FileMap.size (m.step c).2 ≤ m.size+1 := by
      cases m.step_cases c with
      | inl he => rw [he]; exact ⟨rfl,Nat.le_succ _⟩
      | inr h =>
        obtain ⟨node,he⟩ := h
        rw [he]
        exact ⟨Function.update_of_ne (hp c (by simp)) _ _,m.size_update_le _ _⟩
    simp only [runSteps,List.length_cons]
    exact ⟨hlook.trans hstep.1,by omega⟩

/-- The map that the file table stands for after `fs_init`. -/
noncomputable def initMap : FileMap :=
  (runSteps FileMap.step (Function.update (fun _ => none) (bytes "/") (some .dir)) initCalls).2

lemma represents_fsInit : Represents fsInit initMap := by
  have hroot : Represents rootFiles (Function.update (fun _ => none) (bytes "/") (some .dir)) := by
    have hempty : Represents blankFiles (fun _ => none) := represents_empty fun _ => rfl
    apply hempty.update (e := { blankFiles 0 with
        used := true, isDir := true, path := copyBytes (blankFiles 0).path (bytes "/") }) rfl
    · exact text_copyBytes _ (by decide) (by decide)
    · intro h
      cases h
    · intro j _ h
      cases h
  apply (hroot.run initCalls _).2
  simp only [initCalls,List.forall_mem_cons,FsCall.path,ValidPath]
  decide

/-- A path that `fs_init` does not use is absent, and most of the table is free. -/
lemma initMap_absent {p : List UInt8} (hroot : p ≠ bytes "/") (hp : ∀ c ∈ initCalls, p ≠ c.path) :
    initMap p = none ∧ initMap.size < 48 := by
  obtain ⟨hlook,hsize⟩ := FileMap.run_absent (Function.update (fun _ => none) (bytes "/") (some .dir)) initCalls hp
  have hempty : FileMap.size (fun _ => none) = 0 := by simp [FileMap.size]
  have hone := FileMap.size_update_le (fun _ => none) (bytes "/") .dir
  constructor
  · rw [initMap,hlook,Function.update_of_ne hroot]
  · have hlen : initCalls.length = 13 := rfl
    rw [initMap]
    omega

end Linuxab.Shell
