import Linuxab.Base.Fold
import Linuxab.Shell.Boot
import Linuxab.Shell.Execute

/-!
The commands that use the working directory, with `CWD_LEN` a number of which nothing is known: each
slice, copy and index of `terl.rs` that depends on it is checked, and a command that gets out of range
stops the program (`none`).  The states of the shell proper, whose length has a bound, never do.
-/
namespace Linuxab.Shell
open Linuxab.Base

/-- The globals that the path commands use. -/
structure RawShell where
  cwd : PathBuf
  cwdLen : ℕ
  files : FileTable

/-- `&v[..n]` -/
def slice? {α : Type} {k : ℕ} (v : List.Vector α k) (n : ℕ) : Option (List α) :=
  if n ≤ k then some (v.toList.take n) else none

/-- `&v[n..]` -/
def sliceFrom? {α : Type} {k : ℕ} (v : List.Vector α k) (n : ℕ) : Option (List α) :=
  if n ≤ k then some (v.toList.drop n) else none

namespace RawShell
variable (r : RawShell)

/-- `&CWD[..CWD_LEN]` -/
def cwdText? : Option (List UInt8) := slice? r.cwd r.cwdLen

/-- `path_normalize(&CWD[..CWD_LEN], input)` -/
def normalize? (input : List UInt8) : Option PathBuf := do pathNormalize (← r.cwdText?) input

/-- What `ls` lists: its argument, or a copy of the working directory. -/
def lsTarget? : Args → Option PathBuf
  | _::path::_ => r.normalize? path
  | _ => do blit? zeroPath 0 (← r.cwdText?)

/-- The line for an entry, if there is one. -/
def lsLine? (target : PathBuf) (e : FileEntry) : Option (Option Output) := do
  let prefixLen := strlen target.toList
  let p := e.path
  if e.used = false then return none
  if strlen p.toList < prefixLen then return none
  if (← slice? p prefixLen) ≠ (← slice? target prefixLen) then return none
  if strlen p.toList = prefixLen then return none
  let rel ← sliceFrom? p prefixLen
  let relTrim := if rel.head? = some 47 then rel.tail else rel
  if 47 ∈ relTrim then return none
  return some ((if e.isDir then printColor "[dir]  " cBcyan else printColor "[file] " cGreen) ++
    printBytes relTrim ++ newline)

def cmdLs? (args : Args) : Option Output := do
  let target ← r.lsTarget? args
  let lines ← (List.finRange 48).mapM fun i => lsLine? target (r.files i)
  let lines := lines.reduceOption
  return if lines = [] then printStr "total 0\n" else lines.flatten

/-- The end of `cmd_cd`, where the directory has been found. -/
def enter? (path : PathBuf) : Option RawShell := do
  let plen := strlen path.toList
  let cwd ← blit? r.cwd 0 (← slice? path plen)
  if 0 < plen then
    if (← byte? cwd (plen-1)) ≠ 47 ∧ plen < 127 then
      return { r with cwd := ← blit? cwd plen [47], cwdLen := plen+1 }
  return { r with cwd := cwd, cwdLen := plen }

def cmdCd? : Args → Option (RawShell × Output)
  | _::path::_ => do
    let path ← r.normalize? path
    match fsFind r.files path.toList with
    | some idx =>
      if (r.files idx).isDir then return (← r.enter? path,[])
      else return (r,printColor "cd: not a directory\n" cBred)
    | none => return (r,printColor "cd: no such file or directory\n" cBred)
  | _ => do return ({ r with cwd := ← blit? r.cwd 0 [47], cwdLen := 1 },[])

def cmdCat? : Args → Option Output
  | _::path::_ => do
    match fsRead r.files (← r.normalize? path).toList with
    | some data => return printBytes data ++ newline
    | none => return printColor "cat: no such file\n" cBred
  | _ => some (printStr "usage: cat <file>\n")

def cmdPwd? : Option Output := do return printBytes (← r.cwdText?) ++ newline

def cmdTouch? : Args → Option RawShell
  | _::path::_ => do
    let path ← r.normalize? path
    if (fsFind r.files path.toList).isNone then return { r with files := (fsCreate r.files path.toList).2 }
    else return r
  | _ => some r

def cmdMkdir? : Args → Option RawShell
  | _::path::_ => do return { r with files := (fsMkdir r.files (← r.normalize? path).toList).2 }
  | _ => some r

def cmdRm? : Args → Option (RawShell × Output)
  | _::path::_ => do
    let (removed,files) := fsDelete r.files (← r.normalize? path).toList
    return ({ r with files := files },if removed then [] else printColor "rm: cannot remove\n" cBred)
  | _ => some (r,printStr "usage: rm <file/dir>\n")

/-- The common body of `write` and `append`. -/
def putWords? (store : FileTable → List UInt8 → List UInt8 → Bool × FileTable) (usage : String) :
    Args → Option (RawShell × Output)
  | _::path::word::words => do
    return ({ r with files := (store r.files (← r.normalize? path).toList (joinWords 4096 (word::words))).2 },[])
  | _ => some (r,printStr usage)

/-- The file that `source` reads; the lines in it are commands of their own. -/
def cmdSource? : Args → Option Output
  | _::path::_ => do
    match fsRead r.files (← r.normalize? path).toList with
    | some _ => return []
    | none => return printColor "source: file not found\n" cBred
  | _ => some []

/-- The call that `dispatch` makes, for the commands that use the working directory. -/
def runBuiltin? (args : Args) : Builtin → Option (RawShell × Output)
  | .ls => do return (r,← r.cmdLs? args)
  | .cat => do return (r,← r.cmdCat? args)
  | .cd => r.cmdCd? args
  | .pwd => do return (r,← r.cmdPwd?)
  | .touch => do return (← r.cmdTouch? args,[])
  | .mkdir => do return (← r.cmdMkdir? args,[])
  | .rm => r.cmdRm? args
  | .write => r.putWords? fsWrite "usage: write <file> <text...>\n" args
  | .append => r.putWords? fsAppend "usage: append <file> <text...>\n" args
  | .source => do return (r,← r.cmdSource? args)
  | _ => some (r,[])

/-- One command, and the prompt that follows it. -/
def step (args : Args) : Option RawShell := do
  let r' ← match builtinOf (args.headD []) with
    | some b => do return (← r.runBuiltin? args b).1
    | none => some r
  let _ ← r'.cwdText?
  return r'

end RawShell

/-! ## The shell's states stay in range -/

/-- A state of the shell without its bounds. -/
def ShellState.raw (s : ShellState) : RawShell := ⟨s.cwd,s.cwdLen,s.files⟩

section Raw
variable (s : ShellState) (args : Args)

lemma slice?_of_le {α : Type} {k n : ℕ} (v : List.Vector α k) (h : n ≤ k) : slice? v n = some (v.toList.take n) :=
  if_pos h

lemma strlen_vector_le {k : ℕ} (v : List.Vector UInt8 k) : strlen v.toList ≤ k :=
  (strlen_le_length _).trans (by rw [List.Vector.toList_length])

@[simp] lemma raw_cwdText? : s.raw.cwdText? = some s.cwdText :=
  slice?_of_le s.cwd (s.cwdLen_le.trans (by decide))

@[simp] lemma raw_normalize? (input : List UInt8) : s.raw.normalize? input = some (s.normalize input) := by
  rw [RawShell.normalize?,raw_cwdText?]
  exact (Option.some_get (s.pathNormalize_isSome input)).symm

/-- The slices of the listing end at a length of one of the arrays. -/
lemma lsLine?_eq (target : PathBuf) (e : FileEntry) : RawShell.lsLine? target e = some (lsLine target e) := by
  have hle := strlen_vector_le target
  simp only [RawShell.lsLine?,lsLine,slice?_of_le _ hle,sliceFrom?,if_pos hle,Option.bind_eq_bind,Option.bind_some]
  by_cases hu : e.used = false
  · simp only [hu,if_true]
    rfl
  by_cases hshort : strlen e.path.toList < strlen target.toList
  · simp only [hu,hshort,if_true,true_or]
    rfl
  by_cases hpre : e.path.toList.take (strlen target.toList) = target.toList.take (strlen target.toList)
  · simp only [hu,hshort,hpre,ne_eq,not_true,if_false,or_self]
    split_ifs <;> rfl
  · simp only [hu,hshort,hpre,ne_eq,not_false_eq_true,if_true,if_false,or_true]
    rfl

lemma cwdText_fits (s : ShellState) : 0+s.cwdText.length ≤ 128 := by
  have := s.length_cwdText
  have := s.cwdLen_le
  omega

lemma raw_lsTarget? : s.raw.lsTarget? args = some (match args with
    | _::path::_ => s.normalize path
    | _ => blit zeroPath 0 s.cwdText (cwdText_fits s)) := by
  match args with
  | [] => simp [RawShell.lsTarget?,blit?_of_le zeroPath (cwdText_fits s)]
  | [_] => simp [RawShell.lsTarget?,blit?_of_le zeroPath (cwdText_fits s)]
  | _::path::_ => simp [RawShell.lsTarget?]

lemma raw_cmdLs? : s.raw.cmdLs? args = some (cmdLs s args) := by
  have hlines : ∀ target, (List.finRange 48).mapM (fun i => RawShell.lsLine? target (s.raw.files i)) =
      some ((List.finRange 48).map fun i => lsLine target (s.files i)) := by
    intro target
    simp only [lsLine?_eq]
    exact List.mapM_pure
  have hfilter : ∀ f : Fin 48 → Option Output, ((List.finRange 48).map f).reduceOption =
      (List.finRange 48).filterMap f := fun f => List.filterMap_map
  rw [RawShell.cmdLs?,raw_lsTarget?]
  simp only [Option.bind_eq_bind,Option.bind_some,hlines,hfilter]
  rfl

/-- A directory that is entered fits with its separator. -/
lemma raw_enter? {path : PathBuf} (hpos : 1 ≤ strlen path.toList) (hle : strlen path.toList ≤ 127) :
    s.raw.enter? path = some (enterDirectory s path hpos hle).raw := by
  have hfit := path_fits path
  have hlast : ∃ b, byte? (blit s.cwd 0 (path.toList.take (strlen path.toList)) hfit) (strlen path.toList-1) = some b :=
    exists_byte? _ (by omega)
  obtain ⟨b,hb⟩ := hlast
  simp only [RawShell.enter?,slice?_of_le path (strlen_vector_le path),Option.bind_eq_bind,Option.bind_some]
  rw [blit?_of_le _ hfit,Option.bind_some,if_pos (show 0 < strlen path.toList from hpos)]
  change (byte? (blit s.cwd 0 _ hfit) _).bind _ = _
  rw [hb,Option.bind_some]
  by_cases hsep : b ≠ 47 ∧ strlen path.toList < 127
  · have henter : byte? (blit s.cwd 0 (path.toList.take (strlen path.toList)) hfit) (strlen path.toList-1) ≠ some 47 ∧
        strlen path.toList < 127 := ⟨by rw [hb]; simpa using hsep.1,hsep.2⟩
    rw [if_pos hsep,blit?_of_le _ (separator_fits path hle),enterDirectory]
    simp only [dif_pos henter]
    rfl
  · have henter : ¬ (byte? (blit s.cwd 0 (path.toList.take (strlen path.toList)) hfit) (strlen path.toList-1) ≠ some 47 ∧
        strlen path.toList < 127) := by rw [hb]; simpa using hsep
    rw [if_neg hsep,enterDirectory]
    simp only [dif_neg henter]
    rfl

lemma raw_cmdCd? : s.raw.cmdCd? args = some ((cmdCd s args).1.raw,(cmdCd s args).2) := by
  match args with
  | [] => rfl
  | [_] => rfl
  | _::path::_ =>
    have hfiles : s.raw.files = s.files := rfl
    simp only [RawShell.cmdCd?,cmdCd,raw_normalize?,Option.bind_eq_bind,Option.bind_some,hfiles]
    cases fsFind s.files (s.normalize path).toList with
    | none => rfl
    | some idx =>
      cases hdir : (s.files idx).isDir with
      | false => simp [hdir]
      | true => simp [hdir,raw_enter? s (s.strlen_normalize path).1 (s.strlen_normalize path).2]

lemma raw_files : s.raw.files = s.files := rfl

lemma raw_cmdCat? : s.raw.cmdCat? args = some (cmdCat s args) := by
  match args with
  | [] | [_] => rfl
  | _::path::_ =>
    simp only [RawShell.cmdCat?,cmdCat,raw_normalize?,Option.bind_eq_bind,Option.bind_some,raw_files]
    cases fsRead s.files (s.normalize path).toList <;> rfl

lemma raw_cmdPwd? : s.raw.cmdPwd? = some (cmdPwd s) := by
  rw [RawShell.cmdPwd?,raw_cwdText?]
  rfl

lemma raw_cmdTouch? : s.raw.cmdTouch? args = some (cmdTouch s args).raw := by
  match args with
  | [] | [_] => rfl
  | _::path::_ =>
    simp only [RawShell.cmdTouch?,cmdTouch,raw_normalize?,Option.bind_eq_bind,Option.bind_some]
    by_cases hnew : (fsFind s.raw.files (s.normalize path).toList).isNone = true
    · rw [if_pos hnew,if_pos (by exact hnew)]
      rfl
    · rw [if_neg hnew,if_neg (by exact hnew)]
      rfl

lemma raw_cmdMkdir? : s.raw.cmdMkdir? args = some (cmdMkdir s args).raw := by
  match args with
  | [] | [_] => rfl
  | _::path::_ =>
    simp only [RawShell.cmdMkdir?,cmdMkdir,raw_normalize?,Option.bind_eq_bind,Option.bind_some,raw_files]
    rfl

lemma raw_cmdRm? : s.raw.cmdRm? args = some ((cmdRm s args).1.raw,(cmdRm s args).2) := by
  match args with
  | [] | [_] => rfl
  | _::path::_ =>
    simp only [RawShell.cmdRm?,cmdRm,raw_normalize?,Option.bind_eq_bind,Option.bind_some,raw_files]
    rfl

lemma raw_putWords? (store : FileTable → List UInt8 → List UInt8 → Bool × FileTable) (usage : String) :
    s.raw.putWords? store usage args = some ((putWords store usage s args).1.raw,(putWords store usage s args).2) := by
  match args with
  | [] | [_] | [_,_] => rfl
  | _::path::_::_ =>
    simp only [RawShell.putWords?,putWords,raw_normalize?,Option.bind_eq_bind,Option.bind_some,raw_files]
    rfl

lemma raw_cmdSource? : ∃ out, s.raw.cmdSource? args = some out := by
  match args with
  | [] | [_] => exact ⟨_,rfl⟩
  | _::path::_ =>
    simp only [RawShell.cmdSource?,raw_normalize?,Option.bind_eq_bind,Option.bind_some,raw_files]
    cases fsRead s.files (s.normalize path).toList <;> exact ⟨_,rfl⟩

/-- The path commands that are not `source`. -/
def pathCommands : List Builtin := [.ls,.cat,.cd,.pwd,.touch,.mkdir,.rm,.write,.append]

/-- A checked command does what the command of the shell does. -/
theorem raw_runBuiltin? (b : Builtin) : ∃ s' out, s.raw.runBuiltin? args b = some (s'.raw,out) ∧
    (b ∈ pathCommands → runBuiltin s args b = answer (s',out)) := by
  cases b with
  | ls => exact ⟨s,_,by simp only [RawShell.runBuiltin?,raw_cmdLs?]; rfl,fun _ => rfl⟩
  | cat => exact ⟨s,_,by simp only [RawShell.runBuiltin?,raw_cmdCat?]; rfl,fun _ => rfl⟩
  | cd => exact ⟨_,_,raw_cmdCd? s args,fun _ => rfl⟩
  | pwd => exact ⟨s,_,by simp only [RawShell.runBuiltin?,raw_cmdPwd?]; rfl,fun _ => rfl⟩
  | touch => exact ⟨_,_,by simp only [RawShell.runBuiltin?,raw_cmdTouch?]; rfl,fun _ => rfl⟩
  | mkdir => exact ⟨_,_,by simp only [RawShell.runBuiltin?,raw_cmdMkdir?]; rfl,fun _ => rfl⟩
  | rm => exact ⟨_,_,raw_cmdRm? s args,fun _ => rfl⟩
  | write => exact ⟨_,_,raw_putWords? s args _ _,fun _ => rfl⟩
  | append => exact ⟨_,_,raw_putWords? s args _ _,fun _ => rfl⟩
  | source =>
    obtain ⟨out,hout⟩ := raw_cmdSource? s args
    exact ⟨s,out,by simp only [RawShell.runBuiltin?,hout]; rfl,fun h => absurd h (by decide)⟩
  | _ => exact ⟨s,[],rfl,fun h => absurd h (by decide)⟩

/-- A command and the prompt behind it lead from a state in range to another one. -/
lemma raw_step : ∃ s' : ShellState, s.raw.step args = some s'.raw := by
  unfold RawShell.step
  cases builtinOf (args.headD []) with
  | none => exact ⟨s,by simp⟩
  | some b =>
    obtain ⟨s',out,hrun,-⟩ := raw_runBuiltin? s args b
    exact ⟨s',by simp [hrun]⟩

end Raw

/-- In the root directory the working directory has one byte. -/
lemma exists_raw {r : RawShell} (h : r.cwdText? = some [47]) : ∃ s : ShellState, s.raw = r := by
  have hlen : r.cwdLen = 1 := by
    unfold RawShell.cwdText? slice? at h
    split_ifs at h with hle
    have hl := congrArg List.length (Option.some.inj h)
    rwa [List.length_take,List.Vector.toList_length,Nat.min_eq_left hle] at hl
  exact ⟨{ bootState with
    cwd := r.cwd, cwdLen := r.cwdLen, files := r.files, cwdLen_pos := hlen.ge, cwdLen_le := by omega },rfl⟩

/-- `path_normalize` returns for every working directory of at most 127 bytes and every input, and with
a NUL in its array.  So no sequence of commands that starts in the root directory gets out of range, and
the length of the working directory stays between 1 and 127. -/
theorem working_directory_bounded :
    (∀ cwd input : List UInt8, cwd.length ≤ 127 →
      ∃ v, pathNormalize cwd input = some v ∧ strlen v.toList ≤ 127) ∧
    ∀ r : RawShell, r.cwdText? = some [47] → ∀ commands : List Args,
      ∃ r', commands.foldlM RawShell.step r = some r' ∧ 1 ≤ r'.cwdLen ∧ r'.cwdLen ≤ 127 := by
  constructor
  · intro cwd input hcwd
    obtain ⟨v,t,hv,hpad,h0,-,hlen⟩ := pathNormalize_total hcwd input
    exact ⟨v,hv,by rwa [strlen_eq,hpad,text_padded h0]⟩
  · intro r hr commands
    have hstep : ∀ (r : RawShell) (args : Args), (∃ s : ShellState, s.raw = r) →
        ∃ r', r.step args = pure r' ∧ ∃ s : ShellState, s.raw = r' := by
      rintro _ args ⟨s,rfl⟩
      obtain ⟨s',hs'⟩ := raw_step s args
      exact ⟨s'.raw,hs',s',rfl⟩
    obtain ⟨_,hrun,s,rfl⟩ := exists_foldlM hstep commands (exists_raw hr)
    exact ⟨s.raw,hrun,s.cwdLen_pos,s.cwdLen_le⟩

theorem working_directory_bounded_boot :
    (∃ v, pathNormalize (bytes "/usr") (bytes "../lib") = some v ∧ strlen v.toList ≤ 127) ∧
    ∃ r, [[bytes "cd",bytes "usr"],[bytes "cd",bytes ".."],[bytes "ls"]].foldlM RawShell.step bootState.raw = some r ∧
      1 ≤ r.cwdLen ∧ r.cwdLen ≤ 127 :=
  ⟨working_directory_bounded.1 _ _ (by decide),
    working_directory_bounded.2 bootState.raw (by rw [raw_cwdText?,bootState_cwdText]) _⟩

end Linuxab.Shell
