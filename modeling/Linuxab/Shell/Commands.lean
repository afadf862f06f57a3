import Linuxab.Shell.State
import Linuxab.Shell.Words

/-! The commands of `terl.rs` except those that stop the machine and `source`. A command gets all its
arguments, its own name first, and answers with what it prints. -/
namespace Linuxab.Shell
open Linuxab.Base

def cGreen : UInt8 := 2
def cBred : UInt8 := 9
def cBcyan : UInt8 := 11

abbrev Args := List (List UInt8)

section System

def cmdHelp : Output :=
  printColor "=== linuxab Real Shell ===\n" cBcyan ++
  printStr "System : help clear reboot shutdown halt uname version uptime date\n" ++
  printStr "         mem cpu ps kill dmesg whoami hostname neofetch\n" ++
  printStr "Files  : ls cat cd pwd touch mkdir rm write append\n" ++
  printStr "Shell  : echo history alias unalias export env source exec\n" ++
  newline

def cmdClear : Output := [.clearScreen]
def cmdUname : Output := printStr "linuxab\n"
def cmdVersion : Output := printStr "linuxab OS v0.1.0 (realProxik)\n" ++ printStr "License: GPL-2.0\n"

def cmdUptime (s : ShellState) : Output :=
  let up := s.uptime.toNat
  printNum (up/3600) ++ printStr "h " ++ printNum (up%3600/60) ++ printStr "m " ++
  printNum (up%60) ++ printStr "s\n"

def cmdDate : Output :=
  printStr "Sat Jan 01 00:00:00 UTC 2026\n" ++ printStr "(Wire RTC driver for real time)\n"

/-- The difference is taken in 64-bit arithmetic. -/
def cmdMem (s : ShellState) : Output :=
  printStr "total: " ++ printNum (s.totalMem.toNat/1024) ++ printStr " KB\n" ++
  printStr "free:  " ++ printNum (s.freeMem.toNat/1024) ++ printStr " KB\n" ++
  printStr "used:  " ++ printNum ((s.totalMem-s.freeMem).toNat/1024) ++ printStr " KB\n"

def cmdCpu (s : ShellState) : Output :=
  printStr "cpus: " ++ printNum s.cpuCount.toNat ++ newline ++
  printStr "freq: " ++ printNum s.cpuFreq.toNat ++ printStr " MHz\n"

def printProc (p : ProcInfo) : Output :=
  printNum p.pid.toNat ++ printStr "    " ++ printNum p.ppid.toNat ++ printStr "    " ++
  [.putchar p.state] ++ printStr " " ++ printBytes p.name.toList ++ printStr "  " ++
  printBytes p.cmdline.toList ++ newline

def cmdPs (s : ShellState) : Output :=
  if s.processes.count = 0 then printStr "No processes. Wire kernel to shell_register_process().\n"
  else
    printColor "PID   PPID  S NAME             CMDLINE\n" cBcyan ++
    s.processes.indices.flatMap fun i => printProc (s.processes.slots i)

def cmdKill : Args → Output
  | _::pid::rest =>
    let sig := match rest with
      | sig::_ => parseU32 sig
      | [] => 9
    printStr "kill: sig " ++ printNum sig.toNat ++ printStr " -> pid " ++ printNum (parseU32 pid).toNat ++
    newline ++ printStr "(Wire kernel_kill() for real signal delivery)\n"
  | _ => printStr "usage: kill <pid> [sig]\n"

def cmdDmesg : Output := printStr "(Wire kernel_dmesg() to read printk ring buffer)\n"
def cmdWhoami : Output := printStr "root\n"

def cmdHostname (s : ShellState) : Output :=
  match fsRead s.files (bytes "/etc/hostname") with
  | some data => printBytes data ++ newline
  | none => printStr "linuxab-pc\n"

def cmdNeofetch (s : ShellState) : Output :=
  printColor "       _                _     \n" cBcyan ++
  printColor "      | |              | |    \n" cBcyan ++
  printColor "      | |  _ __   __ _ | |__  \n" cBcyan ++
  printColor "  _   | | | '_ \\ / _` || '_ \\ \n" cBcyan ++
  printColor " | |__| | | | | | (_| || |_) |\n" cBcyan ++
  printColor "  \\____/  |_| |_|\\__,_||_.__/ \n" cBcyan ++
  newline ++
  printStr "OS:      linuxab\n" ++
  printStr "Kernel:  0.1.0\n" ++
  printStr "Shell:   terl\n" ++
  printStr "User:    root\n" ++
  printStr "Uptime:  " ++ cmdUptime s ++
  printStr "Memory:  " ++ cmdMem s ++
  printStr "CPU:     " ++ cmdCpu s

end System

section Files

/-- The line for an entry, if the entry is directly below the target. -/
def lsLine (target : PathBuf) (e : FileEntry) : Option Output :=
  let prefixLen := strlen target.toList
  let p := e.path.toList
  if e.used = false then none
  else if strlen p < prefixLen ∨ p.take prefixLen ≠ target.toList.take prefixLen then none
  else if strlen p = prefixLen then none
  else
    let rel := p.drop prefixLen
    let relTrim := if rel.head? = some 47 then rel.tail else rel
    if 47 ∈ relTrim then none
    else
      some ((if e.isDir then printColor "[dir]  " cBcyan else printColor "[file] " cGreen) ++
        printBytes relTrim ++ newline)

def cmdLs (s : ShellState) (args : Args) : Output :=
  let target := match args with
    | _::path::_ => s.normalize path
    | _ => blit zeroPath 0 s.cwdText (by have := s.length_cwdText; have := s.cwdLen_le; omega)
  let lines := (List.finRange 48).filterMap fun i => lsLine target (s.files i)
  if lines = [] then printStr "total 0\n" else lines.flatten

def cmdCat (s : ShellState) : Args → Output
  | _::path::_ =>
    match fsRead s.files (s.normalize path).toList with
    | some data => printBytes data ++ newline
    | none => printColor "cat: no such file\n" cBred
  | _ => printStr "usage: cat <file>\n"

lemma root_fits : 0+[(47 : UInt8)].length ≤ 128 := by decide

lemma path_fits (path : PathBuf) : 0+(path.toList.take (strlen path.toList)).length ≤ 128 := by simp

lemma separator_fits (path : PathBuf) (h : strlen path.toList ≤ 127) :
    strlen path.toList+[(47 : UInt8)].length ≤ 128 := Nat.succ_le_succ h

/-- Make a directory the working directory, with a separator behind it if there is room. -/
def enterDirectory (s : ShellState) (path : PathBuf) (hpos : 1 ≤ strlen path.toList)
    (hle : strlen path.toList ≤ 127) : ShellState :=
  let plen := strlen path.toList
  let cwd := blit s.cwd 0 (path.toList.take plen) (path_fits path)
  if h : byte? cwd (plen-1) ≠ some 47 ∧ plen < 127 then
    { s with
      cwd := blit cwd plen [47] (separator_fits path hle)
      cwdLen := plen+1
      cwdLen_pos := Nat.le_add_left 1 plen
      cwdLen_le := h.2 }
  else { s with cwd := cwd, cwdLen := plen, cwdLen_pos := hpos, cwdLen_le := hle }

def cmdCd (s : ShellState) : Args → ShellState × Output
  | _::path::_ =>
    match fsFind s.files (s.normalize path).toList with
    | some idx =>
      if (s.files idx).isDir then
        (enterDirectory s (s.normalize path) (s.strlen_normalize path).1 (s.strlen_normalize path).2,[])
      else (s,printColor "cd: not a directory\n" cBred)
    | none => (s,printColor "cd: no such file or directory\n" cBred)
  | _ =>
    ({ s with
      cwd := blit s.cwd 0 [47] root_fits
      cwdLen := 1
      cwdLen_pos := rootLen_pos
      cwdLen_le := rootLen_le },[])

def cmdPwd (s : ShellState) : Output := printBytes s.cwdText ++ newline

def cmdTouch (s : ShellState) : Args → ShellState
  | _::path::_ =>
    let path := (s.normalize path).toList
    if (fsFind s.files path).isNone then { s with files := (fsCreate s.files path).2 } else s
  | _ => s

def cmdMkdir (s : ShellState) : Args → ShellState
  | _::path::_ => { s with files := (fsMkdir s.files (s.normalize path).toList).2 }
  | _ => s

def cmdRm (s : ShellState) : Args → ShellState × Output
  | _::path::_ =>
    let (removed,files) := fsDelete s.files (s.normalize path).toList
    ({ s with files := files },if removed then [] else printColor "rm: cannot remove\n" cBred)
  | _ => (s,printStr "usage: rm <file/dir>\n")

/-- The common body of `write` and `append`: the words behind the file name, joined by blanks. -/
def putWords (store : FileTable → List UInt8 → List UInt8 → Bool × FileTable) (usage : String) (s : ShellState) :
    Args → ShellState × Output
  | _::path::word::words =>
    ({ s with files := (store s.files (s.normalize path).toList (joinWords 4096 (word::words))).2 },[])
  | _ => (s,printStr usage)

def cmdWrite : ShellState → Args → ShellState × Output := putWords fsWrite "usage: write <file> <text...>\n"
def cmdAppend : ShellState → Args → ShellState × Output := putWords fsAppend "usage: append <file> <text...>\n"

end Files

section Session

/-- The words with one blank between them. -/
def echoWords : Args → Output
  | [] => []
  | [word] => printBytes word
  | word::next::words => printBytes word ++ [.putchar 32] ++ echoWords (next::words)

def cmdEcho (args : Args) : Output := echoWords args.tail ++ newline

def HistoryEntry.text (e : HistoryEntry) : List UInt8 := e.cmd.toList.take e.len

def cmdHistory (s : ShellState) : Output :=
  if s.history.count = 0 then printStr "No history.\n"
  else s.history.indices.flatMap fun i =>
    printNum (i.val+1) ++ printStr "  " ++ printBytes (s.history.slots i).text ++ newline

def Alias.text (a : Alias) : List UInt8 := a.cmd.toList.take a.len

/-- What `alias` writes into its slot: at most 31 bytes of name and at most 255 of command. -/
def Alias.define (old : Alias) (name : List UInt8) (words : Args) : Alias where
  name := blit (blit old.name 0 (name.take 31) (by simp)) (min name.length 31) [0] (by simp)
  cmd := blit old.cmd 0 (joinWords 256 words) (by have := length_joinWords_le 256 words; omega)
  len := (joinWords 256 words).length
  len_le := length_joinWords_le 256 words

def cmdAlias (s : ShellState) : Args → ShellState × Output
  | _::name::words =>
    if 16 ≤ s.aliases.count then (s,printColor "alias: table full\n" cBred)
    else ({ s with aliases := s.aliases.push (·.define name words) },[])
  | _ => (s,s.aliases.indices.flatMap fun i =>
      printBytes (s.aliases.slots i).name.toList ++ printStr "='" ++
      printBytes (s.aliases.slots i).text ++ printStr "'\n")

/-- The first alias with this name. -/
def resolveAlias (s : ShellState) (name : List UInt8) : Option (Fin 16) :=
  s.aliases.indices.find? fun i => strEq (s.aliases.slots i).name.toList name

def cmdUnalias (s : ShellState) : Args → ShellState
  | _::name::_ =>
    match resolveAlias s name with
    | some i => { s with aliases := s.aliases.remove i }
    | none => s
  | _ => s

def EnvVar.define (old : EnvVar) (name value : List UInt8) : EnvVar where
  name := blit (blit old.name 0 (name.take 31) (by simp)) (min name.length 31) [0] (by simp)
  value := blit (blit old.value 0 (value.take 63) (by simp)) (min value.length 63) [0] (by simp)

/-- Split at the first `=`; without one nothing happens. -/
def cmdExport (s : ShellState) : Args → ShellState
  | _::arg::_ =>
    let pos := arg.findIdx (· == 61)
    if pos < arg.length then { s with env := s.env.push (·.define (arg.take pos) (arg.drop (pos+1))) } else s
  | _ => s

def cmdEnv (s : ShellState) : Output :=
  s.env.indices.flatMap fun i =>
    printBytes (s.env.slots i).name.toList ++ printStr "=" ++ printBytes (s.env.slots i).value.toList ++ newline

def cmdExec : Args → Output
  | _::_::_ =>
    printStr "exec: ELF loader not yet wired.\n" ++
    printStr "Implement ELF parsing + page allocation + jump to userland.\n"
  | _ => []

def HistoryEntry.record (old : HistoryEntry) (line : List UInt8) : HistoryEntry where
  cmd := blit old.cmd 0 (line.take (min line.length 256)) (by simp)
  len := min line.length 256
  len_le := Nat.min_le_right _ _

/-- Lines are recorded until the table is full. -/
def recordHistory (s : ShellState) (line : List UInt8) : ShellState :=
  { s with history := s.history.push (·.record line) }

@[simp] lemma recordHistory_files (s : ShellState) (line : List UInt8) : (recordHistory s line).files = s.files := rfl
@[simp] lemma recordHistory_cwdText (s : ShellState) (line : List UInt8) :
    (recordHistory s line).cwdText = s.cwdText := rfl
@[simp] lemma resolveAlias_recordHistory (s : ShellState) (line name : List UInt8) :
    resolveAlias (recordHistory s line) name = resolveAlias s name := rfl

end Session
end Linuxab.Shell
