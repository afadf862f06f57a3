import Linuxab.Base.Recursion
import Linuxab.Shell.Commands

/-! `execute_line`, `dispatch` and `cmd_source` of `terl.rs`. The three call each other only through
`source`, which runs the lines of a file; one activation of `execute_line` stops at each such line. -/
namespace Linuxab.Shell
open Linuxab.Base

inductive Builtin
  | help | clear | reboot | shutdown | halt | uname | version | uptime | date | mem | cpu | ps | kill
  | dmesg | whoami | hostname | neofetch | ls | cat | cd | pwd | touch | mkdir | rm | write | append
  | echo | history | alias | unalias | export | env | source | exec
  deriving DecidableEq

/-- The comparisons of `dispatch`, in their order. -/
def builtins : List (String × Builtin) :=
  [("help",.help),("clear",.clear),("reboot",.reboot),("shutdown",.shutdown),("halt",.halt),
    ("uname",.uname),("version",.version),("uptime",.uptime),("date",.date),("mem",.mem),("free",.mem),
    ("cpu",.cpu),("ps",.ps),("kill",.kill),("dmesg",.dmesg),("whoami",.whoami),("hostname",.hostname),
    ("neofetch",.neofetch),("ls",.ls),("cat",.cat),("cd",.cd),("pwd",.pwd),("touch",.touch),
    ("mkdir",.mkdir),("rm",.rm),("write",.write),("append",.append),("echo",.echo),("history",.history),
    ("alias",.alias),("unalias",.unalias),("export",.export),("env",.env),("source",.source),
    ("exec",.exec)]

def builtinOf (c : List UInt8) : Option Builtin :=
  (builtins.find? fun b => strEq c (bytes b.1)).map (·.2)

/-- How a call of `execute_line` ends. `sys_reboot` and `sys_halt` do not return. -/
inductive Outcome
  | returned (s : ShellState)
  | rebooted
  | halted

structure Reply where
  outcome : Outcome
  output : Output

/-- The state and the line of one call. -/
abbrev Request := ShellState × List UInt8

abbrev LineActivation := Activation Request Reply

/-- A command that returns. -/
def answer (result : ShellState × Output) : LineActivation := .finish ⟨.returned result.1,result.2⟩

/-- Execute a line that has bytes and go on if it returns. -/
def runLine (s : ShellState) (line : List UInt8) (printed : Output)
    (next : ShellState → Output → LineActivation) : LineActivation :=
  if line = [] then next s printed
  else .nested (s,line) fun reply =>
    match reply.outcome with
    | .returned s' => next s' (printed ++ reply.output)
    | stopped => .finish ⟨stopped,printed ++ reply.output⟩

/-- The loop of `cmd_source` over the remaining positions of the file. The slice has the length it
had at the start and reads the file's array as it is now. -/
def sourceLines (idx : Fin 48) : List (Fin 4096) → ShellState → List UInt8 → Output → LineActivation
  | [],s,line,printed => runLine s line printed fun s printed => answer (s,printed)
  | i::rest,s,line,printed =>
    let b := (s.files idx).data.get i
    if b = 10 then runLine s line printed fun s printed => sourceLines idx rest s [] printed
    else if line.length < 255 then sourceLines idx rest s (line ++ [b]) printed
    else sourceLines idx rest s line printed

/-- The positions of `data[..size]`. -/
def FileEntry.positions (e : FileEntry) : List (Fin 4096) := (List.finRange 4096).take e.size

def cmdSource (s : ShellState) : Args → LineActivation
  | _::path::_ =>
    match fsFind s.files (s.normalize path).toList with
    | some idx =>
      if (s.files idx).isDir then answer (s,printColor "source: file not found\n" cBred)
      else sourceLines idx (s.files idx).positions s [] []
    | none => answer (s,printColor "source: file not found\n" cBred)
  | _ => answer (s,[])

/-- The call that `dispatch` makes for a command. -/
def runBuiltin (s : ShellState) (args : Args) : Builtin → LineActivation
  | .help => answer (s,cmdHelp)
  | .clear => answer (s,cmdClear)
  | .reboot => .finish ⟨.rebooted,printColor "Rebooting...\n" cBred⟩
  | .shutdown => .finish ⟨.halted,printColor "Shutting down...\n" cBred⟩
  | .halt => .finish ⟨.halted,printColor "Halting CPU...\n" cBred⟩
  | .uname => answer (s,cmdUname)
  | .version => answer (s,cmdVersion)
  | .uptime => answer (s,cmdUptime s)
  | .date => answer (s,cmdDate)
  | .mem => answer (s,cmdMem s)
  | .cpu => answer (s,cmdCpu s)
  | .ps => answer (s,cmdPs s)
  | .kill => answer (s,cmdKill args)
  | .dmesg => answer (s,cmdDmesg)
  | .whoami => answer (s,cmdWhoami)
  | .hostname => answer (s,cmdHostname s)
  | .neofetch => answer (s,cmdNeofetch s)
  | .ls => answer (s,cmdLs s args)
  | .cat => answer (s,cmdCat s args)
  | .cd => answer (cmdCd s args)
  | .pwd => answer (s,cmdPwd s)
  | .touch => answer (cmdTouch s args,[])
  | .mkdir => answer (cmdMkdir s args,[])
  | .rm => answer (cmdRm s args)
  | .write => answer (cmdWrite s args)
  | .append => answer (cmdAppend s args)
  | .echo => answer (s,cmdEcho args)
  | .history => answer (s,cmdHistory s)
  | .alias => answer (cmdAlias s args)
  | .unalias => answer (cmdUnalias s args,[])
  | .export => answer (cmdExport s args,[])
  | .env => answer (s,cmdEnv s)
  | .source => cmdSource s args
  | .exec => answer (s,cmdExec args)

def dispatch (s : ShellState) (args : Args) : LineActivation :=
  let c := args.headD []
  match builtinOf c with
  | some b => runBuiltin s args b
  | none => answer (s,printColor "terl: command not found: " cBred ++ printBytes c ++ newline ++
      printStr "Type 'help' for available commands.\n")

/-- The arguments after the alias is put in place of the first one. -/
def expandAlias (a : Alias) (args : Args) : Args := parseArgs (args.tail.foldl appendArg a.text)

/-- One activation of `execute_line`. -/
def executeLine : Request → LineActivation
  | (s,line) =>
    let trimmed := trim line
    if trimmed = [] then answer (s,[])
    else
      let s := recordHistory s trimmed
      match parseArgs trimmed with
      | [] => answer (s,[])
      | cmd::args =>
        match resolveAlias s cmd with
        | some i =>
          let args := expandAlias (s.aliases.slots i) (cmd::args)
          if args = [] then answer (s,[]) else dispatch s args
        | none => dispatch s (cmd::args)

/-- A line whose first word is no alias is dispatched as it is. -/
lemma executeLine_of_noAlias {s : ShellState} {cmd : List UInt8} {args : Args} (line : List UInt8) (hline : trim line ≠ [])
    (hargs : parseArgs (trim line) = cmd::args) (halias : resolveAlias s cmd = none) :
    executeLine (s,line) = dispatch (recordHistory s (trim line)) (cmd::args) := by
  simp only [executeLine,hline,if_false,hargs,resolveAlias_recordHistory,halias]

end Linuxab.Shell
