import Linuxab.Desktop.Apps

/-! The terminal of `desktop.rs`. A slice out of range, or a copy between slices of different lengths,
stops the machine with a panic; the `reboot` command stops it too. -/
namespace Linuxab.Desktop
open Linuxab.Base
open Linuxab.Shell (bytes strEq isBlank)

inductive Stop
  | panicked
  | rebooted
  deriving DecidableEq

/-- An access that is `none` out of range. -/
def checked {α : Type} : Option α → Except Stop α
  | some a => .ok a
  | none => .error .panicked

@[simp] lemma checked_some {α : Type} (a : α) : checked (some a) = .ok a := rfl

/-- The scrollback moves up by a line when it is full. -/
def scrolled (d : DesktopState) : Fin 18 → List.Vector UInt8 80 := fun i =>
  if h : 18 ≤ d.termLineCount ∧ i.val < 17 then d.termLines ⟨i+1,by omega⟩ else d.termLines i

/-- A line of at most 80 bytes at the end of the scrollback. -/
def pushLine (d : DesktopState) (s : List UInt8) (h : s.length ≤ 80) : DesktopState :=
  let i := min d.termLineCount 17
  { d with
    termLines := Function.update (scrolled d) ⟨i,by omega⟩
      (blit (List.Vector.replicate 80 0) 0 s (by omega))
    termLineCount := i+1
    termLineCount_le := by omega }

/-- `[..len].copy_from_slice(s)` with `len = min(s.len(), 80)`: the source is the whole of `s`. -/
def termAddLineBytes (d : DesktopState) (s : List UInt8) : Except Stop DesktopState :=
  if h : s.length = min s.length 80 then .ok (pushLine d s (by omega)) else .error .panicked

def termAddLine (d : DesktopState) (s : String) : Except Stop DesktopState := termAddLineBytes d (bytes s)

def trimBytes (s : List UInt8) : List UInt8 := ((s.dropWhile isBlank).reverse.dropWhile isBlank).reverse

/-- The loop state of the argument parser: finished words, the current one, and whether it has bytes. -/
structure WordScan where
  args : List (List UInt8)
  word : List UInt8
  inWord : Bool

/-- Bytes beyond 8 words or 32 bytes of a word are dropped. -/
def WordScan.step (w : WordScan) (b : UInt8) : WordScan :=
  if b = 32 then if w.inWord then ⟨w.args ++ [w.word],[],false⟩ else w
  else if w.args.length < 8 ∧ w.word.length < 32 then ⟨w.args,w.word ++ [b],true⟩
  else w

def splitWords (line : List UInt8) : List (List UInt8) :=
  let w := line.foldl WordScan.step ⟨[],[],false⟩
  if w.inWord then w.args ++ [w.word] else w.args

/-- `&args[i][..arg_lens[i]]`; the array has 8 rows. -/
def argAt (args : List (List UInt8)) (i : ℕ) : Option (List UInt8) :=
  if i < 8 then some (args.getD i []) else none

/-- The rows of `for i in k..argc`. -/
def argsFrom (k : ℕ) (args : List (List UInt8)) : Option (List (List UInt8)) :=
  (List.range' k (args.length-k)).mapM (argAt args)

inductive TermCommand
  | help | clear | ls | cat | write | rm | echo | mem | reboot | quit
  deriving DecidableEq

/-- The comparisons of `term_exec`, in their order. -/
def termCommands : List (String × TermCommand) :=
  [("help",.help),("clear",.clear),("ls",.ls),("cat",.cat),("write",.write),("rm",.rm),("echo",.echo),
    ("mem",.mem),("reboot",.reboot),("quit",.quit),("exit",.quit)]

def termCommandOf (name : List UInt8) : Option TermCommand :=
  (termCommands.find? fun c => strEq name (bytes c.1)).map (·.2)

section Commands

/-- The line of the listing is added and started anew when the name does not fit any more. -/
def lsRoom (st : DesktopState × List UInt8) (name : List UInt8) : Except Stop (DesktopState × List UInt8) :=
  if 80 ≤ st.2.length+name.length+2 then (termAddLineBytes st.1 st.2).map (·,[]) else .ok st

def lsStep (st : DesktopState × List UInt8) (i : Fin 32) : Except Stop (DesktopState × List UInt8) :=
  if (st.1.fs i).used then do
    let name := fileName (st.1.fs i)
    let st ← lsRoom st name
    let line ← checked (fill? 80 st.2 name)
    let line ← checked (fill? 80 line [32])
    let line ← checked (fill? 80 line [32])
    .ok (st.1,line)
  else .ok st

def termLs (d : DesktopState) : Except Stop DesktopState := do
  let st ← (List.finRange 32).foldlM lsStep (d,[])
  if 0 < st.2.length then termAddLineBytes st.1 st.2 else termAddLine st.1 "(no files)"

/-- The lines of a file, the last one only if it has bytes. -/
def catLines (d : DesktopState) (line : List UInt8) : List UInt8 → Except Stop DesktopState
  | [] => if line = [] then .ok d else termAddLineBytes d line
  | b::rest =>
    if b = 10 then do
      let d ← termAddLineBytes d line
      catLines d [] rest
    else catLines d (line ++ [b]) rest

def termCat (d : DesktopState) (args : List (List UInt8)) : Except Stop DesktopState :=
  if 1 < args.length then do
    let name ← checked (argAt args 1)
    match fsRead d.fs name with
    | some data => catLines d [] data
    | none => termAddLine d "cat: file not found"
  else termAddLine d "usage: cat <file>"

/-- A blank behind the text collected so far. -/
def writeBlank (buf : List UInt8) : Option (List UInt8) :=
  if 0 < buf.length ∧ buf.length < 1023 then fill? 1024 buf [32] else some buf

def writeWord (buf word : List UInt8) : Option (List UInt8) := do
  let buf ← writeBlank buf
  fill? 1024 buf (word.take (min word.length (1024-buf.length)))

def termWrite (d : DesktopState) (args : List (List UInt8)) : Except Stop DesktopState :=
  if 2 < args.length then do
    let name ← checked (argAt args 1)
    let words ← checked (argsFrom 2 args)
    let buf ← checked (words.foldlM writeWord [])
    let (ok,fs) := fsWrite d.fs name buf
    termAddLine { d with fs := fs } (if ok then "ok" else "write: failed")
  else termAddLine d "usage: write <file> <text...>"

def termRm (d : DesktopState) (args : List (List UInt8)) : Except Stop DesktopState :=
  if 1 < args.length then do
    let name ← checked (argAt args 1)
    let (ok,fs) := fsDelete d.fs name
    termAddLine { d with fs := fs } (if ok then "ok" else "rm: failed")
  else termAddLine d "usage: rm <file>"

/-- Words that fit into a line, with one blank between them. -/
def echoLine (line : List UInt8) : List (List UInt8) → Option (List UInt8)
  | [] => some line
  | word::rest =>
    if 80 ≤ line.length+word.length then some line
    else do
      let line ← fill? 80 line word
      let line ← if rest ≠ [] ∧ line.length < 79 then fill? 80 line [32] else some line
      echoLine line rest

def termEcho (d : DesktopState) (args : List (List UInt8)) : Except Stop DesktopState := do
  let words ← checked (argsFrom 1 args)
  let line ← checked (echoLine [] words)
  termAddLineBytes d line

def termMem (d : DesktopState) : Except Stop DesktopState := do
  let d ← termAddLine d "Memory: Wire kernel_get_meminfo() for real stats."
  termAddLine d "Example: total=64MB used=15% free=85%"

end Commands

/-- The end of `term_exec`. -/
def promptAgain (d : DesktopState) : DesktopState := termRedraw (clearInput d)

def runTermCommand (d : DesktopState) (args : List (List UInt8)) :
    Option TermCommand → Except Stop DesktopState
  | some .help => promptAgain <$> termAddLine d "Commands: help clear ls cat write rm echo mem reboot quit"
  | some .clear => .ok (promptAgain { d with termLineCount := 0, termLineCount_le := noLines_le })
  | some .ls => promptAgain <$> termLs d
  | some .cat => promptAgain <$> termCat d args
  | some .write => promptAgain <$> termWrite d args
  | some .rm => promptAgain <$> termRm d args
  | some .echo => promptAgain <$> termEcho d args
  | some .mem => promptAgain <$> termMem d
  | some .reboot => do
    let _ ← termAddLine d "Rebooting..."
    .error .rebooted
  | some .quit => .ok (switchApp (clearInput d) .desktop)
  | none => promptAgain <$> termAddLine d "Unknown command. Type 'help'."

/-- The line in the input buffer without the blanks around it. -/
def typedLine (d : DesktopState) : List UInt8 := trimBytes (d.termInputBuf.toList.take d.termInputPos)

/-- `prompt_line[2..2+cl].copy_from_slice(trimmed)` and `&prompt_line[..2+cl]`. -/
def promptLine (trimmed : List UInt8) : Option (List UInt8) :=
  if trimmed.length = min trimmed.length 78 then some ([36,32] ++ trimmed) else none

def termExec (d : DesktopState) : Except Stop DesktopState :=
  if typedLine d = [] then .ok (promptAgain d)
  else do
    let prompt ← checked (promptLine (typedLine d))
    let d' ← termAddLineBytes d prompt
    let args := splitWords (typedLine d)
    runTermCommand d' args (termCommandOf (args.headD []))

def termInput (d : DesktopState) (c : UInt8) : Except Stop DesktopState :=
  if c = 10 ∨ c = 13 then termExec d
  else if c = 0x7F ∨ c = 0x08 then
    .ok (termRedraw (if h : 0 < d.termInputPos then
      { d with
        termInputPos := d.termInputPos-1
        termInputBuf := blit d.termInputBuf (d.termInputPos-1) [0] (by have := d.termInputPos_le; simp; omega)
        termInputPos_le := by have := d.termInputPos_le; omega }
      else d))
  else if c = 0x11 then .ok (switchApp (clearInput d) .desktop)
  else if 0x20 ≤ c ∧ c ≤ 0x7E then
    .ok (termRedraw (if h : d.termInputPos < 77 then
      { d with
        termInputBuf := blit d.termInputBuf d.termInputPos [c] (by simp; omega)
        termInputPos := d.termInputPos+1
        termInputPos_le := h }
      else d))
  else .ok d

end Linuxab.Desktop
