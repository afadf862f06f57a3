import Linuxab.Desktop.FileSystem
import Linuxab.Desktop.Vga

/-! The state of `desktop.rs`, what each app draws from it and what starting an app resets. Every
drawing clears the screen first, so the picture depends on the state alone. -/
namespace Linuxab.Desktop
open Linuxab.Base
open Linuxab.Shell (bytes strlen)

/-- `ACTIVE_APP` -/
inductive App
  | desktop
  | terminal
  | files
  | sysmon
  | editor
  deriving DecidableEq

/-- The `static mut` state. The counters stay inside the arrays they index. -/
structure DesktopState where
  fs : FsTable
  activeApp : App
  iconSel : ℕ
  termLines : Fin 18 → List.Vector UInt8 80
  termLineCount : ℕ
  termInputBuf : List.Vector UInt8 78
  termInputPos : ℕ
  fmSel : ℕ
  fmView : Bool
  edBuf : List.Vector UInt8 1024
  edSize : ℕ
  edCursX : ℕ
  edCursY : ℕ
  edFilename : List.Vector UInt8 32
  edDirty : Bool
  screen : Screen
  termLineCount_le : termLineCount ≤ 18
  termInputPos_le : termInputPos ≤ 77
  edSize_le : edSize ≤ 1024

lemma noLines_le : 0 ≤ 18 := Nat.zero_le _
lemma noInput_le : 0 ≤ 77 := Nat.zero_le _

section Draw

def appName : App → List UInt8
  | .desktop => bytes "Desktop"
  | .terminal => bytes "Terminal"
  | .files => bytes "Files"
  | .sysmon => bytes "SysMon"
  | .editor => bytes "Editor"

/-- One indicator in the taskbar and the column behind it. -/
def taskbarEntry (active : App) (bar : ℕ × Screen) (app : App) : ℕ × Screen :=
  let (x,sc) := bar
  let fg := if active = app then cYellow else cLgray
  let bg := if active = app then cBlue else cDgray
  let name := appName app
  let sc := vgaPutc x 24 91 fg bg sc
  let sc := vgaPuts (x+1) 24 name fg bg sc
  let sc := vgaPutc (x+1+name.length) 24 93 fg bg sc
  (x+1+name.length+2,sc)

def drawTaskbar (active : App) (sc : Screen) : Screen :=
  let sc := (List.range 80).foldl (fun sc x => vgaPutc x 24 32 cWhite cDgray sc) sc
  let sc := vgaPuts 1 24 (bytes "[Start]") cWhite cBlue sc
  let sc := ([App.terminal,.files,.sysmon,.editor].foldl (taskbarEntry active) (10,sc)).2
  vgaPuts 68 24 (bytes "00:00") cLgray cDgray sc

/-- Icon, label and colour of the four launchers. -/
def launchers : List (List UInt8 × App × UInt8) :=
  [(bytes "[>_]",.terminal,cLgreen),(bytes "[fm]",.files,cYellow),(bytes "[##]",.sysmon,cLred),
    (bytes "[ed]",.editor,cLcyan)]

def drawIcon (iconSel : ℕ) (sc : Screen) (entry : (List UInt8 × App × UInt8) × ℕ) : Screen :=
  let ((icon,app,fg),i) := entry
  let ix := 8+i*18
  let bg := if iconSel = i then cLgray else cBlue
  let sc := vgaDrawBox ix 8 14 6 fg bg sc
  let sc := vgaPuts (ix+4) 10 icon fg bg sc
  vgaPuts (ix+3) 12 (appName app) fg bg sc

def drawDesktop (d : DesktopState) : DesktopState :=
  let sc := vgaClear cWhite cBlue
  let sc := vgaCenter 1 (bytes " linuxab Desktop v0.1 ") cYellow cBlue sc
  let sc := vgaCenter 2 (bytes "======================") cLgray cBlue sc
  let sc := launchers.zipIdx.foldl (drawIcon d.iconSel) sc
  let sc := vgaPuts 2 22 (bytes "A/D or Left/Right: Select  |  Enter: Launch  |  F1: Help") cLgray cBlue sc
  { d with screen := drawTaskbar d.activeApp sc }

/-- The scrollback from row 2 on; it ends above the input line. -/
def drawLines (d : DesktopState) (sc : Screen) : Screen :=
  (((List.finRange 18).take d.termLineCount).takeWhile fun i => 2+i.val < 23).foldl
    (fun sc i =>
      let line := (d.termLines i).toList
      vgaPuts 0 (2+i.val) (line.take (strlen line)) cWhite cBlack sc) sc

def termRedraw (d : DesktopState) : DesktopState :=
  let sc := vgaClear cWhite cBlack
  let sc := vgaPuts 0 0 (bytes "linuxab Terminal - 'help' for commands. Ctrl+Q: quit to desktop") cLgray cBlack sc
  let sc := vgaPuts 0 1 (bytes "----------------------------------------------------------------") cLgray cBlack sc
  let sc := drawLines d sc
  let sc := vgaPuts 0 23 (bytes "$ ") cLgreen cBlack sc
  let sc := vgaPuts 2 23 (d.termInputBuf.toList.take d.termInputPos) cWhite cBlack sc
  let sc := (List.range' (2+d.termInputPos) (80-(2+d.termInputPos))).foldl
    (fun sc x => vgaPutc x 23 32 cWhite cBlack sc) sc
  { d with screen := drawTaskbar d.activeApp sc }

/-- The text of a file from row 5 on; lines are cut at the right edge. -/
def viewText (x y : ℕ) : List UInt8 → Screen → Screen
  | [],sc => sc
  | b::rest,sc =>
    if b = 10 then if 23 ≤ y+1 then sc else viewText 0 (y+1) rest sc
    else if x < 80 then viewText (x+1) y rest (vgaPutc x y b cWhite cBlack sc)
    else viewText x y rest sc

def fileName (f : FsFile) : List UInt8 := f.name.toList.take (strlen f.name.toList)

/-- One row for each used file, as long as there are rows. -/
def listFiles (d : DesktopState) (y idx : ℕ) : List (Fin 32) → Screen → Screen
  | [],sc => sc
  | i::rest,sc =>
    let sel := d.fmSel = idx
    let fg := if sel then cBlack else cWhite
    let bg := if sel then cLgray else cBlack
    let sc := vgaPutc 2 y (if sel then 62 else 32) fg bg sc
    let sc := vgaPutc 3 y 32 fg bg sc
    let sc := vgaPuts 4 y (fileName (d.fs i)) fg bg sc
    if 23 ≤ y+1 then sc else listFiles d (y+1) (idx+1) rest sc

def filesDraw (d : DesktopState) : DesktopState :=
  let sc := vgaClear cWhite cBlack
  let sc := vgaPuts 0 0 (bytes "File Manager - W/S:Navigate | Enter:View | N:New | D:Delete | Q:Quit") cLgray cBlack sc
  let sc := vgaPuts 0 1 (bytes "----------------------------------------------------------------------") cLgray cBlack sc
  let sc :=
    if d.fmView then
      let sc := match (usedSlots d.fs)[d.fmSel]? with
        | some i =>
          let sc := vgaPuts 2 3 (bytes "Viewing: ") cWhite cBlack sc
          let sc := vgaPuts 11 3 (fileName (d.fs i)) cYellow cBlack sc
          viewText 0 5 (d.fs i).contents sc
        | none => vgaPuts 2 3 (bytes "File not found") cLred cBlack sc
      vgaPuts 0 23 (bytes "Press Q to return to list") cYellow cBlack sc
    else
      let sc := listFiles d 3 0 (usedSlots d.fs) sc
      let sc := if usedSlots d.fs = [] then vgaPuts 4 3 (bytes "(no files)") cDgray cBlack sc else sc
      vgaPuts 0 23 (bytes "Enter:View | N:New | D:Delete | Q:Quit") cYellow cBlack sc
  { d with screen := drawTaskbar d.activeApp sc }

/-- A label and the text behind it. -/
def labelled (x y : ℕ) (label : List UInt8) (fg : UInt8) (x' : ℕ) (value : List UInt8) (sc : Screen) : Screen :=
  vgaPuts x' y value cWhite cBlack (vgaPuts x y label fg cBlack sc)

def sysmonDraw (d : DesktopState) : DesktopState :=
  let sc := vgaClear cWhite cBlack
  let sc := vgaPuts 0 0 (bytes "System Monitor - Real-time system information") cLgray cBlack sc
  let sc := vgaPuts 0 1 (bytes "----------------------------------------------") cLgray cBlack sc
  let sc := labelled 2 3 (bytes "OS:") cLcyan 6 (bytes "linuxab v0.1.0") sc
  let sc := labelled 2 4 (bytes "Kernel:") cLcyan 10 (bytes "0.1.0-realProxik") sc
  let sc := labelled 2 5 (bytes "License:") cLcyan 11 (bytes "GPL-2.0") sc
  let sc := vgaPuts 2 7 (bytes "Memory Usage:") cLgreen cBlack sc
  let sc := vgaPuts 2 8 (bytes "Total: 64 MB") cWhite cBlack sc
  let sc := vgaPuts 2 9 (bytes "Used:  ") cWhite cBlack sc
  let sc := vgaDrawBar 9 9 30 15 cLred cBlack sc
  let sc := vgaPuts 40 9 (bytes "15%") cYellow cBlack sc
  let sc := vgaPuts 2 10 (bytes "Free:  ") cWhite cBlack sc
  let sc := vgaDrawBar 9 10 30 85 cLgreen cBlack sc
  let sc := vgaPuts 40 10 (bytes "85%") cYellow cBlack sc
  let sc := vgaPuts 2 12 (bytes "CPU:") cLcyan cBlack sc
  let sc := vgaPuts 2 13 (bytes "Cores: 1") cWhite cBlack sc
  let sc := vgaPuts 2 14 (bytes "Freq:  0 MHz (Wire kernel)") cWhite cBlack sc
  let sc := vgaPuts 2 15 (bytes "Load:  ") cWhite cBlack sc
  let sc := vgaDrawBar 9 15 40 5 cYellow cBlack sc
  let sc := labelled 2 17 (bytes "Uptime:") cLcyan 10 (bytes "0s (Wire kernel timer)") sc
  let sc := vgaPuts 2 19 (bytes "Processes:") cLcyan cBlack sc
  let sc := vgaPuts 2 20 (bytes "No process data. Wire shell_register_process() from kernel.") cDgray cBlack sc
  let sc := vgaPuts 0 23 (bytes "Q: Return to Desktop") cYellow cBlack sc
  { d with screen := drawTaskbar d.activeApp sc }

/-- The buffer from row 2 on: a line is drawn when its end is found, the last one without an end. -/
def drawText (y : ℕ) (line : List UInt8) : List UInt8 → Screen → Screen
  | [],sc => if line ≠ [] ∧ y < 24 then vgaPuts 0 y line cWhite cBlack sc else sc
  | b::rest,sc =>
    if b = 10 then
      let sc := if y < 24 then vgaPuts 0 y line cWhite cBlack sc else sc
      if 24 ≤ y+1 then sc else drawText (y+1) [] rest sc
    else drawText y (line ++ [b]) rest sc

def editorDraw (d : DesktopState) : DesktopState :=
  let sc := vgaClear cWhite cBlack
  let sc := vgaPutc 0 0 (if d.edDirty then 42 else 32) cYellow cDgray sc
  let sc := vgaPuts 2 0 (bytes "Editor - ") cWhite cDgray sc
  let nameLen := strlen d.edFilename.toList
  let sc :=
    if 0 < nameLen then vgaPuts 11 0 (d.edFilename.toList.take nameLen) cYellow cDgray sc
    else vgaPuts 11 0 (bytes "(untitled)") cDgray cDgray sc
  let sc := vgaPuts 45 0 (bytes "Ctrl+S:Save | Ctrl+Q:Quit") cLgray cDgray sc
  let sc := drawText 2 [] (d.edBuf.toList.take d.edSize) sc
  let cy := d.edCursY+2
  let sc := if cy < 24 ∧ d.edCursX < 80 then vgaPutc d.edCursX cy 95 cBlack cWhite sc else sc
  { d with screen := drawTaskbar d.activeApp sc }

end Draw

section Start

/-- `TERM_INPUT_POS = 0; TERM_INPUT_BUF = [0; MAX_INPUT]` -/
def clearInput (d : DesktopState) : DesktopState :=
  { d with termInputBuf := List.Vector.replicate 78 0, termInputPos := 0, termInputPos_le := noInput_le }

def termInit (d : DesktopState) : DesktopState :=
  termRedraw { clearInput d with termLineCount := 0, termLineCount_le := noLines_le }

def filesInit (d : DesktopState) : DesktopState := filesDraw { d with fmSel := 0, fmView := false }

def sysmonInit : DesktopState → DesktopState := sysmonDraw

def editorInit (d : DesktopState) : DesktopState :=
  editorDraw { d with
    edSize := 0
    edCursX := 0
    edCursY := 0
    edFilename := List.Vector.replicate 32 0
    edDirty := false
    edBuf := List.Vector.replicate 1024 0
    edSize_le := FsFile.empty_le }

def switchApp (d : DesktopState) (app : App) : DesktopState :=
  let d := { d with activeApp := app }
  match app with
  | .desktop => drawDesktop d
  | .terminal => termInit d
  | .files => filesInit d
  | .sysmon => sysmonInit d
  | .editor => editorInit d

/-- The statics before `desktop_init`, with a blank screen. -/
def blankDesktop : DesktopState where
  fs := blankFs
  activeApp := .desktop
  iconSel := 0
  termLines _ := List.Vector.replicate 80 0
  termLineCount := 0
  termInputBuf := List.Vector.replicate 78 0
  termInputPos := 0
  fmSel := 0
  fmView := false
  edBuf := List.Vector.replicate 1024 0
  edSize := 0
  edCursX := 0
  edCursY := 0
  edFilename := List.Vector.replicate 32 0
  edDirty := false
  screen := vgaClear cWhite cBlack
  termLineCount_le := noLines_le
  termInputPos_le := noInput_le
  edSize_le := FsFile.empty_le

def desktopInit : DesktopState := switchApp { blankDesktop with fs := fsInit } .desktop

end Start
end Linuxab.Desktop
