import Linuxab.Shell.Text

/-! `path_normalize` of `terl.rs` on its 128-byte arrays. An index or slice out of range stops the
program; it shows as `none`. -/
namespace Linuxab.Shell
open Linuxab.Base

/-- A `[u8; MAX_PATH]`. -/
abbrev PathBuf := List.Vector UInt8 128

def zeroPath : PathBuf := List.Vector.replicate 128 0

/-- The first half: the absolute text, from the input alone or behind the working directory. -/
def joinPath (cwd input : List UInt8) : Option PathBuf :=
  if input.head? = some 47 then do
    let len := min input.length 127
    let out ← blit? zeroPath 0 (input.take len)
    blit? out len [0]
  else do
    let cwdLen := strlen cwd
    let out ← blit? zeroPath 0 (cwd.take cwdLen)
    let (out,o) ← if 0 < cwdLen then do
        let last ← byte? out (cwdLen-1)
        if last ≠ 47 ∧ cwdLen < 127 then do
          let out ← blit? out cwdLen [47]
          pure (out,cwdLen+1)
        else pure (out,cwdLen)
      else pure (out,cwdLen)
    -- MAX_PATH - o - 1 is not computed below zero
    if 128 ≤ o then none
    else do
      let toCopy := min (strlen input) (128-o-1)
      let out ← blit? out o (input.take toCopy)
      blit? out (o+toCopy) [0]

def byteIs (v : PathBuf) (i : ℕ) (b : UInt8) : Option Bool := (byte? v i).map (· == b)

/-- `out[s] == b'/' && out[s+1] == b'.' && (out[s+2] == b'/' || out[s+2] == 0)` -/
def dotAt (out : PathBuf) (s : ℕ) : Option Bool :=
  byteIs out s 47 <&&> byteIs out (s+1) 46 <&&> (byteIs out (s+2) 47 <||> byteIs out (s+2) 0)

def dotDotAt (out : PathBuf) (s : ℕ) : Option Bool :=
  byteIs out s 47 <&&> byteIs out (s+1) 46 <&&> byteIs out (s+2) 46 <&&>
    (byteIs out (s+3) 47 <||> byteIs out (s+3) 0)

/-- `while d > 0 && tmp[d-1] != b'/' { d -= 1; }` -/
def dropComponent (tmp : PathBuf) : ℕ → Option ℕ
  | 0 => some 0
  | d+1 => do
    if (← byte? tmp d) ≠ 47 then dropComponent tmp d else some (d+1)

/-- Remove a trailing slash and then the previous component. -/
def dropLast (tmp : PathBuf) (d : ℕ) : Option ℕ :=
  if d = 0 then some 0
  else do
    let d ← (byte? tmp (d-1)).map fun c => if c = 47 then d-1 else d
    dropComponent tmp d

/-- The loop over `s` and `d` that resolves `.` and `..`. -/
def resolveDots (out : PathBuf) (s : ℕ) (tmp : PathBuf) (d : ℕ) : Option (PathBuf × ℕ) :=
  if _h : s < 128 then
    if out.get ⟨s,_h⟩ = 0 then some (tmp,d)
    else
      match dotAt out s with
      | none => none
      | some true =>
        match byte? out (s+2) with
        | none => none
        | some c => resolveDots out (if c = 47 then s+3 else s+2) tmp d
      | some false =>
        match dotDotAt out s with
        | none => none
        | some true =>
          match byte? out (s+3),dropLast tmp d with
          | some c,some d' => resolveDots out (if c = 47 then s+4 else s+3) tmp d'
          | _,_ => none
        | some false =>
          match blit? tmp d [out.get ⟨s,_h⟩] with
          | none => none
          | some tmp' => resolveDots out (s+1) tmp' (d+1)
  else none
termination_by 128-s
decreasing_by all_goals (try split) <;> omega

def pathNormalize (cwd input : List UInt8) : Option PathBuf := do
  let out ← joinPath cwd input
  let (tmp,d) ← resolveDots out 0 zeroPath 0
  let (tmp,d) ← if d = 0 then (blit? tmp 0 [47]).map (·,1) else some (tmp,d)
  let tmp ← blit? tmp d [0]
  blit? zeroPath 0 (tmp.toList.take d)

end Linuxab.Shell
