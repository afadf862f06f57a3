import Linuxab.Base.Words
import Linuxab.Fbcon.Font

/-! The framebuffer console of `kernel/drivers/fbcon.c`. Addresses are counted in bytes from `fb_base`, and
those that have been written are kept. -/
namespace Linuxab
open Linuxab.Base

structure Fbcon where
  memory : ℕ → UInt8
  written : List ℕ
  width : UInt32
  height : UInt32
  pitch : UInt32
  bpp : UInt32
  fgColor : UInt32
  bgColor : UInt32
  cursorX : UInt32
  cursorY : UInt32
  charW : UInt32
  charH : UInt32
  cols : UInt32
  rows : UInt32

namespace Fbcon

/-- `*(uint32_t *)(fb_base + a) = v` -/
def put32 (con : Fbcon) (a : ℕ) (v : UInt32) : Fbcon :=
  { con with memory := store32 con.memory a v, written := con.written ++ [a,a+1,a+2,a+3] }

/-- A loop that stores `color k` at `dst k` for each `k`. -/
def paint {κ : Type} (l : List κ) (dst : κ → ℕ) (color : κ → UInt32) (con : Fbcon) : Fbcon :=
  l.foldl (fun con k => con.put32 (dst k) (color k)) con

/-- Byte by byte in increasing order. -/
def memcpy (con : Fbcon) (dst src n : ℕ) : Fbcon :=
  (List.range n).foldl (fun con i => { con with
    memory := Function.update con.memory (dst+i) (con.memory (src+i)), written := con.written ++ [dst+i] }) con

/-- `y * pitch + x * 4`, added up as offsets of a pointer -/
def address (con : Fbcon) (y x : UInt32) : ℕ := (y*con.pitch).toNat+(x*4).toNat

def fbconInit (memory : ℕ → UInt8) (width height pitch bpp : UInt32) : Fbcon where
  memory := memory
  written := []
  width := width
  height := height
  pitch := pitch
  bpp := bpp
  fgColor := 0xFFFFFF
  bgColor := 0x000000
  cursorX := 0
  cursorY := 0
  charW := 8
  charH := 16
  cols := width/8
  rows := height/16

def fbconDrawChar (con : Fbcon) (x y : UInt32) (c : UInt8) : Fbcon :=
  let cells := List.range con.charH.toNat ×ˢ List.range con.charW.toNat
  let dst := fun p : ℕ × ℕ => con.address (y+.ofNat p.1) (x+.ofNat p.2)
  if c < 32 ∨ c > 126 then paint cells dst (fun _ => con.bgColor) con
  else paint cells dst (fun p => if fontBit c p.1 p.2 then con.fgColor else con.bgColor) con

def fbconClear (con : Fbcon) : Fbcon :=
  let cells := List.range con.height.toNat ×ˢ List.range con.width.toNat
  { paint cells (fun p => con.address (.ofNat p.1) (.ofNat p.2)) (fun _ => con.bgColor) con with
    cursorX := 0, cursorY := 0 }

/-- The last loop counts up to `char_h * pitch` in steps of four. -/
def fbconScroll (con : Fbcon) : Fbcon :=
  let moveSize := ((con.height-con.charH)*con.pitch).toNat
  let lineSize := (con.charH*con.pitch).toNat
  let con := con.memcpy 0 lineSize moveSize
  let con := paint (List.range ((lineSize+3)/4)) (fun k => moveSize+4*k) (fun _ => con.bgColor) con
  { con with cursorY := con.rows-1, cursorX := 0 }

section Putc

/-- The branches on the character. -/
def putcBranch (con : Fbcon) (c : UInt8) : Fbcon :=
  if c = 10 then { con with cursorX := 0, cursorY := con.cursorY+1 }
  else if c = 13 then { con with cursorX := 0 }
  else if c = 8 then if con.cursorX > 0 then { con with cursorX := con.cursorX-1 } else con
  else if c = 9 then { con with cursorX := (con.cursorX+8) &&& ~~~7 }
  else { con.fbconDrawChar (con.cursorX*con.charW) (con.cursorY*con.charH) c with cursorX := con.cursorX+1 }

def lineWrap (con : Fbcon) : Fbcon :=
  if con.cursorX ≥ con.cols then { con with cursorX := 0, cursorY := con.cursorY+1 } else con

def scrollIfNeeded (con : Fbcon) : Fbcon := if con.cursorY ≥ con.rows then con.fbconScroll else con

def fbconPutc (con : Fbcon) (c : UInt8) : Fbcon := scrollIfNeeded (lineWrap (con.putcBranch c))

/-- Up to the terminating NUL. -/
def fbconPuts (con : Fbcon) (str : List UInt8) : Fbcon := (str.takeWhile (· != 0)).foldl fbconPutc con

end Putc

section Loops
variable {κ : Type} (l : List κ) (dst : κ → ℕ) (color : κ → UInt32) (con : Fbcon)

lemma paint_eq : paint l dst color con =
    { con with memory := l.foldl (fun m k => store32 m (dst k) (color k)) con.memory,
               written := con.written ++ l.flatMap fun k => [dst k,dst k+1,dst k+2,dst k+3] } := by
  induction l generalizing con with
  | nil => simp [paint]
  | cons k l ih =>
    have hstep := ih (con.put32 (dst k) (color k))
    simp only [paint,List.foldl_cons] at hstep ⊢
    rw [hstep]
    simp [put32]

lemma memcpy_eq (d n : ℕ) : con.memcpy 0 d n =
    { con with memory := sweep id (fun f i => f (i+d)) (List.range n) con.memory,
               written := con.written ++ List.range n } := by
  induction n with
  | zero => simp [memcpy]
  | succ n ih =>
    simp only [memcpy,List.range_succ,List.foldl_append] at ih ⊢
    rw [ih,sweep_append]
    simp [sweep_cons,Nat.add_comm]

end Loops
end Fbcon
end Linuxab
