import Linuxab.Base.Sweep
import Mathlib.Data.Int.Notation
import Mathlib.Data.List.ProdSigma

/-! The text console of `kernel/cursor.c`. The cells of `vga_buffer` are kept with the indices at which it
has been read or written. -/
namespace Linuxab.Console
open Linuxab.Base

structure CursorState where
  vgaBuffer : ℕ → UInt16
  accessed : List ℕ
  cursorX : UInt8
  cursorY : UInt8
  color : UInt8
  /-- the cursor location registers of the CRTC -/
  location : UInt16

/-- `(color << 8) | c` -/
def cell (color c : UInt8) : UInt16 := color.toUInt16 <<< 8 ||| c.toUInt16

def blank (color : UInt8) : UInt16 := cell color 32

namespace CursorState

def store (s : CursorState) (i : ℕ) (v : UInt16) : CursorState :=
  { s with vgaBuffer := Function.update s.vgaBuffer i v, accessed := s.accessed ++ [i] }

def copy (s : CursorState) (dst src : ℕ) : CursorState :=
  { s with vgaBuffer := Function.update s.vgaBuffer dst (s.vgaBuffer src), accessed := s.accessed ++ [src,dst] }

section Loops
variable {κ : Type} (l : List κ) (dst src : κ → ℕ) (v : UInt16) (s : CursorState)

/-- A loop that stores one value at `dst k` for each `k`. -/
def fillCells : CursorState := l.foldl (fun s k => s.store (dst k) v) s

/-- A loop that copies `src k` to `dst k` for each `k`. -/
def copyCells : CursorState := l.foldl (fun s k => s.copy (dst k) (src k)) s

lemma fillCells_eq : fillCells l dst v s =
    { s with vgaBuffer := sweep dst (fun _ _ => v) l s.vgaBuffer, accessed := s.accessed ++ l.map dst } := by
  induction l generalizing s with
  | nil => simp [fillCells]
  | cons k l ih =>
    have hstep := ih (s.store (dst k) v)
    simp only [fillCells,List.foldl_cons] at hstep ⊢
    rw [hstep]
    simp [store,sweep_cons]

lemma copyCells_eq : copyCells l dst src s =
    { s with vgaBuffer := sweep dst (fun f k => f (src k)) l s.vgaBuffer,
             accessed := s.accessed ++ l.flatMap fun k => [src k,dst k] } := by
  induction l generalizing s with
  | nil => simp [copyCells]
  | cons k l ih =>
    have hstep := ih (s.copy (dst k) (src k))
    simp only [copyCells,List.foldl_cons] at hstep ⊢
    rw [hstep]
    simp [copy,sweep_cons]

@[simp] lemma fillCells_color : (fillCells l dst v s).color = s.color := by rw [fillCells_eq]
@[simp] lemma fillCells_cursorX : (fillCells l dst v s).cursorX = s.cursorX := by rw [fillCells_eq]
@[simp] lemma fillCells_cursorY : (fillCells l dst v s).cursorY = s.cursorY := by rw [fillCells_eq]
@[simp] lemma copyCells_color : (copyCells l dst src s).color = s.color := by rw [copyCells_eq]
@[simp] lemma copyCells_cursorX : (copyCells l dst src s).cursorX = s.cursorX := by rw [copyCells_eq]
@[simp] lemma copyCells_cursorY : (copyCells l dst src s).cursorY = s.cursorY := by rw [copyCells_eq]

end Loops

/-- `cursor_y * 80 + cursor_x` -/
def offset (s : CursorState) : ℕ := s.cursorY.toNat*80+s.cursorX.toNat

def cursorUpdateHw (s : CursorState) : CursorState := { s with location := UInt16.ofNat s.offset }

/-- The location is updated before the position is reset. -/
def cursorInit (s : CursorState) : CursorState := { cursorUpdateHw s with cursorX := 0, cursorY := 0 }

def cursorSetPos (s : CursorState) (x y : UInt8) : CursorState :=
  let x := if x ≥ 80 then 79 else x
  let y := if y ≥ 25 then 24 else y
  cursorUpdateHw { s with cursorX := x, cursorY := y }

/-- A coordinate moved by `d` and kept between 0 and `last`. -/
def clampMove (z : UInt8) (d : Int8) (last : ℕ) : UInt8 :=
  let new : ℤ := z.toNat+d.toInt
  let new := if new < 0 then 0 else new
  let new := if new ≥ last+1 then (last : ℤ) else new
  UInt8.ofNat new.toNat

def cursorMove (s : CursorState) (dx dy : Int8) : CursorState :=
  cursorUpdateHw { s with cursorX := clampMove s.cursorX dx 79, cursorY := clampMove s.cursorY dy 24 }

def cursorSetColor (s : CursorState) (fg bg : UInt8) : CursorState := { s with color := bg <<< 4 ||| fg &&& 0x0F }

def cursorClearScreen (s : CursorState) : CursorState :=
  let s := fillCells (List.range (80*25)) id (blank s.color) s
  cursorUpdateHw { s with cursorX := 0, cursorY := 0 }

section Putchar

/-- The branches on the character. -/
def putBranch (s : CursorState) (c : UInt8) : CursorState :=
  if c = 10 then { s with cursorX := 0, cursorY := s.cursorY+1 }
  else if c = 13 then { s with cursorX := 0 }
  else if c = 8 then
    if s.cursorX > 0 then
      let s := { s with cursorX := s.cursorX-1 }
      s.store s.offset (blank s.color)
    else s
  else if c = 9 then { s with cursorX := (s.cursorX+8) &&& ~~~7 }
  else { s.store s.offset (cell s.color c) with cursorX := s.cursorX+1 }

def lineWrap (s : CursorState) : CursorState :=
  if s.cursorX ≥ 80 then { s with cursorX := 0, cursorY := s.cursorY+1 } else s

def scrollUp (s : CursorState) : CursorState :=
  let s := copyCells (List.range (80*24)) id (·+80) s
  fillCells (List.range' (80*24) 80) id (blank s.color) s

def scrollIfNeeded (s : CursorState) : CursorState :=
  if s.cursorY ≥ 25 then { scrollUp s with cursorY := 24 } else s

def cursorPutchar (s : CursorState) (c : UInt8) : CursorState :=
  cursorUpdateHw (scrollIfNeeded (lineWrap (putBranch s c)))

/-- Up to the terminating NUL. -/
def cursorPrint (s : CursorState) (str : List UInt8) : CursorState := (str.takeWhile (· != 0)).foldl cursorPutchar s

end Putchar

section Lines

/-- The values of `for (i = hi; i > lo; i--)`. -/
def downFrom (hi lo : ℕ) : List ℕ := (List.range (hi-lo)).map (hi-·)

def cursorInsertLine (s : CursorState) : CursorState :=
  let s := copyCells (downFrom 24 s.cursorY.toNat ×ˢ List.range 80) (fun p => p.1*80+p.2) (fun p => (p.1-1)*80+p.2) s
  cursorUpdateHw (fillCells (List.range 80) (s.cursorY.toNat*80+·) (blank s.color) s)

def cursorDeleteLine (s : CursorState) : CursorState :=
  let s := copyCells (List.range' s.cursorY.toNat (24-s.cursorY.toNat) ×ˢ List.range 80)
    (fun p => p.1*80+p.2) (fun p => (p.1+1)*80+p.2) s
  cursorUpdateHw (fillCells (List.range 80) (24*80+·) (blank s.color) s)

def cursorInsertChar (s : CursorState) (c : UInt8) : CursorState :=
  let s := copyCells (downFrom 79 s.cursorX.toNat) (s.cursorY.toNat*80+·) (fun x => s.cursorY.toNat*80+(x-1)) s
  let s := s.store s.offset (cell s.color c)
  cursorUpdateHw { s with cursorX := s.cursorX+1 }

def cursorDeleteChar (s : CursorState) : CursorState :=
  if s.cursorX ≥ 80 then s
  else
    let s := copyCells (List.range' s.cursorX.toNat (79-s.cursorX.toNat)) (s.cursorY.toNat*80+·)
      (fun x => s.cursorY.toNat*80+(x+1)) s
    cursorUpdateHw (s.store (s.cursorY.toNat*80+79) (blank s.color))

end Lines
end CursorState
end Linuxab.Console
