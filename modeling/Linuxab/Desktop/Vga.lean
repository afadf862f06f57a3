import Mathlib.Logic.Function.Basic
import Linuxab.Shell.Words

/-! The text-mode driver of `desktop.rs`: a screen of 25 rows of 80 cells. Writes outside of it are
dropped. -/
namespace Linuxab.Desktop

/-- A character and its attribute byte. -/
structure Cell where
  ch : UInt8
  attr : UInt8
  deriving DecidableEq

abbrev Screen := Fin 25 → Fin 80 → Cell

def cBlack : UInt8 := 0x00
def cBlue : UInt8 := 0x01
def cLgray : UInt8 := 0x07
def cDgray : UInt8 := 0x08
def cLgreen : UInt8 := 0x0A
def cLcyan : UInt8 := 0x0B
def cLred : UInt8 := 0x0C
def cYellow : UInt8 := 0x0E
def cWhite : UInt8 := 0x0F

/-- `(bg << 4) | fg` -/
def attrOf (fg bg : UInt8) : UInt8 := bg <<< 4 ||| fg

def vgaClear (fg bg : UInt8) : Screen := fun _ _ => ⟨32,attrOf fg bg⟩

def vgaPutc (x y : ℕ) (c fg bg : UInt8) (sc : Screen) : Screen :=
  if h : x < 80 ∧ y < 25 then
    Function.update sc ⟨y,h.2⟩ (Function.update (sc ⟨y,h.2⟩) ⟨x,h.1⟩ ⟨c,attrOf fg bg⟩)
  else sc

/-- The bytes of a string from `(x,y)` on, cut at the right edge. -/
def vgaPuts (x y : ℕ) (s : List UInt8) (fg bg : UInt8) (sc : Screen) : Screen :=
  match s with
  | [] => sc
  | b::s => if 80 ≤ x then sc else vgaPuts (x+1) y s fg bg (vgaPutc x y b fg bg sc)

def vgaCenter (y : ℕ) (s : List UInt8) (fg bg : UInt8) (sc : Screen) : Screen :=
  vgaPuts (if s.length < 80 then (80-s.length)/2 else 0) y s fg bg sc

/-- Corners, then the horizontal and the vertical edges. -/
def vgaDrawBox (x y w h : ℕ) (fg bg : UInt8) (sc : Screen) : Screen :=
  if w < 2 ∨ h < 2 then sc
  else
    let sc := vgaPutc x y 0xC9 fg bg sc
    let sc := vgaPutc (x+w-1) y 0xBB fg bg sc
    let sc := vgaPutc x (y+h-1) 0xC8 fg bg sc
    let sc := vgaPutc (x+w-1) (y+h-1) 0xBC fg bg sc
    let sc := (List.range' 1 (w-2)).foldl
      (fun sc dx => vgaPutc (x+dx) (y+h-1) 0xCD fg bg (vgaPutc (x+dx) y 0xCD fg bg sc)) sc
    (List.range' 1 (h-2)).foldl
      (fun sc dy => vgaPutc (x+w-1) (y+dy) 0xBA fg bg (vgaPutc x (y+dy) 0xBA fg bg sc)) sc

/-- A bar of `w` cells of which `pct` percent are filled. -/
def vgaDrawBar (x y w pct : ℕ) (fg bg : UInt8) (sc : Screen) : Screen :=
  let filled := w*min pct 100/100
  (List.range w).foldl (fun sc dx => vgaPutc (x+dx) y (if dx < filled then 0xDB else 0xB0) fg bg sc) sc

end Linuxab.Desktop
