import Linuxab.Base.Integers
import Linuxab.Base.Sweep

/-!
Pixels and filled rectangles of `graphics.d`.  Sizes of the screen are `uint`, coordinates are `int`:
where the two meet, D takes both as `uint`.
-/

namespace Linuxab.Graphics
open Linuxab.Base

structure Color where
  r : UInt8
  g : UInt8
  b : UInt8
  a : UInt8
  deriving DecidableEq, Repr

def colorToPixel (c : Color) : UInt32 :=
  c.a.toUInt32 <<< 24 ||| c.r.toUInt32 <<< 16 ||| c.g.toUInt32 <<< 8 ||| c.b.toUInt32

/-- `g_fb` and `g_fb_ready`; the buffer is the memory from `g_fb.buffer` on, in words. -/
structure Framebuffer where
  ready : Bool
  width : UInt32
  height : UInt32
  buffer : ℕ → UInt32

namespace Framebuffer
variable (fb : Framebuffer)

/-- The index `y * g_fb.width + x`. -/
def index (x y : Int32) : ℕ := (y.toUInt32*fb.width+x.toUInt32).toNat

def gfxPixel (x y : Int32) (c : Color) : Framebuffer :=
  if fb.ready = false ∨ x < 0 ∨ y < 0 ∨ fb.width ≤ x.toUInt32 ∨ fb.height ≤ y.toUInt32 then fb
  else { fb with buffer := Function.update fb.buffer (fb.index x y) (colorToPixel c) }

/-- `if (x < 0) x = 0`. -/
def clipLow (x : Int32) : Int32 := if x < 0 then 0 else x

/-- `if (x2 > size) x2 = size`, compared as `uint`. -/
def clipHigh (size : UInt32) (x2 : Int32) : Int32 := if size < x2.toUInt32 then size.toInt32 else x2

/-- The values of an `int` loop variable from `a` up to `b`. -/
def intRange (a b : Int32) : List Int32 := (List.range (b.toInt-a.toInt).toNat).map fun k => a+Int32.ofNat k

/-- The two loops of `gfx_rect` over clipped bounds; a line starts at its pixel in column `x`. -/
def fill (x y x2 y2 : Int32) (pixel : UInt32) : Framebuffer :=
  { fb with
    buffer := sweep (fun p : Int32 × Int32 => fb.index x p.1+(p.2-x).toInt.toNat) (fun _ _ => pixel)
      (intRange y y2 ×ˢ intRange x x2) fb.buffer }

def gfxRect (x y w h : Int32) (c : Color) : Framebuffer :=
  if fb.ready then
    fb.fill (clipLow x) (clipLow y) (clipHigh fb.width (x+w)) (clipHigh fb.height (y+h)) (colorToPixel c)
  else fb

end Framebuffer

/-! ## The bounds -/

section Bounds
open Framebuffer

theorem mem_intRange {a b r : Int32} : r ∈ intRange a b ↔ a.toInt ≤ r.toInt ∧ r.toInt < b.toInt := by
  have ha := a.le_toInt
  have hb := b.toInt_lt
  have hvalue : ∀ k : ℕ, a.toInt+k < b.toInt → (a+Int32.ofNat k).toInt = a.toInt+k := by
    intro k hk
    have hsize : Int32.size = 2^32 := rfl
    rw [Int32.toInt_add,Int32.toInt_ofNat',Int.add_bmod_bmod]
    exact Int.bmod_eq_of_le (by omega) (by omega)
  rw [intRange,List.mem_map]
  constructor
  · rintro ⟨k,hk,rfl⟩
    have hlt := List.mem_range.mp hk
    rw [hvalue k (by omega)]
    omega
  · rintro ⟨hle,hlt⟩
    refine ⟨(r.toInt-a.toInt).toNat,List.mem_range.mpr (by omega),?_⟩
    apply Int32.toInt_inj.mp
    rw [hvalue _ (by omega)]
    omega

theorem toInt_clipLow (x : Int32) : (clipLow x).toInt = max x.toInt 0 := by
  have hzero : (0 : Int32).toInt = 0 := by decide
  rw [clipLow]
  split_ifs with h <;> rw [Int32.lt_iff_toInt_lt,hzero] at h
  · rw [hzero]
    omega
  · omega

/-- The upper bound that the comparison as `uint` yields: a negative one becomes the whole size. -/
def upper (size : ℕ) (x2 : ℤ) : ℤ := if x2 < 0 then size else min x2 size

theorem upper_le (size : ℕ) (x2 : ℤ) : upper size x2 ≤ size := by
  rw [upper]
  split_ifs <;> omega

theorem toNat_toUInt32 (x : Int32) : (x.toUInt32.toNat : ℤ) = if x.toInt < 0 then x.toInt+2^32 else x.toInt := by
  have h := toInt_toInt32 x.toUInt32
  rw [Int32.toInt32_toUInt32] at h
  have hlt := x.toUInt32.toNat_lt
  rw [h]
  split_ifs <;> omega

theorem toInt_clipHigh {size : UInt32} (hsize : size.toNat < 2^15) (x2 : Int32) :
    (clipHigh size x2).toInt = upper size.toNat x2.toInt := by
  have hint := toInt_toInt32 size
  rw [if_pos (by omega)] at hint
  have hcast := toNat_toUInt32 x2
  have hrange := x2.le_toInt
  rw [clipHigh,upper]
  split_ifs with hlt hneg hneg <;> rw [UInt32.lt_iff_toNat_lt] at hlt
  · exact hint
  · rw [if_neg hneg] at hcast
    rw [hint]
    omega
  · rw [if_pos hneg] at hcast
    omega
  · rw [if_neg hneg] at hcast
    omega

end Bounds

/-! ## What is painted -/

section Painted
variable {fb : Framebuffer}

/-- On the screen no index wraps around. -/
theorem Framebuffer.index_eq (hw : fb.width.toNat < 2^15) (hh : fb.height.toNat < 2^15) {x row col : Int32}
    (hx : 0 ≤ x.toInt) (hcol : x.toInt ≤ col.toInt ∧ col.toInt < fb.width.toNat)
    (hrow : 0 ≤ row.toInt ∧ row.toInt < fb.height.toNat) :
    fb.index x row+(col-x).toInt.toNat = row.toInt.toNat*fb.width.toNat+col.toInt.toNat := by
  have hxcast := toNat_toUInt32 x
  rw [if_neg (by omega)] at hxcast
  have hrowcast := toNat_toUInt32 row
  rw [if_neg (by omega)] at hrowcast
  have hoffset : (col-x).toInt = col.toInt-x.toInt := toInt_sub_of_le (by omega) (by omega)
  have hrownat : row.toUInt32.toNat = row.toInt.toNat := by omega
  have hprod : row.toInt.toNat*fb.width.toNat ≤ 2^15*2^15 := Nat.mul_le_mul (by omega) (by omega)
  rw [Framebuffer.index,UInt32.toNat_add,UInt32.toNat_mul,hrownat,
    Nat.mod_eq_of_lt (a := row.toInt.toNat*fb.width.toNat) (by omega),Nat.mod_eq_of_lt (by omega),hoffset]
  omega

section Fill
variable (hw : fb.width.toNat < 2^15) (hh : fb.height.toNat < 2^15) {x y x2 y2 : Int32}
  (hx : 0 ≤ x.toInt) (hy : 0 ≤ y.toInt) (hx2 : x2.toInt ≤ fb.width.toNat) (hy2 : y2.toInt ≤ fb.height.toNat)
  (pixel : UInt32)
include hw hh hx hy hx2 hy2

/-- The indices that the loops write are those of the pixels between the bounds. -/
theorem Framebuffer.exists_index_iff (j : ℕ) :
    (∃ p ∈ intRange y y2 ×ˢ intRange x x2, fb.index x p.1+(p.2-x).toInt.toNat = j) ↔
      ∃ py px : ℕ, (y.toInt ≤ py ∧ py < y2.toInt) ∧ (x.toInt ≤ px ∧ px < x2.toInt) ∧ py*fb.width.toNat+px = j := by
  simp only [Prod.exists,List.mem_product,mem_intRange]
  constructor
  · rintro ⟨row,col,⟨hrow,hcol⟩,hj⟩
    refine ⟨row.toInt.toNat,col.toInt.toNat,by omega,by omega,?_⟩
    rw [← hj,fb.index_eq hw hh hx (by omega) (by omega)]
  · rintro ⟨py,px,hrow,hcol,hj⟩
    have hpy : (Int32.ofNat py).toInt = py := Int32.toInt_ofNat_of_lt (by omega)
    have hpx : (Int32.ofNat px).toInt = px := Int32.toInt_ofNat_of_lt (by omega)
    refine ⟨Int32.ofNat py,Int32.ofNat px,⟨by rw [hpy]; exact hrow,by rw [hpx]; exact hcol⟩,?_⟩
    rw [fb.index_eq hw hh hx (by omega) (by omega),hpy,hpx]
    exact hj

theorem Framebuffer.fill_inside {px py : ℕ} (hpx : px < fb.width.toNat) :
    (fb.fill x y x2 y2 pixel).buffer (py*fb.width.toNat+px)
      = if (y.toInt ≤ py ∧ py < y2.toInt) ∧ x.toInt ≤ px ∧ px < x2.toInt then pixel
        else fb.buffer (py*fb.width.toNat+px) := by
  have hwritten := exists_index_iff hw hh hx hy hx2 hy2 (py*fb.width.toNat+px)
  rw [fill]
  dsimp only
  rw [sweep_fill]
  by_cases hin : (y.toInt ≤ py ∧ py < y2.toInt) ∧ x.toInt ≤ px ∧ px < x2.toInt
  · rw [if_pos hin,if_pos (hwritten.mpr ⟨py,px,hin.1,hin.2,rfl⟩)]
  · rw [if_neg hin,if_neg]
    intro hex
    obtain ⟨py',px',hrow,hcol,hj⟩ := hwritten.mp hex
    obtain ⟨rfl,rfl⟩ := (rowMajor_inj (by omega) hpx).mp hj
    exact hin ⟨hrow,hcol⟩

theorem Framebuffer.fill_outside {k : ℕ} (hk : fb.height.toNat*fb.width.toNat ≤ k) :
    (fb.fill x y x2 y2 pixel).buffer k = fb.buffer k := by
  rw [fill]
  dsimp only
  rw [sweep_fill,if_neg]
  intro hex
  obtain ⟨py,px,hrow,hcol,rfl⟩ := (exists_index_iff hw hh hx hy hx2 hy2 k).mp hex
  exact absurd (rowMajor_lt (n := fb.height.toNat) (by omega) (by omega)) (Nat.not_lt.mpr hk)

end Fill

/-- The call gives the colour to exactly the pixels of the rectangle that are on the screen. -/
def Clips (fb : Framebuffer) (x y w h : Int32) (c : Color) : Prop :=
  (∀ px py : ℕ, px < fb.width.toNat → py < fb.height.toNat →
    (fb.gfxRect x y w h c).buffer (py*fb.width.toNat+px)
      = if (max y.toInt 0 ≤ py ∧ py < min (y.toInt+h.toInt) fb.height.toNat) ∧
          max x.toInt 0 ≤ px ∧ px < min (x.toInt+w.toInt) fb.width.toNat then colorToPixel c
        else fb.buffer (py*fb.width.toNat+px)) ∧
  ∀ k, fb.height.toNat*fb.width.toNat ≤ k → (fb.gfxRect x y w h c).buffer k = fb.buffer k

section Rect
variable {x y w h : Int32} (hready : fb.ready = true) (hw : fb.width.toNat < 2^15) (hh : fb.height.toNat < 2^15)
  (hx : -2^31 ≤ x.toInt+w.toInt ∧ x.toInt+w.toInt < 2^31) (hy : -2^31 ≤ y.toInt+h.toInt ∧ y.toInt+h.toInt < 2^31)
  (c : Color)
include hready hw hh

theorem Framebuffer.gfxRect_outside {k : ℕ} (hk : fb.height.toNat*fb.width.toNat ≤ k) :
    (fb.gfxRect x y w h c).buffer k = fb.buffer k := by
  rw [gfxRect,if_pos hready]
  apply fill_outside hw hh _ _ _ _ _ hk
  all_goals simp only [toInt_clipLow,toInt_clipHigh hw,toInt_clipHigh hh]
  · omega
  · omega
  · exact upper_le _ _
  · exact upper_le _ _

include hx hy

theorem Framebuffer.gfxRect_inside {px py : ℕ} (hpx : px < fb.width.toNat) :
    (fb.gfxRect x y w h c).buffer (py*fb.width.toNat+px)
      = if (max y.toInt 0 ≤ py ∧ py < upper fb.height.toNat (y.toInt+h.toInt)) ∧
          max x.toInt 0 ≤ px ∧ px < upper fb.width.toNat (x.toInt+w.toInt) then colorToPixel c
        else fb.buffer (py*fb.width.toNat+px) := by
  have hxw : (x+w).toInt = x.toInt+w.toInt := toInt_add_of_le hx.1 hx.2
  have hyh : (y+h).toInt = y.toInt+h.toInt := toInt_add_of_le hy.1 hy.2
  rw [gfxRect,if_pos hready,fill_inside hw hh _ _ _ _ _ hpx]
  all_goals simp only [toInt_clipLow,toInt_clipHigh hw,toInt_clipHigh hh,hxw,hyh]
  · omega
  · omega
  · exact upper_le _ _
  · exact upper_le _ _

end Rect
end Painted

/-- The rectangle is clipped, for all contents of the screen and all colours, exactly if neither of its
far edges is left of or above the screen, or if nothing is painted all the same. -/
theorem gfx_rect_clips_iff {width height : UInt32} (hw : width.toNat < 2^15) (hh : height.toNat < 2^15)
    {x y w h : Int32} (hx : -2^31 ≤ x.toInt+w.toInt ∧ x.toInt+w.toInt < 2^31)
    (hy : -2^31 ≤ y.toInt+h.toInt ∧ y.toInt+h.toInt < 2^31) :
    (∀ buffer c, Clips ⟨true,width,height,buffer⟩ x y w h c) ↔
      (0 ≤ x.toInt+w.toInt ∧ 0 ≤ y.toInt+h.toInt) ∨
      upper width.toNat (x.toInt+w.toInt) ≤ max x.toInt 0 ∨ upper height.toNat (y.toInt+h.toInt) ≤ max y.toInt 0 := by
  constructor
  · intro hclips
    by_contra hcond
    simp only [not_or,not_and,Int.not_le] at hcond
    obtain ⟨hneg,hcols,hrows⟩ := hcond
    -- the upper left pixel of what is painted
    obtain ⟨px,hpx⟩ := Int.eq_ofNat_of_zero_le (Int.le_max_right x.toInt 0)
    obtain ⟨py,hpy⟩ := Int.eq_ofNat_of_zero_le (Int.le_max_right y.toInt 0)
    have hwidth := upper_le width.toNat (x.toInt+w.toInt)
    have hheight := upper_le height.toNat (y.toInt+h.toInt)
    have hpainted := @Framebuffer.gfxRect_inside ⟨true,width,height,fun _ => 0⟩ x y w h rfl hw hh hx hy
      ⟨255,255,255,255⟩ px py (by change px < width.toNat; omega)
    have hkept := (hclips (fun _ => 0) ⟨255,255,255,255⟩).1 px py (by change px < width.toNat; omega)
      (by change py < height.toNat; omega)
    rw [if_pos (by dsimp only; omega)] at hpainted
    rw [hpainted,if_neg (by dsimp only; omega)] at hkept
    have hwhite : colorToPixel ⟨255,255,255,255⟩ ≠ 0 := by decide
    exact hwhite hkept
  · intro hcond buffer c
    refine ⟨fun px py hpx hpy => ?_,fun k hk => Framebuffer.gfxRect_outside rfl hw hh c hk⟩
    rw [Framebuffer.gfxRect_inside rfl hw hh hx hy c hpx]
    congr 1
    dsimp only
    rw [upper,upper] at *
    apply propext
    split_ifs at * <;> omega
theorem gfx_rect_clips_inside : Clips ⟨true,4,3,fun _ => 0⟩ 1 1 2 1 ⟨0,0,0,255⟩ :=
  (gfx_rect_clips_iff (by decide) (by decide) (by decide) (by decide)).mpr (.inl (by decide)) _ _

/-- A rectangle left of the screen paints whole rows of it. -/
theorem gfx_rect_left_paints :
    (Framebuffer.gfxRect ⟨true,4,3,fun _ => 0⟩ (-10) 1 5 1 ⟨255,255,255,255⟩).buffer (1*4+3) = 0xFFFFFFFF ∧
      ¬ Clips ⟨true,4,3,fun _ => 0⟩ (-10) 1 5 1 ⟨255,255,255,255⟩ := by
  have hpainted :
      (Framebuffer.gfxRect ⟨true,4,3,fun _ => 0⟩ (-10) 1 5 1 ⟨255,255,255,255⟩).buffer (1*4+3) = 0xFFFFFFFF := by
    decide +kernel
  refine ⟨hpainted,fun h => ?_⟩
  have hkept := h.1 3 1 (by decide) (by decide)
  rw [if_neg (by decide)] at hkept
  exact absurd (hpainted.symm.trans hkept) (by decide)

end Linuxab.Graphics
