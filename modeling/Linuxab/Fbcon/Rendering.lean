import Linuxab.Base.Integers
import Linuxab.Base.TextScreen
import Linuxab.Fbcon.Frame

/-! `fbcon_puts` renders an ideal text screen of `height/16` rows and `width/8` columns. -/
namespace Linuxab.Fbcon
open Linuxab.Base
variable {con con' : Fbcon} {t : TextScreen UInt8}

section Rendering

/-- A byte outside of the printable ones is shown as a blank. -/
def shown (c : UInt8) : UInt8 := if 0x20 ≤ c ∧ c ≤ 0x7E then c else 32

def glyphPixel (con : Fbcon) (c : UInt8) (row col : ℕ) : UInt32 :=
  if fontBit c row col then con.fgColor else con.bgColor

/-- The pixels of the ideal screen, with background beside it. -/
def screenPixel (con : Fbcon) (t : TextScreen UInt8) (y x : ℕ) : UInt32 :=
  if y/16 < con.height.toNat/16 ∧ x/8 < con.width.toNat/8 then con.glyphPixel (t.grid (y/16) (x/8)) (y%16) (x%8)
  else con.bgColor

lemma glyphPixel_space (con : Fbcon) (row col : ℕ) : con.glyphPixel 32 row col = con.bgColor := by
  simp [glyphPixel,fontBit_space]

/-- The pixels and the cursor are those of the ideal screen. -/
structure Renders (con : Fbcon) (t : TextScreen UInt8) : Prop where
  geometry : con.Geometry
  col : con.cursorX.toNat = t.col
  row : con.cursorY.toNat = t.row
  pixels : ∀ y x, y < con.height.toNat → x < con.width.toNat → con.pixel y x = con.screenPixel t y x
  bounded : con.Bounded

lemma Renders.of_cursor (h : con.Renders t) {x y : UInt32} {r c : ℕ} (hx : x.toNat = c) (hy : y.toNat = r) :
    Renders { con with cursorX := x, cursorY := y } { t with row := r, col := c } :=
  ⟨.of_frame (show _ = con.frame from rfl) h.geometry,hx,hy,h.pixels,h.bounded⟩

lemma fbconDrawChar_eq (con : Fbcon) (x y : UInt32) (c : UInt8) : con.fbconDrawChar x y c =
    paint (List.range con.charH.toNat ×ˢ List.range con.charW.toNat)
      (fun p => con.address (y+.ofNat p.1) (x+.ofNat p.2)) (fun p => con.glyphPixel (shown c) p.1 p.2) con := by
  have hcond : (c < 32 ∨ c > 126) ↔ ¬ (0x20 ≤ c ∧ c ≤ 0x7E) := by
    rw [not_and_or,UInt8.not_le,UInt8.not_le]
  simp only [fbconDrawChar,shown]
  by_cases hc : 0x20 ≤ c ∧ c ≤ 0x7E
  · rw [if_neg (not_not.mpr hc ∘ hcond.mp),if_pos hc]
    rfl
  · rw [if_pos (hcond.mpr hc),if_neg hc]
    simp only [glyphPixel_space]

lemma fbconDrawChar_frame (con : Fbcon) (x y : UInt32) (c : UInt8) : (con.fbconDrawChar x y c).frame = con.frame := by
  rw [fbconDrawChar_eq]
  exact paint_frame

lemma toNat_mul_add {a b : UInt32} {i : ℕ} (h : a.toNat*b.toNat+i < 2^32) :
    (a*b+.ofNat i).toNat = a.toNat*b.toNat+i := by
  rw [UInt32.toNat_add,UInt32.toNat_mul,UInt32.toNat_ofNat',← Nat.add_mod,Nat.mod_eq_of_lt h]

lemma screenPixel_of_frame (h : con'.frame = con.frame) (t : TextScreen UInt8) (y x : ℕ) :
    con'.screenPixel t y x = con.screenPixel t y x :=
  (congrArg (fun con => screenPixel con t y x) h : con'.frame.screenPixel t y x = con.frame.screenPixel t y x)

/-- The pixels of one character have been replaced. -/
lemma Renders.of_block (h : con.Renders t) (hb : t.InBounds con.rows.toNat con.cols.toNat) (a : UInt8)
    (hframe : con'.frame = con.frame) (hx : con'.cursorX = con.cursorX) (hy : con'.cursorY = con.cursorY)
    (hbounded : con'.Bounded)
    (hpixel : ∀ y x, x < con.width.toNat → con'.pixel y x
      = if (t.row*16 ≤ y ∧ y < t.row*16+16) ∧ t.col*8 ≤ x ∧ x < t.col*8+8 then
          con.glyphPixel a (y-t.row*16) (x-t.col*8)
        else con.pixel y x) : con'.Renders (t.write a) := by
  have hrow := hb.row_lt
  have hcol := hb.col_lt
  rw [h.geometry.toNat_rows] at hrow
  rw [h.geometry.toNat_cols] at hcol
  refine ⟨h.geometry.of_frame hframe,hx ▸ h.col,hy ▸ h.row,fun y x hy hx => ?_,hbounded⟩
  rw [height_of_frame hframe] at hy
  rw [width_of_frame hframe] at hx
  rw [hpixel y x hx,h.pixels y x hy hx,screenPixel_of_frame hframe]
  have hin : ((t.row*16 ≤ y ∧ y < t.row*16+16) ∧ t.col*8 ≤ x ∧ x < t.col*8+8) ↔ y/16 = t.row ∧ x/8 = t.col := by
    omega
  simp only [screenPixel,TextScreen.write,hin]
  by_cases hat : y/16 = t.row ∧ x/8 = t.col
  · have hy' : y-t.row*16 = y%16 := by omega
    have hx' : x-t.col*8 = x%8 := by omega
    have hgrid : y/16 < con.height.toNat/16 ∧ x/8 < con.width.toNat/8 := by omega
    simp only [if_pos hat,if_pos hgrid,hy',hx']
  · simp only [if_neg hat]

lemma Renders.write (h : con.Renders t) (hb : t.InBounds con.rows.toNat con.cols.toNat) (c : UInt8) :
    (con.fbconDrawChar (con.cursorX*con.charW) (con.cursorY*con.charH) c).Renders (t.write (shown c)) := by
  have hg := h.geometry
  have hrow := hb.row_lt
  have hcol := hb.col_lt
  rw [hg.toNat_rows] at hrow
  rw [hg.toNat_cols] at hcol
  have hheight := con.height.toNat_lt
  have hwidth := con.width.toNat_lt
  have hW : con.charW.toNat = 8 := by rw [hg.charW]; rfl
  have hH : con.charH.toNat = 16 := by rw [hg.charH]; rfl
  have hdst : ∀ p : ℕ × ℕ, p.1 < 16 → p.2 < 8 →
      con.address (con.cursorY*con.charH+.ofNat p.1) (con.cursorX*con.charW+.ofNat p.2)
        = 4*((t.row*16+p.1)*con.stride+(t.col*8+p.2)) := by
    rintro ⟨r,c⟩ hr hc
    simp only at hr hc ⊢
    have hy : (con.cursorY*con.charH+.ofNat r).toNat = t.row*16+r := by
      rw [toNat_mul_add,h.row,hH]
      rw [h.row,hH]
      omega
    have hx : (con.cursorX*con.charW+.ofNat c).toNat = t.col*8+c := by
      rw [toNat_mul_add,h.col,hW]
      rw [h.col,hW]
      omega
    rw [hg.address_eq (by omega) (by omega),hy,hx]
  have hrows : t.row*16+16 ≤ con.height.toNat := by omega
  have hcols : t.col*8+8 ≤ con.width.toNat := by omega
  obtain ⟨hbounded,hpixel⟩ := hg.paint_block (t.row*16) (t.col*8) 16 8
    (fun p => con.glyphPixel (shown c) p.1 p.2) h.bounded hrows hcols hdst
  rw [fbconDrawChar_eq,hH,hW]
  exact h.of_block hb (shown c) paint_frame (by rw [paint_eq]) (by rw [paint_eq]) hbounded hpixel

lemma Renders.scroll (h : con.Renders t) : con.fbconScroll.Renders (t.scroll con.rows.toNat 32) := by
  have hg := h.geometry
  have hleaves := hg.scroll_leaves h.bounded
  have hx : con.fbconScroll.cursorX = 0 := rfl
  have hy : con.fbconScroll.cursorY = con.rows-1 := by rw [hg.fbconScroll_eq]
  have hone : (1 : UInt32) ≤ con.rows := by
    have hheight := hg.height_ge
    apply UInt32.le_iff_toNat_le.mpr
    rw [hg.toNat_rows]
    exact Nat.div_pos hheight (by decide)
  refine ⟨hg.of_frame hleaves.frame,by rw [hx]; rfl,?_,fun y x hy hx => ?_,hleaves.bounded⟩
  · rw [hy,UInt32.toNat_sub_of_le _ _ hone]
    rfl
  rw [height_of_frame hleaves.frame] at hy
  rw [width_of_frame hleaves.frame] at hx
  rw [hg.scroll_pixel h.bounded hy hx,screenPixel_of_frame hleaves.frame]
  simp only [screenPixel,TextScreen.scroll,hg.toNat_rows]
  have hdiv : (y+16)/16 = y/16+1 := by omega
  have hmod : (y+16)%16 = y%16 := by omega
  by_cases hlast : y/16+1 < con.height.toNat/16
  · have hmoved : y+16 < con.height.toNat := by omega
    rw [if_pos hmoved,h.pixels _ _ hmoved hx]
    simp only [screenPixel,hdiv,hmod,hlast,if_true,true_and,Nat.lt_of_succ_lt hlast]
  · -- the last row of text and the rows below it
    have hblank : (if y+16 < con.height.toNat then con.pixel (y+16) x else con.bgColor) = con.bgColor := by
      split_ifs with hmoved
      · rw [h.pixels _ _ hmoved hx,screenPixel,hdiv,if_neg (hlast ·.1)]
      · rfl
    rw [hblank,if_neg hlast,glyphPixel_space,ite_self]

end Rendering

section Cursor

/-- `(x + 8) & ~7` -/
lemma toNat_tab {x : UInt32} (hx : x.toNat < 2^31) : ((x+8) &&& ~~~7).toNat = (x.toNat/8+1)*8 := by
  have hstep : (8 : UInt32).toNat = 8 := rfl
  have hmask : (~~~(7 : UInt32)).toNat = (2^29-1) <<< 3 := rfl
  rw [UInt32.toNat_and,UInt32.toNat_add,hmask,hstep,Nat.mod_eq_of_lt (by omega),and_high_bits (by omega)]
  omega

lemma toNat_succ {x : UInt32} (hx : x.toNat < 2^31) : (x+1).toNat = x.toNat+1 := by
  have hone : (1 : UInt32).toNat = 1 := rfl
  rw [UInt32.toNat_add,hone]
  omega

lemma lineWrap_frame (con : Fbcon) : (lineWrap con).frame = con.frame := by
  unfold lineWrap
  split_ifs <;> rfl

lemma fbconScroll_frame (con : Fbcon) : con.fbconScroll.frame = con.frame := by
  simp only [fbconScroll,paint_eq,memcpy_eq]
  rfl

lemma scrollIfNeeded_frame (con : Fbcon) : (scrollIfNeeded con).frame = con.frame := by
  unfold scrollIfNeeded
  split_ifs
  · exact con.fbconScroll_frame
  · rfl

lemma putcBranch_frame (con : Fbcon) (c : UInt8) : (con.putcBranch c).frame = con.frame := by
  unfold putcBranch
  split_ifs
  all_goals first | rfl | exact con.fbconDrawChar_frame _ _ c

lemma fbconPutc_frame (con : Fbcon) (c : UInt8) : (con.fbconPutc c).frame = con.frame :=
  (scrollIfNeeded_frame _).trans ((lineWrap_frame _).trans (con.putcBranch_frame c))

lemma Renders.lineWrap (h : con.Renders t) (hrow : t.row < 2^31) :
    (lineWrap con).Renders (t.wrap con.cols.toNat) := by
  have hx : con.cursorX ≥ con.cols ↔ con.cols.toNat ≤ t.col := by rw [← h.col]; exact UInt32.le_iff_toNat_le
  unfold Fbcon.lineWrap TextScreen.wrap
  by_cases hwrap : con.cols.toNat ≤ t.col
  · rw [if_pos (hx.mpr hwrap),if_pos hwrap]
    exact h.of_cursor rfl (by rw [toNat_succ (h.row ▸ hrow),h.row])
  · rwa [if_neg (mt hx.mp hwrap),if_neg hwrap]

lemma Renders.settle (h : con.Renders t) (hrow : t.row < 2^31) :
    (scrollIfNeeded (Fbcon.lineWrap con)).Renders (t.settle con.rows.toNat con.cols.toNat 32) := by
  have hwrap := h.lineWrap hrow
  have hrows := rows_of_frame con.lineWrap_frame
  have hy : (Fbcon.lineWrap con).cursorY ≥ (Fbcon.lineWrap con).rows ↔
      con.rows.toNat ≤ (t.wrap con.cols.toNat).row := by
    rw [← hwrap.row,hrows]
    exact UInt32.le_iff_toNat_le
  unfold scrollIfNeeded TextScreen.settle
  by_cases hscroll : con.rows.toNat ≤ (t.wrap con.cols.toNat).row
  · have hstate := hwrap.scroll
    rw [hrows] at hstate
    simp only [hy.mpr hscroll,hscroll,if_true]
    exact hstate
  · simp only [mt hy.mp hscroll,hscroll,if_false]
    exact hwrap

/-- Nothing wraps or scrolls while the cursor is on the screen. -/
lemma Renders.stay (h : con.Renders t) (hb : t.InBounds con.rows.toNat con.cols.toNat) (hrow : t.row < 2^31) :
    (scrollIfNeeded (Fbcon.lineWrap con)).Renders t := by
  have hsettle := h.settle hrow
  rwa [hb.settle_eq] at hsettle

end Cursor

section Text
variable (rows cols : ℕ)

/-- The ideal screen takes a byte. -/
def feed (t : TextScreen UInt8) (c : UInt8) : TextScreen UInt8 :=
  if c = 10 then t.newline rows cols 32
  else if c = 13 then t.home
  else if c = 8 then t.back
  else if c = 9 then t.tab rows cols 32
  else t.put rows cols 32 (shown c)

/-- The ideal screen takes a string. -/
def feedAll (t : TextScreen UInt8) (str : List UInt8) : TextScreen UInt8 :=
  (str.takeWhile (· != 0)).foldl (feed rows cols) t

variable {rows cols}

lemma feed_inBounds (h : t.InBounds rows cols) (c : UInt8) : (feed rows cols t c).InBounds rows cols := by
  unfold feed
  split_ifs
  · exact h.newline
  · exact h.home
  · exact h.back
  · exact h.tab
  · exact h.put _

/-- The step lemma: one case for each branch of `fbcon_putc`. -/
lemma Renders.fbconPutc (h : con.Renders t) (hb : t.InBounds con.rows.toNat con.cols.toNat) (c : UInt8) :
    (con.fbconPutc c).Renders (feed con.rows.toNat con.cols.toNat t c) := by
  have hrow := hb.row_lt
  have hcol := hb.col_lt
  rw [h.geometry.toNat_rows] at hrow
  rw [h.geometry.toNat_cols] at hcol
  have hheight := con.height.toNat_lt
  have hwidth := con.width.toNat_lt
  have hrow' : t.row < 2^31 := by omega
  have hx : con.cursorX.toNat < 2^31 := by rw [h.col]; omega
  have hy : con.cursorY.toNat < 2^31 := by rw [h.row]; omega
  have hpos : con.cursorX > 0 ↔ 0 < t.col := by rw [← h.col]; exact UInt32.lt_iff_toNat_lt
  unfold Fbcon.fbconPutc putcBranch feed
  split_ifs with hlf hcr hbs hback htab
  · exact (h.of_cursor rfl (by rw [toNat_succ hy,h.row])).settle (by simp only; omega)
  · exact (h.of_cursor rfl h.row).stay hb.home hrow'
  · refine (h.of_cursor ?_ h.row).stay hb.back hrow'
    rw [UInt32.toNat_sub_of_le _ _ hback,h.col]
    rfl
  · refine (h.of_cursor ?_ h.row).stay hb.back hrow'
    rw [h.col,Nat.eq_zero_of_not_pos (mt hpos.mpr hback)]
  · exact (h.of_cursor (by rw [toNat_tab hx,h.col]) h.row).settle hrow'
  · have hwrite := h.write hb c
    have hframe := con.fbconDrawChar_frame (con.cursorX*con.charW) (con.cursorY*con.charH) c
    generalize con.fbconDrawChar (con.cursorX*con.charW) (con.cursorY*con.charH) c = con' at hwrite hframe ⊢
    rw [← rows_of_frame hframe,← cols_of_frame hframe]
    exact (hwrite.of_cursor (by rw [toNat_succ hx,h.col]) hwrite.row).settle hrow'

/-- The run lemma. -/
lemma Renders.foldl_fbconPutc (h : con.Renders t) (hb : t.InBounds con.rows.toNat con.cols.toNat) (str : List UInt8) :
    (str.foldl Fbcon.fbconPutc con).frame = con.frame ∧
      (str.foldl Fbcon.fbconPutc con).Renders (str.foldl (feed con.rows.toNat con.cols.toNat) t) := by
  induction str generalizing con t with
  | nil => exact ⟨rfl,h⟩
  | cons c str ih =>
    have hframe := con.fbconPutc_frame c
    have hstep := h.fbconPutc hb c
    have hb' := feed_inBounds hb c
    rw [← rows_of_frame hframe,← cols_of_frame hframe] at hstep hb'
    obtain ⟨hframe',hrest⟩ := ih hstep hb'
    rw [rows_of_frame hframe,cols_of_frame hframe] at hrest
    exact ⟨hframe'.trans hframe,hrest⟩

lemma fbconClear_frame (con : Fbcon) : con.fbconClear.frame = con.frame := by
  simp only [fbconClear,paint_eq]
  rfl

lemma Geometry.renders_fbconClear (h : con.Geometry) (hb : con.Bounded) : con.fbconClear.Renders (.clear 32) := by
  have hdst : ∀ p : ℕ × ℕ, p.1 < con.height.toNat → p.2 < con.width.toNat →
      con.address (.ofNat p.1) (.ofNat p.2) = 4*((0+p.1)*con.stride+(0+p.2)) := by
    intro p hy hx
    have hy' : (UInt32.ofNat p.1).toNat = p.1 := UInt32.toNat_ofNat_of_lt' (hy.trans con.height.toNat_lt)
    have hx' : (UInt32.ofNat p.2).toNat = p.2 := UInt32.toNat_ofNat_of_lt' (hx.trans con.width.toNat_lt)
    rw [h.address_eq (hy'.symm ▸ hy) (hx'.symm ▸ hx),hy',hx',Nat.zero_add,Nat.zero_add]
  obtain ⟨hbounded,hpixel⟩ := h.paint_block 0 0 con.height.toNat con.width.toNat (fun _ => con.bgColor) hb
    (Nat.le_of_eq (Nat.zero_add _)) (Nat.le_of_eq (Nat.zero_add _)) hdst
  have hframe : (paint (List.range con.height.toNat ×ˢ List.range con.width.toNat)
      (fun p => con.address (.ofNat p.1) (.ofNat p.2)) (fun _ => con.bgColor) con).frame = con.frame := paint_frame
  simp only [fbconClear]
  generalize paint (List.range con.height.toNat ×ˢ List.range con.width.toNat) _ _ con = con'
    at hbounded hpixel hframe ⊢
  have hpainted : con'.Renders ⟨fun _ _ => 32,con'.cursorY.toNat,con'.cursorX.toNat⟩ := by
    refine ⟨h.of_frame hframe,rfl,rfl,fun y x hy hx => ?_,hbounded⟩
    rw [height_of_frame hframe] at hy
    rw [width_of_frame hframe] at hx
    have hin : (0 ≤ y ∧ y < 0+con.height.toNat) ∧ 0 ≤ x ∧ x < 0+con.width.toNat := by omega
    rw [hpixel y x hx,if_pos hin,screenPixel_of_frame hframe]
    simp [screenPixel,glyphPixel_space]
  exact hpainted.of_cursor rfl rfl

/-- `fbcon_init`, `fbcon_clear` and `fbcon_puts` -/
def printed (memory : ℕ → UInt8) (width height pitch bpp : UInt32) (str : List UInt8) : Fbcon :=
  (fbconInit memory width height pitch bpp).fbconClear.fbconPuts str

/-- The text is rendered, and the geometry and the colours are still those of `fbcon_init`. -/
theorem fbcon_puts_renders (memory : ℕ → UInt8) (width height pitch bpp : UInt32) (str : List UInt8)
    (hwidth : 8 ≤ width) (hheight : 16 ≤ height) (hpitch : 4*width.toNat ≤ pitch.toNat)
    (halign : pitch.toNat%4 = 0) (hsize : height.toNat*pitch.toNat < 2^32) :
    (printed memory width height pitch bpp str).frame = (fbconInit memory width height pitch bpp).frame ∧
      (printed memory width height pitch bpp str).Renders
        (feedAll (height.toNat/16) (width.toNat/8) (.clear 32) str) := by
  have hgeometry : (fbconInit memory width height pitch bpp).Geometry :=
    ⟨rfl,rfl,rfl,rfl,hwidth,hheight,hpitch,halign,hsize⟩
  have hclear := hgeometry.renders_fbconClear fun a ha => absurd ha (List.not_mem_nil)
  have hframe := (fbconInit memory width height pitch bpp).fbconClear_frame
  have hrows := congrArg UInt32.toNat (rows_of_frame hframe)
  have hcols := congrArg UInt32.toNat (cols_of_frame hframe)
  rw [hgeometry.toNat_rows] at hrows
  rw [hgeometry.toNat_cols] at hcols
  have hb : TextScreen.InBounds (height.toNat/16) (width.toNat/8) (.clear (32 : UInt8)) :=
    ⟨Nat.div_pos hheight (by decide),Nat.div_pos hwidth (by decide)⟩
  obtain ⟨hrun,hrenders⟩ := hclear.foldl_fbconPutc (by rwa [hrows,hcols]) (str.takeWhile (· != 0))
  rw [hrows,hcols] at hrenders
  exact ⟨hrun.trans hframe,hrenders⟩

/-- A frame buffer of 20 times 40 pixels. -/
theorem fbcon_puts_renders_small :
    (printed (fun _ => 0xAA) 20 40 96 32 [72,105,10,9,8,33]).frame = (fbconInit (fun _ => 0xAA) 20 40 96 32).frame ∧
      (printed (fun _ => 0xAA) 20 40 96 32 [72,105,10,9,8,33]).Renders
        (feedAll 2 2 (.clear 32) [72,105,10,9,8,33]) :=
  fbcon_puts_renders (fun _ => 0xAA) 20 40 96 32 [72,105,10,9,8,33] (by decide) (by decide) (by decide) (by decide)
    (by decide)

end Text
end Linuxab.Fbcon
