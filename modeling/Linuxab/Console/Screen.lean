import Linuxab.Base.TextScreen
import Linuxab.Console.Cursor

/-! `cursor_putchar` shows an ideal text screen of 25 rows and 80 columns. -/
namespace Linuxab.Console
open Linuxab.Base

/-- The ideal screen takes a byte. -/
def feed (color : UInt8) (t : TextScreen UInt16) (c : UInt8) : TextScreen UInt16 :=
  if c = 10 then t.newline 25 80 (blank color)
  else if c = 13 then t.home
  else if c = 8 then t.eraseBack (blank color)
  else if c = 9 then t.tab 25 80 (blank color)
  else t.put 25 80 (blank color) (cell color c)

def IsPrintable (c : UInt8) : Prop := 0x20 ≤ c ∧ c ≤ 0x7E

instance (c : UInt8) : Decidable (IsPrintable c) := inferInstanceAs (Decidable (_ ∧ _))

lemma IsPrintable.ne_of_lt {b c : UInt8} (hc : IsPrintable c) (hb : b < 0x20) : c ≠ b := by
  rintro rfl
  exact absurd hc.1 (UInt8.not_le.mpr hb)

lemma feed_of_printable (color : UInt8) (t : TextScreen UInt16) {c : UInt8} (hc : IsPrintable c) :
    feed color t c = t.put 25 80 (blank color) (cell color c) := by
  rw [feed,if_neg (hc.ne_of_lt (by decide)),if_neg (hc.ne_of_lt (by decide)),if_neg (hc.ne_of_lt (by decide)),
    if_neg (hc.ne_of_lt (by decide))]

lemma feed_inBounds {t : TextScreen UInt16} (h : t.InBounds 25 80) (color c : UInt8) :
    (feed color t c).InBounds 25 80 := by
  unfold feed
  split_ifs
  · exact h.newline
  · exact h.home
  · exact h.eraseBack
  · exact h.tab
  · exact h.put _

namespace CursorState
variable {s : CursorState} {t : TextScreen UInt16}

/-- The cells and the cursor are those of the ideal screen. -/
structure Shows (s : CursorState) (t : TextScreen UInt16) : Prop where
  col : s.cursorX.toNat = t.col
  row : s.cursorY.toNat = t.row
  grid : ∀ r c, r < 25 → c < 80 → s.vgaBuffer (r*80+c) = t.grid r c

/-- The ideal screen that a state shows. -/
def view (s : CursorState) : TextScreen UInt16 := ⟨fun r c => s.vgaBuffer (r*80+c),s.cursorY.toNat,s.cursorX.toNat⟩

lemma shows_view (s : CursorState) : s.Shows s.view := ⟨rfl,rfl,fun _ _ _ _ => rfl⟩

lemma Shows.cell_eq (h : s.Shows t) {i : ℕ} (hi : i < 2000) : s.vgaBuffer i = t.grid (i/80) (i%80) := by
  rw [← h.grid (i/80) (i%80) (by omega) (Nat.mod_lt i (by decide)),Nat.div_add_mod']

lemma Shows.write (h : s.Shows t) (hb : t.InBounds 25 80) (v : UInt16) : (s.store s.offset v).Shows (t.write v) := by
  refine ⟨h.col,h.row,fun r c hr hc => ?_⟩
  have hcol := hb.col_lt
  simp only [store,TextScreen.write,Function.update_apply,offset,h.col,h.row,rowMajor_inj hc hcol,h.grid r c hr hc]

lemma scrollUp_vgaBuffer (s : CursorState) (i : ℕ) : (scrollUp s).vgaBuffer i
    = if i < 80*24 then s.vgaBuffer (i+80) else if i < 80*25 then blank s.color else s.vgaBuffer i := by
  simp only [scrollUp,fillCells_eq,copyCells_eq,sweep_fill_range]
  rw [sweep_shift]
  split_ifs <;> first | rfl | omega

lemma Shows.scroll (h : s.Shows t) (hx : s.cursorX = 0) :
    Shows { scrollUp s with cursorY := 24 } (t.scroll 25 (blank s.color)) := by
  refine ⟨?_,rfl,fun r c hr hc => ?_⟩
  · simp [scrollUp,hx,TextScreen.scroll]
  simp only [TextScreen.scroll,scrollUp_vgaBuffer]
  by_cases hlast : r+1 < 25
  · rw [if_pos (by omega),if_pos hlast,← h.grid (r+1) c hlast hc]
    congr 1
    omega
  · rw [if_neg (by omega),if_pos (by omega),if_neg hlast]

lemma Shows.lineWrap (h : s.Shows t) (hrow : t.row ≤ 25) : (lineWrap s).Shows (t.wrap 80) := by
  have hx : s.cursorX ≥ 80 ↔ 80 ≤ t.col := by rw [← h.col]; exact UInt8.le_iff_toNat_le
  unfold CursorState.lineWrap TextScreen.wrap
  by_cases hwrap : 80 ≤ t.col
  · rw [if_pos (hx.mpr hwrap),if_pos hwrap]
    refine ⟨rfl,?_,h.grid⟩
    have hone : (1 : UInt8).toNat = 1 := rfl
    have hy := h.row
    simp only [UInt8.toNat_add,hone]
    omega
  · rwa [if_neg (mt hx.mp hwrap),if_neg hwrap]

@[simp] lemma lineWrap_color (s : CursorState) : (CursorState.lineWrap s).color = s.color := by
  unfold CursorState.lineWrap
  split_ifs <;> rfl

/-- Wrapping and scrolling; the column is 0 whenever the screen scrolls. -/
lemma Shows.settle (h : s.Shows t) (hrow : t.row ≤ 25) (hcol : 25 ≤ t.row → t.col = 0) :
    (scrollIfNeeded (CursorState.lineWrap s)).Shows (t.settle 25 80 (blank s.color)) := by
  have hwrap := h.lineWrap hrow
  have hy : (CursorState.lineWrap s).cursorY ≥ 25 ↔ 25 ≤ (t.wrap 80).row := by
    rw [← hwrap.row]
    exact UInt8.le_iff_toNat_le
  unfold scrollIfNeeded TextScreen.settle
  by_cases hscroll : 25 ≤ (t.wrap 80).row
  · have hzero : (CursorState.lineWrap s).cursorX = 0 := by
      apply UInt8.toNat_inj.mp
      rw [hwrap.col]
      simp only [TextScreen.wrap] at hscroll ⊢
      split_ifs at hscroll ⊢ with hw
      · rfl
      · exact hcol hscroll
    have hstate := hwrap.scroll hzero
    rw [lineWrap_color] at hstate
    simp only [hy.mpr hscroll,hscroll,if_true]
    exact hstate
  · simp only [mt hy.mp hscroll,hscroll,if_false]
    exact hwrap

lemma toNat_tab {x : UInt8} (hx : x.toNat < 80) : ((x+8) &&& ~~~7).toNat = (x.toNat/8+1)*8 := by
  have hall : ∀ n < 80, ((UInt8.ofNat n+8) &&& ~~~7).toNat = (n/8+1)*8 := by decide
  simpa using hall x.toNat hx

lemma toNat_succ {x : UInt8} (hx : x.toNat < 80) : (x+1).toNat = x.toNat+1 := by
  have hone : (1 : UInt8).toNat = 1 := rfl
  rw [UInt8.toNat_add,hone]
  omega

lemma Shows.cursorUpdateHw (h : s.Shows t) : (CursorState.cursorUpdateHw s).Shows t := ⟨h.col,h.row,h.grid⟩

/-- Nothing wraps or scrolls while the cursor is on the screen. -/
lemma Shows.stay (h : s.Shows t) (hb : t.InBounds 25 80) : (scrollIfNeeded (CursorState.lineWrap s)).Shows t := by
  have hsettle := h.settle (Nat.le_of_lt hb.row_lt) fun hrow => absurd hb.row_lt (Nat.not_lt.mpr hrow)
  rwa [hb.settle_eq] at hsettle

lemma Shows.back (h : s.Shows t) (hx : s.cursorX > 0) : Shows { s with cursorX := s.cursorX-1 } t.back := by
  have hpos : 0 < s.cursorX.toNat := hx
  have hone : (1 : UInt8).toNat = 1 := rfl
  have hlt := s.cursorX.toNat_lt
  have hcol := h.col
  refine ⟨?_,h.row,h.grid⟩
  simp only [UInt8.toNat_sub,hone,TextScreen.back]
  omega

/-- The step lemma: one case for each branch of `cursor_putchar`. -/
lemma Shows.cursorPutchar (h : s.Shows t) (hb : t.InBounds 25 80) (c : UInt8) :
    (CursorState.cursorPutchar s c).Shows (feed s.color t c) := by
  have hrow := hb.row_lt
  have hx : s.cursorX.toNat < 80 := h.col ▸ hb.col_lt
  have hy : s.cursorY.toNat < 80 := by rw [h.row]; omega
  have hposx : s.cursorX > 0 ↔ 0 < t.col := by rw [← h.col]; exact UInt8.lt_iff_toNat_lt
  apply Shows.cursorUpdateHw
  unfold putBranch feed
  split_ifs with hlf hcr hbs hpos htab
  · exact Shows.settle ⟨rfl,by rw [toNat_succ hy,h.row],h.grid⟩ (by simp only; omega) (fun _ => rfl)
  · exact Shows.stay ⟨rfl,h.row,h.grid⟩ hb.home
  · rw [TextScreen.eraseBack,if_pos (hposx.mp hpos)]
    exact ((h.back hpos).write hb.back _).stay ⟨hb.back.row_lt,hb.back.col_lt⟩
  · rw [TextScreen.eraseBack,if_neg (mt hposx.mpr hpos)]
    exact h.stay hb
  · refine Shows.settle ⟨?_,h.row,h.grid⟩ (Nat.le_of_lt hrow) fun hle => absurd hrow (Nat.not_lt.mpr hle)
    rw [toNat_tab hx,h.col]
  · have hput := h.write hb (cell s.color c)
    refine Shows.settle ⟨?_,hput.row,hput.grid⟩ (Nat.le_of_lt hrow) fun hle => absurd hrow (Nat.not_lt.mpr hle)
    rw [toNat_succ hx,h.col]

@[simp] lemma cursorPutchar_color (s : CursorState) (c : UInt8) : (CursorState.cursorPutchar s c).color = s.color := by
  have hput : (putBranch s c).color = s.color := by
    unfold putBranch
    split_ifs <;> rfl
  have hscroll : ∀ s : CursorState, (scrollIfNeeded s).color = s.color := by
    intro s
    unfold scrollIfNeeded
    split_ifs
    · simp [scrollUp]
    · rfl
  simp [CursorState.cursorPutchar,CursorState.cursorUpdateHw,hscroll,hput]

/-- The run lemma. -/
lemma Shows.foldl_putchar (h : s.Shows t) (hb : t.InBounds 25 80) (str : List UInt8) :
    (str.foldl CursorState.cursorPutchar s).Shows (str.foldl (feed s.color) t) := by
  induction str generalizing s t with
  | nil => exact h
  | cons c str ih =>
    have hrest := ih (h.cursorPutchar hb c) (feed_inBounds hb s.color c)
    rwa [cursorPutchar_color] at hrest

lemma cursorClearScreen_color (s : CursorState) : (cursorClearScreen s).color = s.color := by
  simp only [cursorClearScreen,CursorState.cursorUpdateHw,fillCells_color]

lemma shows_cursorClearScreen (s : CursorState) : (cursorClearScreen s).Shows (.clear (blank s.color)) := by
  refine ⟨rfl,rfl,fun r c hr hc => ?_⟩
  simp only [cursorClearScreen,CursorState.cursorUpdateHw,fillCells_eq,List.range_eq_range',sweep_fill_range,
    TextScreen.clear]
  exact if_pos (by omega)

end CursorState
end Linuxab.Console
