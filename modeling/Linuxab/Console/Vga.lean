import Linuxab.Console.Screen

/-! The text driver of `rust/vga.rs`, which addresses the buffer byte by byte, and that it shows the same
screen as `kernel/cursor.c`. -/
namespace Linuxab.Console
open Linuxab.Base

inductive Color
  | black | blue | green | cyan | red | magenta | brown | lightGray | darkGray | lightBlue | lightGreen
  | lightCyan | lightRed | pink | yellow | white
  deriving DecidableEq

def Color.toUInt8 : Color → UInt8
  | .black => 0 | .blue => 1 | .green => 2 | .cyan => 3 | .red => 4 | .magenta => 5 | .brown => 6
  | .lightGray => 7 | .darkGray => 8 | .lightBlue => 9 | .lightGreen => 10 | .lightCyan => 11
  | .lightRed => 12 | .pink => 13 | .yellow => 14 | .white => 15

def makeColor (fg bg : Color) : UInt8 := bg.toUInt8 <<< 4 ||| fg.toUInt8

structure VgaState where
  vgaBuffer : ℕ → UInt8
  vgaCol : ℕ
  vgaRow : ℕ
  vgaFg : Color
  vgaBg : Color

namespace VgaState

def color (s : VgaState) : UInt8 := makeColor s.vgaFg s.vgaBg

/-- The two writes of a character and its attribute. -/
def writeCell (s : VgaState) (offset : ℕ) (c attr : UInt8) : VgaState :=
  { s with vgaBuffer := Function.update (Function.update s.vgaBuffer offset c) (offset+1) attr }

def clearScreen (s : VgaState) : VgaState :=
  let s := { s with vgaCol := 0, vgaRow := 0 }
  (List.range (80*25)).foldl (fun s i => s.writeCell (i*2) 32 s.color) s

/-- The first loop of `scroll`. -/
def moveRows (s : VgaState) : VgaState :=
  (List.range' 1 24 ×ˢ List.range 80).foldl (fun s p =>
    let src := (p.1*80+p.2)*2
    let dst := ((p.1-1)*80+p.2)*2
    s.writeCell dst (s.vgaBuffer src) (s.vgaBuffer (src+1))) s

/-- The second loop of `scroll`. -/
def clearLastLine (s : VgaState) : VgaState :=
  (List.range 80).foldl (fun s col => s.writeCell ((24*80+col)*2) 32 s.color) s

def scroll (s : VgaState) : VgaState := s.moveRows.clearLastLine

def newline (s : VgaState) : VgaState :=
  let s := { s with vgaCol := 0, vgaRow := s.vgaRow+1 }
  if s.vgaRow ≥ 25 then { s.scroll with vgaRow := 24 } else s

/-- The branch for the bytes that no pattern of `putchar` names. -/
def putOther (s : VgaState) (c : UInt8) : VgaState :=
  if c ≥ 0x20 ∧ c ≤ 0x7E then
    let s := s.writeCell ((s.vgaRow*80+s.vgaCol)*2) c s.color
    let s := { s with vgaCol := s.vgaCol+1 }
    if s.vgaCol ≥ 80 then s.newline else s
  else s

def putchar (s : VgaState) (c : UInt8) : VgaState :=
  if c = 10 then s.newline
  else if c = 13 then { s with vgaCol := 0 }
  else if c = 9 then (List.range (8-s.vgaCol % 8)).foldl (fun s _ => s.putOther 32) s
  else if c = 8 then
    if s.vgaCol > 0 then
      let s := { s with vgaCol := s.vgaCol-1 }
      s.writeCell ((s.vgaRow*80+s.vgaCol)*2) 32 s.color
    else s
  else s.putOther c

section Cells

/-- The buffer as cells of two bytes. -/
def cells (s : VgaState) (i : ℕ) : UInt16 := cell (s.vgaBuffer (i*2+1)) (s.vgaBuffer (i*2))

lemma cells_writeCell (s : VgaState) (i : ℕ) (c attr : UInt8) :
    (s.writeCell (i*2) c attr).cells = Function.update s.cells i (cell attr c) := by
  funext j
  by_cases hj : j = i
  · subst hj
    simp [cells,writeCell]
  · have hchar : j*2 ≠ i*2 ∧ j*2 ≠ i*2+1 := by omega
    have hattr : j*2+1 ≠ i*2 ∧ j*2+1 ≠ i*2+1 := by omega
    simp [cells,writeCell,Function.update_of_ne,hj,hchar,hattr]

/-- What a loop of writes leaves alone. -/
structure SameText (s s' : VgaState) : Prop where
  col : s'.vgaCol = s.vgaCol
  row : s'.vgaRow = s.vgaRow
  color : s'.color = s.color

variable {κ : Type} (l : List κ) (dst src : κ → ℕ) (s : VgaState)

/-- A loop that writes one character in the text colour. -/
lemma foldl_fill (c : UInt8) : (l.foldl (fun s k => s.writeCell (dst k*2) c s.color) s).cells
      = sweep dst (fun _ _ => cell s.color c) l s.cells ∧
    SameText s (l.foldl (fun s k => s.writeCell (dst k*2) c s.color) s) := by
  induction l generalizing s with
  | nil => exact ⟨rfl,rfl,rfl,rfl⟩
  | cons k l ih =>
    obtain ⟨hcells,hcol,hrow,hcolor⟩ := ih (s.writeCell (dst k*2) c s.color)
    refine ⟨?_,hcol,hrow,hcolor⟩
    rw [List.foldl_cons,hcells,sweep_cons,cells_writeCell]
    rfl

/-- A loop that moves cells. -/
lemma foldl_move : (l.foldl (fun s k =>
      s.writeCell (dst k*2) (s.vgaBuffer (src k*2)) (s.vgaBuffer (src k*2+1))) s).cells
      = sweep dst (fun f k => f (src k)) l s.cells ∧
    SameText s (l.foldl (fun s k =>
      s.writeCell (dst k*2) (s.vgaBuffer (src k*2)) (s.vgaBuffer (src k*2+1))) s) := by
  induction l generalizing s with
  | nil => exact ⟨rfl,rfl,rfl,rfl⟩
  | cons k l ih =>
    obtain ⟨hcells,hcol,hrow,hcolor⟩ :=
      ih (s.writeCell (dst k*2) (s.vgaBuffer (src k*2)) (s.vgaBuffer (src k*2+1)))
    refine ⟨?_,hcol,hrow,hcolor⟩
    rw [List.foldl_cons,hcells,sweep_cons,cells_writeCell]
    rfl

end Cells

section Refinement
variable {s : VgaState} {t : TextScreen UInt16}

structure Shows (s : VgaState) (t : TextScreen UInt16) : Prop where
  col : s.vgaCol = t.col
  row : s.vgaRow = t.row
  grid : ∀ r c, r < 25 → c < 80 → s.cells (r*80+c) = t.grid r c

lemma moveRows_spec (s : VgaState) : SameText s s.moveRows ∧
    ∀ i, s.moveRows.cells i = if i < 24*80 then s.cells (i+80) else s.cells i := by
  obtain ⟨hcells,hsame⟩ := foldl_move (List.range' 1 24 ×ˢ List.range 80) (fun p => (p.1-1)*80+p.2)
    (fun p => p.1*80+p.2) s
  refine ⟨hsame,fun i => ?_⟩
  rw [← sweep_rows s.cells 24 80 i]
  exact congrFun hcells i

lemma clearLastLine_spec (s : VgaState) : SameText s s.clearLastLine ∧
    ∀ i, s.clearLastLine.cells i = if 24*80 ≤ i ∧ i < 25*80 then blank s.color else s.cells i := by
  obtain ⟨hcells,hsame⟩ := foldl_fill (List.range 80) (24*80+·) s 32
  refine ⟨hsame,fun i => (congrFun hcells i).trans ?_⟩
  rw [sweep_fill]
  have hcond : (∃ k ∈ List.range 80, 24*80+k = i) ↔ 24*80 ≤ i ∧ i < 25*80 := by
    simp only [List.mem_range]
    exact ⟨fun ⟨k,hk,hi⟩ => by omega,fun hi => ⟨i-24*80,by omega,by omega⟩⟩
  simp only [hcond,blank]

lemma scroll_spec (s : VgaState) : SameText s s.scroll ∧ ∀ i, s.scroll.cells i
    = if 24*80 ≤ i ∧ i < 25*80 then blank s.color else if i < 24*80 then s.cells (i+80) else s.cells i := by
  obtain ⟨hsame,hmove⟩ := moveRows_spec s
  obtain ⟨hsame',hclear⟩ := clearLastLine_spec s.moveRows
  unfold scroll
  refine ⟨⟨hsame'.col.trans hsame.col,hsame'.row.trans hsame.row,hsame'.color.trans hsame.color⟩,fun i => ?_⟩
  rw [hclear,hmove,hsame.color]

/-- Any state that differs from `s` by a scrolled text shows the scrolled screen. -/
lemma Shows.of_scrolled {u : VgaState} (h : s.Shows t) (hcol : s.vgaCol = 0) (hsame : SameText s u)
    (hcells : ∀ i, u.cells i = if 24*80 ≤ i ∧ i < 25*80 then blank s.color
      else if i < 24*80 then s.cells (i+80) else s.cells i) :
    Shows { u with vgaRow := 24 } (t.scroll 25 (blank s.color)) := by
  refine ⟨hsame.col.trans hcol,rfl,fun r c hr hc => (hcells (r*80+c)).trans ?_⟩
  simp only [TextScreen.scroll]
  by_cases hlast : r+1 < 25
  · rw [if_neg (by omega),if_pos (by omega),if_pos hlast,← h.grid (r+1) c hlast hc]
    congr 1
    omega
  · rw [if_pos (by omega),if_neg hlast]

lemma Shows.newline (h : s.Shows t) : s.newline.Shows (t.newline 25 80 (blank s.color)) := by
  have hstart : Shows { s with vgaCol := 0, vgaRow := s.vgaRow+1 } { t with row := t.row+1, col := 0 } :=
    ⟨rfl,congrArg (·+1) h.row,h.grid⟩
  rw [TextScreen.newline_eq (by decide)]
  unfold VgaState.newline
  by_cases hscroll : 25 ≤ t.row+1
  · rw [if_pos (by simpa [h.row] using hscroll),if_pos hscroll]
    exact hstart.of_scrolled rfl (scroll_spec _).1 (scroll_spec _).2
  · rw [if_neg (by simpa [h.row] using hscroll),if_neg hscroll]
    exact hstart

lemma Shows.write (h : s.Shows t) (hb : t.InBounds 25 80) (c : UInt8) :
    (s.writeCell ((s.vgaRow*80+s.vgaCol)*2) c s.color).Shows (t.write (cell s.color c)) := by
  refine ⟨h.col,h.row,fun r k hr hk => ?_⟩
  rw [cells_writeCell]
  simp only [TextScreen.write,Function.update_apply,h.col,h.row,rowMajor_inj hk hb.col_lt,h.grid r k hr hk]

/-- The bytes that the two drivers are compared on. -/
def IsText (c : UInt8) : Prop := 0x20 ≤ c ∧ c ≤ 0x7E ∨ c = 10 ∨ c = 13 ∨ c = 8

lemma Shows.putOther (h : s.Shows t) (hb : t.InBounds 25 80) {c : UInt8} (hc : 0x20 ≤ c ∧ c ≤ 0x7E) :
    (s.putOther c).Shows (t.put 25 80 (blank s.color) (cell s.color c)) := by
  have hwrite := h.write hb c
  have hnext : Shows { s.writeCell ((s.vgaRow*80+s.vgaCol)*2) c s.color with vgaCol := s.vgaCol+1 }
      { t.write (cell s.color c) with col := t.col+1 } := ⟨congrArg (·+1) h.col,hwrite.row,hwrite.grid⟩
  have hcol : s.vgaCol+1 ≥ 80 ↔ 80 ≤ t.col+1 := by rw [h.col]
  rw [hb.put_eq,VgaState.putOther,if_pos hc]
  by_cases hfull : 80 ≤ t.col+1
  · rw [if_pos hfull]
    exact (if_pos (hcol.mpr hfull)).symm ▸ hnext.newline
  · rw [if_neg hfull]
    exact (if_neg (mt hcol.mp hfull)).symm ▸ hnext

lemma Shows.backspace (h : s.Shows t) (hb : t.InBounds 25 80) : (s.putchar 8).Shows (t.eraseBack (blank s.color)) := by
  have hcol : s.vgaCol > 0 ↔ 0 < t.col := by rw [h.col]
  rw [VgaState.putchar,if_neg (by decide),if_neg (by decide),if_neg (by decide),if_pos rfl,TextScreen.eraseBack]
  by_cases hpos : 0 < t.col
  · have hback : Shows { s with vgaCol := s.vgaCol-1 } t.back := ⟨congrArg (·-1) h.col,h.row,h.grid⟩
    rw [if_pos (hcol.mpr hpos),if_pos hpos]
    exact hback.write hb.back 32
  · rw [if_neg (mt hcol.mp hpos),if_neg hpos]
    exact h

/-- The step lemma. -/
lemma Shows.putchar (h : s.Shows t) (hb : t.InBounds 25 80) {c : UInt8} (hc : IsText c) :
    (s.putchar c).Shows (feed s.color t c) := by
  rcases hc with hc | rfl | rfl | rfl
  · have hprint : IsPrintable c := hc
    rw [feed_of_printable _ _ hprint,VgaState.putchar,if_neg (hprint.ne_of_lt (by decide)),
      if_neg (hprint.ne_of_lt (by decide)),if_neg (hprint.ne_of_lt (by decide)),if_neg (hprint.ne_of_lt (by decide))]
    exact h.putOther hb hc
  · exact h.newline
  · exact ⟨rfl,h.row,h.grid⟩
  · exact h.backspace hb

lemma color_row (u : VgaState) (r : ℕ) : ({ u with vgaRow := r } : VgaState).color = u.color := rfl

lemma newline_color (s : VgaState) : s.newline.color = s.color := by
  simp only [VgaState.newline]
  split_ifs
  · rw [color_row,(scroll_spec _).1.color]
    rfl
  · rfl

lemma putOther_color (s : VgaState) (c : UInt8) : (s.putOther c).color = s.color := by
  simp only [VgaState.putOther]
  split_ifs
  · exact newline_color _
  · rfl
  · rfl

lemma putchar_color {c : UInt8} (hc : c ≠ 9) (s : VgaState) : (s.putchar c).color = s.color := by
  simp only [VgaState.putchar]
  split_ifs
  · exact newline_color s
  · rfl
  · rfl
  · rfl
  · exact putOther_color s c

lemma IsText.ne_tab {c : UInt8} (hc : IsText c) : c ≠ 9 := by
  rintro rfl
  exact absurd hc (by unfold IsText; decide)

lemma shows_clearScreen (s : VgaState) :
    s.clearScreen.Shows (.clear (blank s.color)) ∧ s.clearScreen.color = s.color := by
  obtain ⟨hcells,hsame⟩ := foldl_fill (List.range (80*25)) id { s with vgaCol := 0, vgaRow := 0 } 32
  refine ⟨⟨hsame.col,hsame.row,fun r c hr hc => (congrFun hcells (r*80+c)).trans ?_⟩,hsame.color⟩
  rw [List.range_eq_range',sweep_fill_range]
  exact if_pos (by omega)

/-- The run lemma. -/
lemma Shows.foldl_putchar (h : s.Shows t) (hb : t.InBounds 25 80) {str : List UInt8} (hstr : ∀ c ∈ str, IsText c) :
    (str.foldl VgaState.putchar s).Shows (str.foldl (feed s.color) t) := by
  induction str generalizing s t with
  | nil => exact h
  | cons c str ih =>
    have hc := hstr c List.mem_cons_self
    have hrest := ih (h.putchar hb hc) (feed_inBounds hb s.color c) fun d hd => hstr d (List.mem_cons_of_mem c hd)
    rwa [putchar_color hc.ne_tab] at hrest

end Refinement
end VgaState

/-- Fed with the same text from a clear screen, the two drivers leave the same cells and the same cursor. -/
theorem consoles_agree (s : CursorState) (v : VgaState) (hcolor : s.color = makeColor v.vgaFg v.vgaBg)
    (str : List UInt8) (hstr : ∀ c ∈ str, VgaState.IsText c) :
    (∀ i < 80*25, (str.foldl CursorState.cursorPutchar s.cursorClearScreen).vgaBuffer i
        = (str.foldl VgaState.putchar v.clearScreen).cells i) ∧
      (str.foldl CursorState.cursorPutchar s.cursorClearScreen).cursorX.toNat
        = (str.foldl VgaState.putchar v.clearScreen).vgaCol ∧
      (str.foldl CursorState.cursorPutchar s.cursorClearScreen).cursorY.toNat
        = (str.foldl VgaState.putchar v.clearScreen).vgaRow := by
  have hb : (TextScreen.clear (blank s.color)).InBounds 25 80 := ⟨Nat.succ_pos 24,Nat.succ_pos 79⟩
  have hclear := CursorState.shows_cursorClearScreen s
  obtain ⟨hvclear,hvcolor⟩ := VgaState.shows_clearScreen v
  have hsame : v.color = s.color := hcolor.symm
  rw [hsame] at hvclear hvcolor
  have h := hclear.foldl_putchar hb str
  have hv := hvclear.foldl_putchar hb hstr
  rw [CursorState.cursorClearScreen_color] at h
  rw [hvcolor] at hv
  refine ⟨fun i hi => ?_,h.col.trans hv.col.symm,h.row.trans hv.row.symm⟩
  have hcell := hv.grid (i/80) (i%80) (by omega) (by omega)
  rw [Nat.div_add_mod'] at hcell
  exact (h.cell_eq hi).trans hcell.symm

/-- White on black: an `A`, a backspace, a new line. -/
theorem consoles_agree_line : (([65,8,10] : List UInt8).foldl CursorState.cursorPutchar
      (CursorState.cursorClearScreen ⟨fun _ => 0,[],0,0,0x0F,0⟩)).cursorY.toNat
    = (([65,8,10] : List UInt8).foldl VgaState.putchar (VgaState.clearScreen ⟨fun _ => 0,0,0,.white,.black⟩)).vgaRow :=
  (consoles_agree ⟨fun _ => 0,[],0,0,0x0F,0⟩ ⟨fun _ => 0,0,0,.white,.black⟩ (by decide) [65,8,10]
    (by simp [VgaState.IsText])).2.2

end Linuxab.Console
