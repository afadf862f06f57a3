import Linuxab.Base.Counter
import Linuxab.Base.Integers
import Linuxab.Console.LineShift

/-! The functions of kernel/cursor.c on a region of the screen. Their loops run over counters of eight bits
and include the last row and column. -/
namespace Linuxab.Console
open Linuxab.Base
namespace CursorState

section Source

/-- The inner loop of `cursor_fill_region`. -/
def fillRow (rounds : ℕ) (x1 x2 y : UInt8) (s : CursorState) : Option CursorState :=
  forUpTo x2 (fun x s => some (s.store (y.toNat*80+x.toNat) (blank s.color))) rounds x1 s

def cursorFillRegion (rounds : ℕ) (s : CursorState) (x1 y1 x2 y2 fg bg : UInt8) : Option CursorState :=
  let oldColor := s.color
  (forUpTo y2 (fillRow rounds x1 x2) rounds y1 (s.cursorSetColor fg bg)).map fun s =>
    cursorUpdateHw { s with color := oldColor }

/-- The two loops of `cursor_scroll_region`, the second one for one row. -/
def moveRows (s : CursorState) (top bottom : UInt8) (lines : Int8) : CursorState :=
  copyCells (List.range' top.toNat (bottom.toNat-top.toNat) ×ˢ List.range 80) (fun p => p.1*80+p.2)
    (fun p => (p.1+lines.toInt.toNat)*80+p.2) s

def clearRow (y : ℕ) (s : CursorState) : CursorState := fillCells (List.range 80) (y*80+·) (blank s.color) s

def cursorScrollRegion (rounds : ℕ) (s : CursorState) (top bottom : UInt8) (lines : Int8) : Option CursorState :=
  if lines > 0 then
    (forUpTo bottom (fun y s => some (clearRow y.toNat s)) rounds (UInt8.ofInt (bottom.toNat-lines.toInt+1))
      (moveRows s top bottom lines)).map cursorUpdateHw
  else some (cursorUpdateHw s)

end Source

section Loops
variable {κ : Type} (s : CursorState)

/-- A loop that stores a blank in the current colour. -/
lemma foldl_store_blank (l : List κ) (dst : κ → ℕ) :
    l.foldl (fun s k => s.store (dst k) (blank s.color)) s = fillCells l dst (blank s.color) s := by
  induction l generalizing s with
  | nil => rfl
  | cons k l ih => exact ih (s.store (dst k) (blank s.color))

/-- Such loops for one row after the other. -/
lemma foldl_fillCells (ys xs : List ℕ) :
    ys.foldl (fun s y => fillCells xs (y*80+·) (blank s.color) s) s
      = fillCells (ys ×ˢ xs) (fun p => p.1*80+p.2) (blank s.color) s := by
  induction ys generalizing s with
  | nil => rfl
  | cons y ys ih =>
    rw [List.foldl_cons,ih,fillCells_color,List.product_cons]
    simp only [fillCells,List.foldl_append,List.foldl_map]

end Loops

section Fill
variable (s : CursorState) (x1 y1 x2 y2 fg bg : UInt8)

def InRegion (x y : ℕ) : Prop := (x1.toNat ≤ x ∧ x ≤ x2.toNat) ∧ y1.toNat ≤ y ∧ y ≤ y2.toNat

/-- The function comes to an end, and on a region of the screen it blanks exactly its cells. -/
structure FillsRegion : Prop where
  ends : ∃ rounds t, cursorFillRegion rounds s x1 y1 x2 y2 fg bg = some t
  region : x1 ≤ x2 → x2 < 80 → y1 ≤ y2 → y2 < 25 →
    ∃ t, (∀ rounds, 256 ≤ rounds → cursorFillRegion rounds s x1 y1 x2 y2 fg bg = some t) ∧
      (∀ x y, InRegion x1 y1 x2 y2 x y → t.vgaBuffer (y*80+x) = blank (s.cursorSetColor fg bg).color) ∧
      (∀ i, (∀ x y, InRegion x1 y1 x2 y2 x y → i ≠ y*80+x) → t.vgaBuffer i = s.vgaBuffer i) ∧
      t.color = s.color

lemma mem_region_iff (p : ℕ × ℕ) :
    p ∈ List.range' y1.toNat (y2.toNat+1-y1.toNat) ×ˢ List.range' x1.toNat (x2.toNat+1-x1.toNat) ↔
      InRegion x1 y1 x2 y2 p.2 p.1 := by
  rw [List.mem_product,List.mem_range'_1,List.mem_range'_1,InRegion]
  omega

/-- The rectangle is blanked row by row. -/
lemma cursorFillRegion_eq {rounds : ℕ} (hr : 256 ≤ rounds) (hx : x2.toNat < 255) (hy : y2.toNat < 255) :
    cursorFillRegion rounds s x1 y1 x2 y2 fg bg = some (cursorUpdateHw { fillCells
      (List.range' y1.toNat (y2.toNat+1-y1.toNat) ×ˢ List.range' x1.toNat (x2.toNat+1-x1.toNat))
      (fun p => p.1*80+p.2) (blank (s.cursorSetColor fg bg).color) (s.cursorSetColor fg bg)
      with color := s.color }) := by
  have hrow : ∀ y s, fillRow rounds x1 x2 y s
      = some (fillCells (List.range' x1.toNat (x2.toNat+1-x1.toNat)) (y.toNat*80+·) (blank s.color) s) := by
    intro y s
    rw [← foldl_store_blank]
    exact forUpTo_eq (fun _ _ => rfl) hx (by omega)
  have hrows := forUpTo_eq (i := y1) (s := s.cursorSetColor fg bg)
    (g := fun s y => fillCells (List.range' x1.toNat (x2.toNat+1-x1.toNat)) (y*80+·) (blank s.color) s) hrow hy
    (by omega : y2.toNat+1-y1.toNat ≤ rounds)
  rw [foldl_fillCells] at hrows
  simp only [cursorFillRegion,hrows,Option.map_some]

/-- An inclusive bound of 255 keeps a loop running. -/
lemma cursorFillRegion_endless (h : y2 = 255 ∨ x2 = 255 ∧ y1 ≤ y2) (rounds : ℕ) :
    cursorFillRegion rounds s x1 y1 x2 y2 fg bg = none := by
  have hnone : forUpTo y2 (fillRow rounds x1 x2) rounds y1 (s.cursorSetColor fg bg) = none := by
    obtain rfl | ⟨rfl,hle⟩ := h
    · exact forUpTo_endless rounds
    · have hrow : fillRow rounds x1 255 y1 (s.cursorSetColor fg bg) = none := forUpTo_endless rounds
      exact forUpTo_of_stuck hle hrow rounds
  simp only [cursorFillRegion,hnone,Option.map_none]

end Fill

/-- The function does what it is for exactly if no loop that is entered has the bound 255. -/
theorem fillsRegion_iff (s : CursorState) (x1 y1 x2 y2 fg bg : UInt8) :
    FillsRegion s x1 y1 x2 y2 fg bg ↔ y2 ≠ 255 ∧ (x2 = 255 → y2 < y1) := by
  constructor
  · rintro ⟨⟨rounds,t,ht⟩,-⟩
    by_contra hbound
    have hendless : y2 = 255 ∨ x2 = 255 ∧ y1 ≤ y2 := by
      by_cases hy : y2 = 255
      · exact .inl hy
      · rw [not_and,Classical.not_imp] at hbound
        exact .inr ⟨(hbound hy).1,UInt8.not_lt.mp (hbound hy).2⟩
    rw [cursorFillRegion_endless s x1 y1 x2 y2 fg bg hendless] at ht
    cases ht
  · rintro ⟨hy,hx⟩
    have hylt := toNat_lt_255 hy
    constructor
    · by_cases hempty : y2 < y1
      · exact ⟨0,_,by rw [cursorFillRegion,forUpTo_of_lt hempty]; rfl⟩
      · have hxlt := toNat_lt_255 (mt hx hempty)
        exact ⟨256,_,cursorFillRegion_eq s x1 y1 x2 y2 fg bg le_rfl hxlt hylt⟩
    · intro hx12 hx80 hy12 hy25
      have hxlt : x2.toNat < 255 := lt_trans (UInt8.lt_iff_toNat_lt.mp hx80) (by decide)
      refine ⟨_,fun rounds hr => cursorFillRegion_eq s x1 y1 x2 y2 fg bg hr hxlt hylt,?_,?_,rfl⟩
      · intro x y hin
        simp only [cursorUpdateHw,fillCells_eq,sweep_fill]
        exact if_pos ⟨(y,x),(mem_region_iff x1 y1 x2 y2 (y,x)).mpr hin,rfl⟩
      · intro i hout
        simp only [cursorUpdateHw,fillCells_eq,sweep_fill]
        apply if_neg
        rintro ⟨p,hp,he⟩
        exact hout p.2 p.1 ((mem_region_iff x1 y1 x2 y2 p).mp hp) he.symm

/-- A region that ends in the last column of the counter is never filled. -/
theorem fillRegion_endless :
    ¬∃ rounds t, cursorFillRegion rounds ⟨fun _ => 0,[],0,0,0x0F,0⟩ 0 0 255 0 7 0 = some t := by
  rintro ⟨rounds,t,ht⟩
  rw [cursorFillRegion_endless _ _ _ _ _ _ _ (.inr ⟨rfl,by decide⟩)] at ht
  cases ht

section Scroll
variable {s t : CursorState} {top bottom : UInt8} {lines : Int8} {r c : ℕ}

/-- The rows of the region are scrolled up by so many lines, the others stay, and the cells that are read or
written are those of the screen. -/
structure ScrollsRegion (s t : CursorState) (top bottom : UInt8) (lines : Int8) : Prop where
  outside : ∀ r c, r < 25 → c < 80 → r < top.toNat ∨ bottom.toNat < r → t.vgaBuffer (r*80+c) = s.vgaBuffer (r*80+c)
  shifted : ∀ r c, c < 80 → top.toNat ≤ r → r+lines.toInt.toNat ≤ bottom.toNat →
    t.vgaBuffer (r*80+c) = s.vgaBuffer ((r+lines.toInt.toNat)*80+c)
  cleared : ∀ r c, c < 80 → top.toNat ≤ r → r ≤ bottom.toNat → bottom.toNat < r+lines.toInt.toNat →
    t.vgaBuffer (r*80+c) = blank s.color
  bounded : ∀ i ∈ t.accessed, i ∈ s.accessed ∨ i < 80*25

/-- The first row that is cleared: one of the screen as long as there are so many, otherwise the number
wraps to one behind the last row. -/
lemma toNat_clearStart (hbottom : bottom.toNat < 25) (hlines : 0 < lines) :
    (UInt8.ofInt (bottom.toNat-lines.toInt+1)).toNat = if lines.toInt.toNat ≤ bottom.toNat+1
      then bottom.toNat+1-lines.toInt.toNat else bottom.toNat+257-lines.toInt.toNat := by
  have hpos : 0 < lines.toInt := Int8.lt_iff_toInt_lt.mp hlines
  have hlt := lines.toInt_lt
  have hofInt : (UInt8.ofInt (bottom.toNat-lines.toInt+1)).toNat = ((bottom.toNat-lines.toInt+1) % 256).toNat := by
    rw [UInt8.ofInt,UInt8.toNat_ofNat']
    omega
  rw [hofInt]
  split_ifs <;> omega

variable (hbottom : bottom.toNat < 25) (hlines : 0 < lines)
include hbottom hlines

/-- The state that the function leaves. -/
lemma exists_cursorScrollRegion (s : CursorState) (top : UInt8) : ∃ t,
    (∀ rounds, 256 ≤ rounds → cursorScrollRegion rounds s top bottom lines = some t) ∧
    (∀ r c, c < 80 → t.vgaBuffer (r*80+c) =
      if (UInt8.ofInt (bottom.toNat-lines.toInt+1)).toNat ≤ r ∧ r ≤ bottom.toNat then blank s.color
      else if top.toNat ≤ r ∧ r < bottom.toNat then s.vgaBuffer ((r+lines.toInt.toNat)*80+c)
      else s.vgaBuffer (r*80+c)) ∧
    ∀ i, i ∈ t.accessed ↔ i ∈ s.accessed ∨
      (∃ r c, (top.toNat ≤ r ∧ r < bottom.toNat) ∧ c < 80 ∧ (i = (r+lines.toInt.toNat)*80+c ∨ i = r*80+c)) ∨
      ∃ r c, ((UInt8.ofInt (bottom.toNat-lines.toInt+1)).toNat ≤ r ∧ r ≤ bottom.toNat) ∧ c < 80 ∧ i = r*80+c := by
  have hn : 0 < lines.toInt.toNat := by
    have := Int8.lt_iff_toInt_lt.mp hlines
    rw [Int8.toInt_zero] at this
    omega
  generalize hstart : UInt8.ofInt (bottom.toNat-lines.toInt+1) = start
  have hclear : ∀ rounds, 256 ≤ rounds → ∀ s : CursorState,
      forUpTo bottom (fun y s => some (clearRow y.toNat s)) rounds start s
        = some (fillCells (List.range' start.toNat (bottom.toNat+1-start.toNat) ×ˢ List.range 80) (fun p => p.1*80+p.2)
          (blank s.color) s) := by
    intro rounds hr s
    rw [← foldl_fillCells]
    exact forUpTo_eq (g := fun s y => clearRow y s) (fun _ _ => rfl) (by omega) (by omega)
  refine ⟨_,fun rounds hr => by rw [cursorScrollRegion,if_pos hlines,hstart,hclear rounds hr]; rfl,?_,?_⟩
  · intro r c hc
    have htop : top.toNat ≤ r ∧ r < top.toNat+(bottom.toNat-top.toNat) ↔ top.toNat ≤ r ∧ r < bottom.toNat := by omega
    have hlast : start.toNat ≤ r ∧ r < start.toNat+(bottom.toNat+1-start.toNat) ↔
        start.toNat ≤ r ∧ r ≤ bottom.toNat := by omega
    simp only [cursorUpdateHw,moveRows,fillCells_rows _ _ _ hc,copyCells_up _ _ hn _ hc,copyCells_color,
      List.mem_range'_1,htop,hlast]
  · intro i
    simp only [cursorUpdateHw,moveRows,fillCells_eq,copyCells_eq,List.mem_append,List.mem_flatMap,List.mem_map,
      Prod.exists,List.mem_product,List.mem_range'_1,List.mem_range,List.mem_cons,List.not_mem_nil,or_false,or_assoc]
    refine or_congr_right (or_congr (exists₂_congr fun r c => ?_) (exists₂_congr fun r c => ?_)) <;> omega

/-- A screen without a blank in the current colour. -/
def unblanked : CursorState := ⟨fun _ => 0,[],0,0,0x0F,0⟩

/-- More lines than the region has clear rows above it, or none at all. -/
lemma lines_le_of_scrolls (htop : top ≤ bottom)
    (h : ∃ t, (∀ rounds, 256 ≤ rounds → cursorScrollRegion rounds unblanked top bottom lines = some t) ∧
      ScrollsRegion unblanked t top bottom lines) : top.toNat+lines.toInt.toNat ≤ bottom.toNat+1 := by
  obtain ⟨t,ht,hscroll⟩ := h
  obtain ⟨t',ht',hcells,-⟩ := exists_cursorScrollRegion hbottom hlines unblanked top
  obtain rfl : t' = t := Option.some_inj.mp ((ht' 256 le_rfl).symm.trans (ht 256 le_rfl))
  have hle := UInt8.le_iff_toNat_le.mp htop
  have hn := lines.toInt_lt
  have hstart := toNat_clearStart hbottom hlines
  have hne : blank unblanked.color ≠ 0 := by decide
  by_contra hmany
  split_ifs at hstart with hwrap
  · -- the row before the region is cleared
    have hout := hscroll.outside (top.toNat-1) 0 (by omega) (by decide) (.inl (by omega))
    rw [hcells _ 0 (by decide),if_pos (by omega)] at hout
    exact hne hout
  · -- the last row of the region is not cleared
    have hclear := hscroll.cleared bottom.toNat 0 (by decide) hle le_rfl (by omega)
    rw [hcells _ 0 (by decide),if_neg (by omega),if_neg (by omega)] at hclear
    exact hne hclear.symm

/-- The last row that is moved comes from behind the screen otherwise. -/
lemma reads_le_of_scrolls (hlt : top.toNat < bottom.toNat)
    (h : ∃ t, (∀ rounds, 256 ≤ rounds → cursorScrollRegion rounds unblanked top bottom lines = some t) ∧
      ScrollsRegion unblanked t top bottom lines) : bottom.toNat+lines.toInt.toNat ≤ 25 := by
  obtain ⟨t,ht,hscroll⟩ := h
  obtain ⟨t',ht',-,haccess⟩ := exists_cursorScrollRegion hbottom hlines unblanked top
  obtain rfl : t' = t := Option.some_inj.mp ((ht' 256 le_rfl).symm.trans (ht 256 le_rfl))
  have hread := (haccess ((bottom.toNat-1+lines.toInt.toNat)*80+0)).mpr
    (.inr (.inl ⟨bottom.toNat-1,0,by omega,by decide,.inl rfl⟩))
  rcases hscroll.bounded _ hread with hnil | hinside
  · cases hnil
  · omega

omit hbottom hlines

end Scroll

/-- The region is scrolled on every screen exactly if it has at least so many rows and the rows that are
read, up to so many below the region, are on the screen. -/
theorem scrollsRegion_iff (top bottom : UInt8) (lines : Int8) (htop : top ≤ bottom) (hbottom : bottom < 25)
    (hlines : 0 < lines) :
    (∀ s : CursorState, ∃ t, (∀ rounds, 256 ≤ rounds → cursorScrollRegion rounds s top bottom lines = some t) ∧
      ScrollsRegion s t top bottom lines) ↔
    top.toNat+lines.toInt.toNat ≤ bottom.toNat+1 ∧ (top = bottom ∨ bottom.toNat+lines.toInt.toNat ≤ 25) := by
  have hb : bottom.toNat < 25 := UInt8.lt_iff_toNat_lt.mp hbottom
  have hle := UInt8.le_iff_toNat_le.mp htop
  constructor
  · intro h
    refine ⟨lines_le_of_scrolls hb hlines htop (h unblanked),?_⟩
    rcases hle.eq_or_lt with heq | hlt
    · exact .inl (UInt8.toNat_inj.mp heq)
    · exact .inr (reads_le_of_scrolls hb hlines hlt (h unblanked))
  · rintro ⟨hmany,hreads⟩ s
    obtain ⟨t,ht,hcells,haccess⟩ := exists_cursorScrollRegion hb hlines s top
    have hstart := toNat_clearStart hb hlines
    rw [if_pos (by omega)] at hstart
    have hn := Int8.lt_iff_toInt_lt.mp hlines
    rw [Int8.toInt_zero] at hn
    refine ⟨t,ht,fun r c hr hc hout => ?_,fun r c hc hr hshift => ?_,fun r c hc hr hrb hshift => ?_,fun i hi => ?_⟩
    · rw [hcells r c hc,if_neg (by omega),if_neg (by omega)]
    · rw [hcells r c hc,if_neg (by omega),if_pos (by omega)]
    · rw [hcells r c hc,if_pos (by omega)]
    · rcases (haccess i).mp hi with hold | ⟨r,c,hr,hc,hi⟩ | ⟨r,c,hr,hc,hi⟩
      · exact .inl hold
      · have hread : bottom.toNat+lines.toInt.toNat ≤ 25 := by
          rcases hreads with rfl | hread
          · omega
          · exact hread
        omega
      · omega

/-- Three rows are scrolled by two lines. -/
theorem scrollsRegion_two :
    ∃ t, (∀ rounds, 256 ≤ rounds → cursorScrollRegion rounds unblanked 10 12 2 = some t) ∧
      ScrollsRegion unblanked t 10 12 2 :=
  (scrollsRegion_iff 10 12 2 (by decide) (by decide) (by decide)).mpr (by decide) unblanked

/-- Two rows scrolled by four lines: two rows above the region are cleared with it. Scrolled by twenty lines
they are not cleared at all, and rows behind the screen are read. -/
theorem scrollRegion_wrong :
    ((cursorScrollRegion 256 unblanked 10 11 4).map fun t => t.vgaBuffer (8*80)) = some (blank 0x0F) ∧
    ((cursorScrollRegion 256 unblanked 10 11 20).map fun t => (t.vgaBuffer (11*80),decide (30*80 ∈ t.accessed)))
      = some (0,true) := by
  decide +kernel
end CursorState
end Linuxab.Console
