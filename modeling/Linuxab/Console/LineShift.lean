import Linuxab.Console.OnScreen

/-! Inserting and deleting a line with kernel/cursor.c: what is in every cell afterwards. -/
namespace Linuxab.Console
open Linuxab.Base
namespace CursorState
variable {s : CursorState} {r c : ℕ}

section Rows

/-- Clearing a whole row. -/
lemma fillCells_row (y : ℕ) (v : UInt16) (s : CursorState) (hc : c < 80) :
    (fillCells (List.range 80) (y*80+·) v s).vgaBuffer (r*80+c) = if r = y then v else s.vgaBuffer (r*80+c) := by
  have hcell : (∃ x ∈ List.range 80, y*80+x = r*80+c) ↔ r = y := by
    constructor
    · rintro ⟨x,hx,heq⟩
      exact ((rowMajor_inj (List.mem_range.mp hx) hc).mp heq).1.symm
    · rintro rfl
      exact ⟨c,List.mem_range.mpr hc,rfl⟩
  simp only [fillCells_eq,sweep_fill,hcell]

lemma fillCells_rows (ys : List ℕ) (v : UInt16) (s : CursorState) (hc : c < 80) :
    (fillCells (ys ×ˢ List.range 80) (fun p => p.1*80+p.2) v s).vgaBuffer (r*80+c)
      = if r ∈ ys then v else s.vgaBuffer (r*80+c) := by
  have hcell : (∃ p ∈ ys ×ˢ List.range 80, p.1*80+p.2 = r*80+c) ↔ r ∈ ys := by
    constructor
    · rintro ⟨p,hp,heq⟩
      obtain ⟨hy,hx⟩ := List.mem_product.mp hp
      exact ((rowMajor_inj (List.mem_range.mp hx) hc).mp heq).1 ▸ hy
    · intro hr
      exact ⟨(r,c),List.mem_product.mpr ⟨hr,List.mem_range.mpr hc⟩,rfl⟩
  simp only [fillCells_eq,sweep_fill,hcell]

/-- Moving rows upwards, from the first one on. -/
lemma copyCells_up (a n : ℕ) {d : ℕ} (hd : 0 < d) (s : CursorState) (hc : c < 80) :
    (copyCells (List.range' a n ×ˢ List.range 80) (fun p => p.1*80+p.2) (fun p => (p.1+d)*80+p.2) s).vgaBuffer (r*80+c)
      = if a ≤ r ∧ r < a+n then s.vgaBuffer ((r+d)*80+c) else s.vgaBuffer (r*80+c) := by
  have hrows : (List.range' a n).Pairwise fun y y' => y ≠ y' ∧ y ≠ y'+d := by
    have hlt : (List.range' a n).Pairwise (· < ·) := List.pairwise_lt_range'
    apply hlt.imp
    intro y y' hyy
    omega
  have hself : ∀ y ∈ List.range' a n, y ≠ y+d := fun y _ => by omega
  rw [copyCells_eq]
  simp only [sweep_moveRows s.vgaBuffer hrows hself hc,List.mem_range'_1]

/-- Moving rows down by one, from the last one on. -/
lemma copyCells_down (last y : ℕ) (s : CursorState) (hc : c < 80) :
    (copyCells (downFrom last y ×ˢ List.range 80) (fun p => p.1*80+p.2) (fun p => (p.1-1)*80+p.2) s).vgaBuffer (r*80+c)
      = if y < r ∧ r ≤ last then s.vgaBuffer ((r-1)*80+c) else s.vgaBuffer (r*80+c) := by
  have hrows : (downFrom last y).Pairwise fun z z' => z ≠ z' ∧ z ≠ z'-1 := by
    refine List.pairwise_map.mpr (List.pairwise_lt_range.imp_of_mem ?_)
    intro k k' hk hk' hlt
    have hk := List.mem_range.mp hk
    have hk' := List.mem_range.mp hk'
    omega
  have hself : ∀ z ∈ downFrom last y, z ≠ z-1 := by
    intro z hz
    have := mem_downFrom.mp hz
    omega
  rw [copyCells_eq]
  simp only [sweep_moveRows s.vgaBuffer hrows hself hc,mem_downFrom]

end Rows

lemma cursorInsertLine_apply (s : CursorState) (hr : r < 25) (hc : c < 80) :
    (cursorInsertLine s).vgaBuffer (r*80+c) = if r = s.cursorY.toNat then blank s.color
      else if s.cursorY.toNat < r then s.vgaBuffer ((r-1)*80+c) else s.vgaBuffer (r*80+c) := by
  have hle : r ≤ 24 := by omega
  simp only [cursorInsertLine,cursorUpdateHw,fillCells_row _ _ _ hc,copyCells_cursorY,copyCells_color,
    copyCells_down 24 s.cursorY.toNat s hc,hle,and_true]

lemma cursorDeleteLine_apply (hrow : s.cursorY.toNat < 25) (hc : c < 80) :
    (cursorDeleteLine s).vgaBuffer (r*80+c) = if r = 24 then blank s.color
      else if s.cursorY.toNat ≤ r ∧ r < 24 then s.vgaBuffer ((r+1)*80+c) else s.vgaBuffer (r*80+c) := by
  have hend : s.cursorY.toNat+(24-s.cursorY.toNat) = 24 := by omega
  simp only [cursorDeleteLine,cursorUpdateHw,fillCells_row 24 _ _ hc,copyCells_color,
    copyCells_up s.cursorY.toNat (24-s.cursorY.toNat) Nat.one_pos s hc,hend]

@[simp] lemma cursorInsertLine_cursorY (s : CursorState) : (cursorInsertLine s).cursorY = s.cursorY := by
  simp [cursorInsertLine,cursorUpdateHw]

@[simp] lemma cursorInsertLine_cursorX (s : CursorState) : (cursorInsertLine s).cursorX = s.cursorX := by
  simp [cursorInsertLine,cursorUpdateHw]

@[simp] lemma cursorInsertLine_color (s : CursorState) : (cursorInsertLine s).color = s.color := by
  simp [cursorInsertLine,cursorUpdateHw]

end CursorState
end Linuxab.Console
