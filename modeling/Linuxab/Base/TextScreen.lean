import Linuxab.Base.Sweep

/-! An ideal text screen of `rows` times `cols` cells with a cursor. Whatever leaves the cursor behind the
last column wraps at once, and what leaves it below the last row scrolls by one. -/
namespace Linuxab.Base

structure TextScreen (α : Type*) where
  grid : ℕ → ℕ → α
  row : ℕ
  col : ℕ

namespace TextScreen
variable {α : Type*} (rows cols : ℕ) (blank : α) (s : TextScreen α)

def clear : TextScreen α := ⟨fun _ _ => blank,0,0⟩

def write (a : α) : TextScreen α := { s with grid := fun r c => if r = s.row ∧ c = s.col then a else s.grid r c }

def wrap : TextScreen α := if cols ≤ s.col then { s with row := s.row+1, col := 0 } else s

def scroll : TextScreen α := ⟨fun r c => if r+1 < rows then s.grid (r+1) c else blank,rows-1,0⟩

def settle : TextScreen α :=
  let s := s.wrap cols
  if rows ≤ s.row then s.scroll rows blank else s

def newline : TextScreen α := settle rows cols blank { s with row := s.row+1, col := 0 }
def put (a : α) : TextScreen α := settle rows cols blank { s.write a with col := s.col+1 }

/-- To the next multiple of eight, erasing nothing. -/
def tab : TextScreen α := settle rows cols blank { s with col := (s.col/8+1)*8 }
def home : TextScreen α := { s with col := 0 }
def back : TextScreen α := { s with col := s.col-1 }

/-- One cell back, which is blanked. -/
def eraseBack : TextScreen α := if 0 < s.col then s.back.write blank else s

/-- The number of the cell under the cursor, counted row by row. -/
def number : ℕ := s.row*cols+s.col

/-- The cursor is on the screen. -/
structure InBounds : Prop where
  row_lt : s.row < rows
  col_lt : s.col < cols

variable {rows cols blank s}

lemma InBounds.settle (hrow : s.row < rows) (hcols : 0 < cols) : (settle rows cols blank s).InBounds rows cols := by
  simp only [TextScreen.settle,wrap]
  split_ifs with h₁ h₂ h₂
  · exact ⟨Nat.sub_lt (Nat.zero_lt_of_lt hrow) Nat.one_pos,hcols⟩
  · exact ⟨Nat.lt_of_not_le h₂,hcols⟩
  · exact absurd h₂ (Nat.not_le.mpr hrow)
  · exact ⟨hrow,Nat.lt_of_not_le h₁⟩

lemma InBounds.newline (h : s.InBounds rows cols) : (newline rows cols blank s).InBounds rows cols := by
  have hcols := Nat.zero_lt_of_lt h.col_lt
  simp only [TextScreen.newline,TextScreen.settle,wrap]
  rw [if_neg (Nat.not_le.mpr hcols)]
  split_ifs with hr
  · exact ⟨Nat.sub_lt (Nat.zero_lt_of_lt h.row_lt) Nat.one_pos,hcols⟩
  · exact ⟨Nat.lt_of_not_le hr,hcols⟩

lemma InBounds.put (h : s.InBounds rows cols) (a : α) : (put rows cols blank s a).InBounds rows cols :=
  InBounds.settle h.row_lt (Nat.zero_lt_of_lt h.col_lt)

lemma InBounds.tab (h : s.InBounds rows cols) : (tab rows cols blank s).InBounds rows cols :=
  InBounds.settle h.row_lt (Nat.zero_lt_of_lt h.col_lt)

lemma InBounds.home (h : s.InBounds rows cols) : s.home.InBounds rows cols := ⟨h.row_lt,Nat.zero_lt_of_lt h.col_lt⟩

lemma InBounds.back (h : s.InBounds rows cols) : s.back.InBounds rows cols :=
  ⟨h.row_lt,Nat.lt_of_le_of_lt (Nat.sub_le _ _) h.col_lt⟩

lemma InBounds.eraseBack (h : s.InBounds rows cols) : (eraseBack blank s).InBounds rows cols := by
  unfold TextScreen.eraseBack
  split_ifs
  · exact ⟨h.back.row_lt,h.back.col_lt⟩
  · exact h

/-- A cursor on the screen stays where it is. -/
lemma InBounds.settle_eq (h : s.InBounds rows cols) : TextScreen.settle rows cols blank s = s := by
  have hwrap : s.wrap cols = s := if_neg (Nat.not_le.mpr h.col_lt)
  simp only [TextScreen.settle,hwrap]
  exact if_neg (Nat.not_le.mpr h.row_lt)

lemma newline_eq (hcols : 0 < cols) : TextScreen.newline rows cols blank s =
    if rows ≤ s.row+1 then s.scroll rows blank else { s with row := s.row+1, col := 0 } := by
  have hwrap : wrap cols { s with row := s.row+1, col := 0 } = { s with row := s.row+1, col := 0 } :=
    if_neg (Nat.not_le.mpr hcols)
  simp only [TextScreen.newline,TextScreen.settle,hwrap]
  rfl

/-- A new line begins when the last column has been written. -/
lemma InBounds.put_eq (h : s.InBounds rows cols) (a : α) : TextScreen.put rows cols blank s a =
    if cols ≤ s.col+1 then (s.write a).newline rows cols blank else { s.write a with col := s.col+1 } := by
  rw [newline_eq (Nat.zero_lt_of_lt h.col_lt)]
  simp only [TextScreen.put,TextScreen.settle,wrap]
  by_cases hc : cols ≤ s.col+1
  · simp only [hc,if_true]
    rfl
  · have hr : ¬ rows ≤ s.row := Nat.not_le.mpr h.row_lt
    simp only [hc,if_false,write,hr]

lemma InBounds.number_lt (h : s.InBounds rows cols) : s.number cols < rows*cols := rowMajor_lt h.row_lt h.col_lt

/-- Writing before the last cell changes the cell and goes on to the next. -/
lemma InBounds.put_before_last (h : s.InBounds rows cols) (a : α) (hlast : s.number cols+1 < rows*cols) :
    (TextScreen.put rows cols blank s a).number cols = s.number cols+1 ∧
      (TextScreen.put rows cols blank s a).grid = (s.write a).grid := by
  have hcol := h.col_lt
  rw [h.put_eq]
  by_cases hfull : cols ≤ s.col+1
  · have hnext : s.number cols+1 = (s.row+1)*cols := by
      simp only [number,Nat.succ_mul]
      omega
    have hrow : s.row+1 < rows := Nat.lt_of_mul_lt_mul_right (hnext ▸ hlast)
    have hstay : ¬ rows ≤ (s.write a).row+1 := Nat.not_le.mpr hrow
    rw [if_pos hfull,newline_eq (Nat.zero_lt_of_lt hcol),if_neg hstay]
    exact ⟨hnext.symm,rfl⟩
  · rw [if_neg hfull]
    exact ⟨rfl,rfl⟩

/-- Writing the last cell scrolls to the start of the last row. -/
lemma InBounds.put_last (h : s.InBounds rows cols) (a : α) (hlast : s.number cols+1 = rows*cols) :
    (TextScreen.put rows cols blank s a).number cols = (rows-1)*cols := by
  have hcol := h.col_lt
  have hrow : (s.row+1)*cols ≤ rows*cols := Nat.mul_le_mul_right cols h.row_lt
  rw [Nat.succ_mul] at hrow
  simp only [number] at hlast
  have hfull : cols ≤ s.col+1 := by omega
  have hend : (s.row+1)*cols = rows*cols := by
    rw [Nat.succ_mul]
    omega
  have hbottom : rows ≤ (s.write a).row+1 := Nat.le_of_eq (Nat.mul_right_cancel (Nat.zero_lt_of_lt hcol) hend).symm
  rw [h.put_eq,if_pos hfull,newline_eq (Nat.zero_lt_of_lt hcol),if_pos hbottom]
  rfl

lemma write_write (a b : α) : (s.write a).write b = s.write b := by
  simp only [write,mk.injEq,and_true]
  funext r c
  split_ifs <;> rfl

/-- Back, blank, back: the cell before the cursor is blanked and the cursor goes there. -/
lemma InBounds.erase (h : s.InBounds rows cols) (hcol : 0 < s.col) :
    TextScreen.eraseBack blank (TextScreen.put rows cols blank (TextScreen.eraseBack blank s) blank)
      = s.back.write blank := by
  have hback : TextScreen.eraseBack blank s = s.back.write blank := if_pos hcol
  have hfits : ¬ cols ≤ (s.back.write blank).col+1 := by
    have hlt := h.col_lt
    simp only [write,TextScreen.back]
    omega
  have herased : (s.back.write blank).InBounds rows cols := ⟨h.back.row_lt,h.back.col_lt⟩
  rw [hback,herased.put_eq,if_neg hfits,write_write]
  exact (if_pos (Nat.succ_pos _)).trans (write_write blank blank)

/-- In the first column the cursor goes one to the right and back. -/
lemma InBounds.erase_first (h : s.InBounds rows cols) (hcol : s.col = 0) (hcols : 1 < cols) :
    TextScreen.eraseBack blank (TextScreen.put rows cols blank (TextScreen.eraseBack blank s) blank)
      = s.write blank := by
  have hback : TextScreen.eraseBack blank s = s := if_neg (hcol ▸ Nat.lt_irrefl 0)
  have hfits : ¬ cols ≤ s.col+1 := by omega
  rw [hback,h.put_eq,if_neg hfits]
  exact (if_pos (Nat.succ_pos _)).trans (write_write blank blank)

end TextScreen
end Linuxab.Base
