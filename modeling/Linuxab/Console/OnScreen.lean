import Linuxab.Base.Fold
import Linuxab.Console.Screen

/-! Runs of the public functions of `kernel/cursor.c`. The cursor stays on the screen and no cell outside of
it is accessed as long as no character is inserted in the last column. -/
namespace Linuxab.Console
open Linuxab.Base

inductive CursorCall
  | init
  | setPos (x y : UInt8)
  | move (dx dy : Int8)
  | clearScreen
  | putchar (c : UInt8)
  | print (str : List UInt8)
  | insertLine
  | deleteLine
  | insertChar (c : UInt8)
  | deleteChar

namespace CursorState

def call (s : CursorState) : CursorCall → CursorState
  | .init => s.cursorInit
  | .setPos x y => s.cursorSetPos x y
  | .move dx dy => s.cursorMove dx dy
  | .clearScreen => s.cursorClearScreen
  | .putchar c => s.cursorPutchar c
  | .print str => s.cursorPrint str
  | .insertLine => s.cursorInsertLine
  | .deleteLine => s.cursorDeleteLine
  | .insertChar c => s.cursorInsertChar c
  | .deleteChar => s.cursorDeleteChar

def run (s : CursorState) (calls : List CursorCall) : CursorState := calls.foldl call s

variable {s : CursorState}

section Accesses

/-- Every cell accessed so far is one of the screen. -/
def Bounded (s : CursorState) : Prop := ∀ i ∈ s.accessed, i < 80*25

/-- Moving the cursor accesses nothing. -/
lemma Bounded.withRow (h : s.Bounded) (y : UInt8) : Bounded { s with cursorY := y } := h
lemma Bounded.withCol (h : s.Bounded) (x : UInt8) : Bounded { s with cursorX := x } := h
lemma Bounded.updateHw (h : s.Bounded) : (cursorUpdateHw s).Bounded := h

lemma Bounded.store (h : s.Bounded) {i : ℕ} (hi : i < 80*25) (v : UInt16) : (s.store i v).Bounded := by
  intro j hj
  rcases List.mem_append.mp hj with hj | hj
  · exact h j hj
  · exact List.mem_singleton.mp hj ▸ hi

variable {κ : Type} {l : List κ} {dst src : κ → ℕ}

lemma Bounded.fillCells (h : s.Bounded) (hdst : ∀ k ∈ l, dst k < 80*25) (v : UInt16) :
    (fillCells l dst v s).Bounded := by
  intro j hj
  rw [fillCells_eq,List.mem_append,List.mem_map] at hj
  rcases hj with hj | ⟨k,hk,rfl⟩
  · exact h j hj
  · exact hdst k hk

lemma Bounded.copyCells (h : s.Bounded) (hdst : ∀ k ∈ l, src k < 80*25 ∧ dst k < 80*25) :
    (copyCells l dst src s).Bounded := by
  intro j hj
  rw [copyCells_eq,List.mem_append,List.mem_flatMap] at hj
  rcases hj with hj | ⟨k,hk,hj⟩
  · exact h j hj
  · simp only [List.mem_cons,List.not_mem_nil,or_false] at hj
    rcases hj with rfl | rfl
    · exact (hdst k hk).1
    · exact (hdst k hk).2

end Accesses

structure OnScreen (s : CursorState) : Prop where
  col : s.cursorX.toNat < 80
  row : s.cursorY.toNat < 25
  bounded : s.Bounded

lemma OnScreen.offset_lt (h : s.OnScreen) : s.offset < 80*25 := by
  have hcol := h.col
  have hrow := h.row
  simp only [offset]
  omega

lemma toNat_clampMove_le (z : UInt8) (d : Int8) {last : ℕ} (hlast : last < 256) :
    (clampMove z d last).toNat ≤ last := by
  simp only [clampMove]
  generalize (z.toNat : ℤ)+d.toInt = new
  rw [UInt8.toNat_ofNat']
  split_ifs <;> omega

lemma Bounded.scrollUp (h : s.Bounded) : (scrollUp s).Bounded := by
  unfold CursorState.scrollUp
  apply Bounded.fillCells
  · apply h.copyCells
    intro k hk
    have := List.mem_range.mp hk
    simp only [id_eq]
    omega
  · intro k hk
    have := List.mem_range'_1.mp hk
    simp only [id_eq]
    omega

lemma OnScreen.putBranch_bounded (h : s.OnScreen) (c : UInt8) : (putBranch s c).Bounded := by
  have hlt := h.offset_lt
  unfold putBranch
  split_ifs with hlf hcr hbs hpos htab
  · exact h.bounded
  · exact h.bounded
  · have hle : (s.cursorX-1).toNat < s.cursorX.toNat := by
      rw [(s.shows_view.back hpos).col]
      exact Nat.sub_lt hpos Nat.one_pos
    apply Bounded.store (s := { s with cursorX := s.cursorX-1 }) h.bounded
    simp only [offset] at hlt ⊢
    omega
  · exact h.bounded
  · exact h.bounded
  · exact h.bounded.store hlt (cell s.color c)

lemma OnScreen.cursorPutchar (h : s.OnScreen) (c : UInt8) : (CursorState.cursorPutchar s c).OnScreen := by
  have hb : s.view.InBounds 25 80 := ⟨h.row,h.col⟩
  have hshows := s.shows_view.cursorPutchar hb c
  have hbounds := feed_inBounds hb s.color c
  refine ⟨hshows.col ▸ hbounds.col_lt,hshows.row ▸ hbounds.row_lt,?_⟩
  have hwrap : (CursorState.lineWrap (putBranch s c)).Bounded := by
    unfold CursorState.lineWrap
    split_ifs
    · exact h.putBranch_bounded c
    · exact h.putBranch_bounded c
  have hscroll : (scrollIfNeeded (CursorState.lineWrap (putBranch s c))).Bounded := by
    unfold scrollIfNeeded
    split_ifs
    · exact hwrap.scrollUp.withRow 24
    · exact hwrap
  exact hscroll.updateHw

lemma OnScreen.cursorPrint (h : s.OnScreen) (str : List UInt8) : (CursorState.cursorPrint s str).OnScreen :=
  List.foldlRecOn _ _ h fun _ hs c _ => hs.cursorPutchar c

lemma mem_downFrom {hi lo k : ℕ} : k ∈ downFrom hi lo ↔ lo < k ∧ k ≤ hi := by
  simp only [downFrom,List.mem_map,List.mem_range]
  constructor
  · rintro ⟨j,hj,rfl⟩
    omega
  · intro hk
    exact ⟨hi-k,by omega,by omega⟩

/-- The loops leave the cursor and the colour alone. -/
lemma OnScreen.of_loops {s' : CursorState} (h : s.OnScreen) (hx : s'.cursorX = s.cursorX) (hy : s'.cursorY = s.cursorY)
    (hb : s'.Bounded) : (cursorUpdateHw s').OnScreen :=
  ⟨by simpa [cursorUpdateHw,hx] using h.col,by simpa [cursorUpdateHw,hy] using h.row,hb⟩

/-- Copying rows cell by cell and clearing one of them. -/
lemma OnScreen.of_rows (h : s.OnScreen) {ys : List ℕ} (dst src : ℕ → ℕ) {r : ℕ} (v : UInt16)
    (hys : ∀ y ∈ ys, src y < 25 ∧ dst y < 25) (hr : r < 25) :
    (cursorUpdateHw (fillCells (List.range 80) (r*80+·) v
      (copyCells (ys ×ˢ List.range 80) (fun p => dst p.1*80+p.2) (fun p => src p.1*80+p.2) s))).OnScreen := by
  apply h.of_loops
  · simp
  · simp
  · apply Bounded.fillCells
    · apply h.bounded.copyCells
      rintro ⟨y,x⟩ hk
      obtain ⟨hy,hx⟩ := List.mem_product.mp hk
      have hy := hys y hy
      have hx := List.mem_range.mp hx
      simp only at hx ⊢
      omega
    · intro x hx
      have hx := List.mem_range.mp hx
      omega

lemma OnScreen.cursorInsertLine (h : s.OnScreen) : (CursorState.cursorInsertLine s).OnScreen := by
  have hys : ∀ y ∈ downFrom 24 s.cursorY.toNat, y-1 < 25 ∧ y < 25 := by
    intro y hy
    have := mem_downFrom.mp hy
    omega
  have hrows := h.of_rows (fun y => y) (fun y => y-1) (blank s.color) hys h.row
  simpa only [CursorState.cursorInsertLine,copyCells_color,copyCells_cursorY] using hrows

lemma OnScreen.cursorDeleteLine (h : s.OnScreen) : (CursorState.cursorDeleteLine s).OnScreen := by
  have hys : ∀ y ∈ List.range' s.cursorY.toNat (24-s.cursorY.toNat), y+1 < 25 ∧ y < 25 := by
    intro y hy
    have := List.mem_range'_1.mp hy
    omega
  have hrows := h.of_rows (r := 24) (fun y => y) (fun y => y+1) (blank s.color) hys (by decide)
  simpa only [CursorState.cursorDeleteLine,copyCells_color] using hrows

lemma OnScreen.cursorDeleteChar (h : s.OnScreen) : (CursorState.cursorDeleteChar s).OnScreen := by
  have hrow := h.row
  have hcol := h.col
  unfold CursorState.cursorDeleteChar
  split_ifs
  · exact h
  · apply h.of_loops
    · simp [CursorState.store]
    · simp [CursorState.store]
    · apply Bounded.store
      · apply h.bounded.copyCells
        intro x hx
        have hx := List.mem_range'_1.mp hx
        omega
      · simp only [copyCells_cursorY]
        omega

/-- Inserting a character accesses cells of the cursor's row only. -/
lemma OnScreen.insertChar_bounded (h : s.OnScreen) (c : UInt8) : (CursorState.cursorInsertChar s c).Bounded := by
  have hrow := h.row
  have hoff := h.offset_lt
  have hcopied : (copyCells (downFrom 79 s.cursorX.toNat) (s.cursorY.toNat*80+·)
      (fun x => s.cursorY.toNat*80+(x-1)) s).Bounded := by
    apply h.bounded.copyCells
    intro x hx
    have hx := mem_downFrom.mp hx
    omega
  exact ((hcopied.store (by simpa only [copyCells_cursorX,copyCells_cursorY,offset] using hoff) _).withCol _).updateHw

/-- The cursor moves on without wrapping. -/
lemma cursorInsertChar_cursor (s : CursorState) (c : UInt8) : (CursorState.cursorInsertChar s c).cursorX = s.cursorX+1 ∧
    (CursorState.cursorInsertChar s c).cursorY = s.cursorY := by
  simp [CursorState.cursorInsertChar,CursorState.cursorUpdateHw,CursorState.store]

lemma OnScreen.cursorInsertChar (h : s.OnScreen) (hlast : s.cursorX ≠ 79) (c : UInt8) :
    (CursorState.cursorInsertChar s c).OnScreen := by
  have hcol := h.col
  have hne : s.cursorX.toNat ≠ 79 := fun he => hlast (UInt8.toNat_inj.mp he)
  obtain ⟨hx,hy⟩ := cursorInsertChar_cursor s c
  refine ⟨?_,hy ▸ h.row,h.insertChar_bounded c⟩
  rw [hx,toNat_succ hcol]
  omega

lemma OnScreen.cursorClearScreen (h : s.OnScreen) : (CursorState.cursorClearScreen s).OnScreen := by
  have hfill : (fillCells (List.range (80*25)) id (blank s.color) s).Bounded :=
    h.bounded.fillCells (fun k hk => List.mem_range.mp hk) _
  unfold CursorState.cursorClearScreen
  generalize fillCells (List.range (80*25)) id (blank s.color) s = u at hfill ⊢
  exact ⟨Nat.succ_pos 79,Nat.succ_pos 24,((hfill.withCol 0).withRow 0).updateHw⟩

lemma capped_lt (z : UInt8) {n last : UInt8} (hlast : last < n) : (if z ≥ n then last else z) < n := by
  split_ifs with hz
  · exact hlast
  · exact UInt8.not_le.mp hz

lemma OnScreen.cursorSetPos (h : s.OnScreen) (x y : UInt8) : (CursorState.cursorSetPos s x y).OnScreen :=
  ⟨capped_lt x (by decide),capped_lt y (by decide),h.bounded⟩

/-- The step lemma. -/
lemma OnScreen.call (h : s.OnScreen) (c : CursorCall) (hc : (∃ b, c = .insertChar b) → s.cursorX ≠ 79) :
    (s.call c).OnScreen := by
  cases c with
  | init => exact ⟨Nat.succ_pos 79,Nat.succ_pos 24,h.bounded⟩
  | setPos x y => exact h.cursorSetPos x y
  | move dx dy =>
    have hx := toNat_clampMove_le s.cursorX dx (by decide : 79 < 256)
    have hy := toNat_clampMove_le s.cursorY dy (by decide : 24 < 256)
    exact ⟨Nat.lt_succ_of_le hx,Nat.lt_succ_of_le hy,h.bounded⟩
  | clearScreen => exact h.cursorClearScreen
  | putchar b => exact h.cursorPutchar b
  | print str => exact h.cursorPrint str
  | insertLine => exact h.cursorInsertLine
  | deleteLine => exact h.cursorDeleteLine
  | insertChar b => exact h.cursorInsertChar (hc ⟨b,rfl⟩) b
  | deleteChar => exact h.cursorDeleteChar

section Rows

/-- The calls that edit the cursor's row. -/
def EditsRow : CursorCall → Prop
  | .insertChar _ => True
  | .deleteChar => True
  | _ => False

/-- Moving cells inside a row and storing one there. -/
lemma store_copyCells_row {l : List ℕ} {y : ℕ} {d : ℕ → ℕ} {j : ℕ} (v : UInt16) (hl : ∀ k ∈ l, k < 80) (hj : j/80 = y)
    {i : ℕ} (hi : i/80 ≠ y) : ((copyCells l (y*80+·) d s).store j v).vgaBuffer i = s.vgaBuffer i := by
  have hij : i ≠ j := by
    rintro rfl
    exact hi hj
  simp only [CursorState.store,copyCells_eq]
  rw [Function.update_of_ne hij]
  apply sweep_of_forall_ne
  rintro k hk rfl
  have := hl k hk
  omega

lemma OnScreen.call_row (h : s.OnScreen) {c : CursorCall} (hc : EditsRow c) {i : ℕ} (hi : i/80 ≠ s.cursorY.toNat) :
    (s.call c).vgaBuffer i = s.vgaBuffer i := by
  have hcol := h.col
  cases c with
  | insertChar b =>
    apply store_copyCells_row _ _ _ hi
    · intro k hk
      have := mem_downFrom.mp hk
      omega
    · simp only [copyCells_cursorX,copyCells_cursorY,offset]
      omega
  | deleteChar =>
    simp only [CursorState.call,CursorState.cursorDeleteChar]
    split_ifs
    · rfl
    · apply store_copyCells_row _ _ _ hi
      · intro k hk
        have := List.mem_range'_1.mp hk
        omega
      · simp only [copyCells_cursorY]
        omega
  | _ => exact hc.elim

end Rows

/-- What is asked of a call: the cursor is on the screen afterwards, no cell outside of it has been
accessed, and an edit of the row changes no other row. -/
structure KeepsScreen (s : CursorState) (c : CursorCall) : Prop where
  col : (s.call c).cursorX.toNat < 80
  row : (s.call c).cursorY.toNat < 25
  bounded : ∀ i ∈ (s.call c).accessed, i < 80*25
  ownRow : EditsRow c → ∀ i, i/80 ≠ s.cursorY.toNat → (s.call c).vgaBuffer i = s.vgaBuffer i

/-- From position (0,0) every call keeps the screen exactly if no character is inserted in the last column. -/
theorem cursor_on_screen_iff (vgaBuffer : ℕ → UInt16) (color : UInt8) (location : UInt16) (calls : List CursorCall) :
    (∀ pre c, pre ++ [c] <+: calls → KeepsScreen (run ⟨vgaBuffer,[],0,0,color,location⟩ pre) c) ↔
      ∀ pre b, pre ++ [.insertChar b] <+: calls → (run ⟨vgaBuffer,[],0,0,color,location⟩ pre).cursorX ≠ 79 := by
  constructor
  · intro h pre b hp hlast
    have hcol := (h pre (.insertChar b) hp).col
    rw [call,(cursorInsertChar_cursor _ b).1,hlast] at hcol
    exact absurd hcol (by decide)
  · intro h pre c hp
    have hguard : ∀ pre c, pre ++ [c] <+: calls →
        (∃ b, c = .insertChar b) → (run ⟨vgaBuffer,[],0,0,color,location⟩ pre).cursorX ≠ 79 := by
      rintro pre _ hp ⟨b,rfl⟩
      exact h pre b hp
    have hscreen : (run ⟨vgaBuffer,[],0,0,color,location⟩ pre).OnScreen := by
      apply foldl_guarded (P := OnScreen) (Q := fun s c => (∃ b, c = .insertChar b) → s.cursorX ≠ 79)
        (fun s c hs hg => hs.call c hg) _ hguard ((List.prefix_append pre [c]).trans hp)
      exact ⟨Nat.succ_pos 79,Nat.succ_pos 24,fun i hi => absurd hi List.not_mem_nil⟩
    have hcall := hscreen.call c (hguard pre c hp)
    exact ⟨hcall.col,hcall.row,hcall.bounded,fun hc i hi => hscreen.call_row hc hi⟩

/-- After a character is inserted in the last column the cursor is in column 80, and on the last row the
next one goes behind the screen. -/
theorem cursor_off_screen :
    (run ⟨fun _ => 0,[],0,0,0x0F,0⟩ [.setPos 79 24,.insertChar 65]).cursorX = 80 ∧
      80*25 ∈ (run ⟨fun _ => 0,[],0,0,0x0F,0⟩ [.setPos 79 24,.insertChar 65,.insertChar 65]).accessed := by
  decide

end CursorState
end Linuxab.Console
