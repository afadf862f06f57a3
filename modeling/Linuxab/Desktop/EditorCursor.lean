import Mathlib.Data.List.GetD
import Linuxab.Desktop.EditorSave
import Linuxab.Desktop.Picture

/-! Where the editor's cursor stands and where the next character is drawn. The cursor goes on to the
next row at the right edge, but `editor_draw` cuts a line there and draws the following one in the next
row, so the two agree only while no line is as long as the screen is wide. -/
namespace Linuxab.Desktop
open Linuxab.Base
open Linuxab.Shell (bytes strlen)

section Layout
variable {line : List UInt8} {x y : ℕ} {sc : Screen}

/-- One line in each row, from row `y` on and down to row 23. -/
def paintLines : ℕ → List (List UInt8) → Screen → Screen
  | _,[],sc => sc
  | y,line::rest,sc => if y < 24 then paintLines (y+1) rest (vgaPuts 0 y line cWhite cBlack sc) else sc

lemma paintLines_of_le (h : 24 ≤ y) (lines : List (List UInt8)) (sc : Screen) : paintLines y lines sc = sc := by
  cases lines with
  | nil => rfl
  | cons line rest => exact if_neg (Nat.not_lt.mpr h)

/-- The text is drawn line by line. -/
theorem drawText_eq (hline : 10 ∉ line) (hy : y < 24) (rest : List UInt8) (sc : Screen) :
    drawText y line rest sc = paintLines y ((line ++ rest).splitOn 10) sc := by
  induction rest generalizing y line sc with
  | nil =>
    rw [List.append_nil,List.splitOn_eq_singleton hline,drawText,paintLines,if_pos hy]
    by_cases hnil : line = []
    · rw [if_neg (fun h => h.1 hnil),hnil]
      rfl
    · rw [if_pos ⟨hnil,hy⟩]
      rfl
  | cons b rest ih =>
    by_cases hb : b = 10
    · subst hb
      have hsplit : (line ++ 10::rest).splitOn 10 = line::rest.splitOn 10 := by
        rw [List.splitOn_append_cons_self,List.splitOn_eq_singleton hline]
        rfl
      rw [hsplit,drawText,if_pos rfl,if_pos hy,paintLines,if_pos hy]
      split_ifs with hlast
      · rw [paintLines_of_le hlast]
      · exact ih (List.not_mem_nil) (by omega) _
    · have hcons : line ++ b::rest = line ++ [b] ++ rest := by simp
      rw [drawText,if_neg hb,hcons]
      exact ih (by simpa [hline] using Ne.symm hb) hy sc

theorem paintLines_apply (y : ℕ) (lines : List (List UInt8)) (sc : Screen) (r : Fin 25) (k : Fin 80) :
    paintLines y lines sc r k =
      if y ≤ r.val ∧ r.val < 24 ∧ k.val < (lines.getD (r.val-y) []).length then
        ⟨(lines.getD (r.val-y) []).getD k.val 0,attrOf cWhite cBlack⟩
      else sc r k := by
  induction lines generalizing y sc with
  | nil => simp [paintLines]
  | cons line rest ih =>
    rw [paintLines]
    by_cases hy : y < 24
    · rw [if_pos hy,ih,vgaPuts_apply,Nat.sub_zero,Nat.zero_add]
      by_cases hrow : r.val = y
      · rw [hrow,Nat.sub_self,List.getD_cons_zero,if_neg (by omega)]
        simp [hy]
      · rw [if_neg (fun h => hrow h.1 : ¬ (r.val = y ∧ _))]
        by_cases hbelow : y < r.val
        · obtain ⟨j,hj⟩ : ∃ j, r.val-y = j+1 := ⟨r.val-y-1,by omega⟩
          have hnext : r.val-(y+1) = j := by omega
          rw [hj,hnext,List.getD_cons_succ]
          simp only [Nat.succ_le_of_lt hbelow,Nat.le_of_lt hbelow,true_and]
        · rw [if_neg (by omega),if_neg (by omega)]
    · rw [if_neg hy,if_neg (by omega)]

/-- What a cell between the title and the taskbar shows. -/
theorem editorDraw_apply (d : DesktopState) {r : Fin 25} (htop : 2 ≤ r.val) (hbottom : r.val < 24) (k : Fin 80) :
    (editorDraw d).screen r k =
      if r.val = d.edCursY+2 ∧ k.val = d.edCursX then ⟨95,attrOf cBlack cWhite⟩
      else ⟨(((edText d).splitOn 10).getD (r.val-2) []).getD k.val 32,attrOf cWhite cBlack⟩ := by
  -- the title is drawn in row 0 of a blank screen
  obtain ⟨sc,hsc,hdraw⟩ : ∃ sc : Screen, sc r = vgaClear cWhite cBlack r ∧ (editorDraw d).screen =
      drawTaskbar d.activeApp (if d.edCursY+2 < 24 ∧ d.edCursX < 80
        then vgaPutc d.edCursX (d.edCursY+2) 95 cBlack cWhite (drawText 2 [] (edText d) sc)
        else drawText 2 [] (edText d) sc) := by
    refine ⟨_,?_,rfl⟩
    have htitle : r.val ≠ 0 := by omega
    rw [vgaPuts_row htitle]
    split
    · rw [vgaPuts_row htitle,vgaPuts_row htitle,vgaPutc_row htitle]
    · rw [vgaPuts_row htitle,vgaPuts_row htitle,vgaPutc_row htitle]
  have htext : drawText 2 [] (edText d) sc r k =
      ⟨(((edText d).splitOn 10).getD (r.val-2) []).getD k.val 32,attrOf cWhite cBlack⟩ := by
    rw [drawText_eq List.not_mem_nil (by decide),List.nil_append,paintLines_apply,hsc]
    split_ifs with hin
    · rw [List.getD_eq_getElem _ _ hin.2.2,List.getD_eq_getElem _ _ hin.2.2]
    · rw [List.getD_eq_default _ _ (by omega)]
      rfl
  have hk := k.isLt
  rw [hdraw,drawTaskbar_row (by omega)]
  by_cases hcursor : d.edCursY+2 < 24 ∧ d.edCursX < 80
  · rw [if_pos hcursor,vgaPutc_apply,htext]
  · rw [if_neg hcursor,if_neg (by omega),htext]

end Layout

section Cursor

/-- The lines that have an end. -/
def fullLines (s : List UInt8) : List (List UInt8) := (s.splitOn 10).dropLast

/-- The line the next byte goes to. -/
def lastLine (s : List UInt8) : List UInt8 := (s.splitOn 10).getLastD []

/-- A byte that ends no line is appended to the last one. -/
lemma splitOn_append_byte (s : List UInt8) {b : UInt8} (hb : b ≠ 10) :
    (s ++ [b]).splitOn 10 = fullLines s ++ [lastLine s ++ [b]] ∧ s.splitOn 10 = fullLines s ++ [lastLine s] ∧
      (fullLines s).length = s.count 10 := by
  obtain ⟨pre,last,hlen,hsplit⟩ := exists_splitOn_append 10 s
  have hs : s.splitOn 10 = pre ++ [last] := by simpa using hsplit [] List.not_mem_nil
  have hfull : fullLines s = pre := by rw [fullLines,hs,List.dropLast_concat]
  have hlast : lastLine s = last := by rw [lastLine,hs,List.getLastD_concat]
  rw [hfull,hlast]
  exact ⟨hsplit [b] (by simpa using Ne.symm hb),hs,hlen⟩

/-- The cursor is behind the last line, pushed down by the lines above it and by every 80 bytes of a line. -/
theorem foldl_advanceCursor (s : List UInt8) : s.foldl advanceCursor (0,0) =
    ((lastLine s).length % 80,(fullLines s).length+((s.splitOn 10).map fun line => line.length/80).sum) := by
  induction s using List.reverseRecOn with
  | nil => rfl
  | append_singleton s b ih =>
    rw [List.foldl_append,List.foldl_cons,List.foldl_nil,ih,advanceCursor]
    by_cases hb : b = 10
    · subst hb
      have hsplit : (s ++ [10]).splitOn 10 = s.splitOn 10 ++ [[]] := List.splitOn_append_cons_self s []
      have hlen : (fullLines s).length+1 = (fullLines (s ++ [10])).length := by
        rw [fullLines,fullLines,hsplit,List.dropLast_concat,List.length_dropLast]
        have := length_splitOn 10 s
        omega
      have hlast : lastLine (s ++ [10]) = [] := by rw [lastLine,hsplit,List.getLastD_concat]
      rw [if_pos rfl,← hlen,hlast,hsplit,List.map_append,List.sum_append]
      congr 1
      simp
      omega
    · obtain ⟨hnew,hold,-⟩ := splitOn_append_byte s hb
      have hfull : fullLines (s ++ [b]) = fullLines s := by rw [fullLines,hnew,List.dropLast_concat]
      have hlast : lastLine (s ++ [b]) = lastLine s ++ [b] := by rw [lastLine,hnew,List.getLastD_concat]
      rw [if_neg hb,hfull,hlast,hnew,hold]
      simp only [List.map_append,List.map_cons,List.map_nil,List.sum_append,List.sum_cons,List.sum_nil,
        List.length_append,List.length_cons,List.length_nil]
      split_ifs
      · congr 1 <;> omega
      · congr 1 <;> omega

end Cursor

section Typing
variable {d : DesktopState} {c : UInt8}

def IsPrintable (c : UInt8) : Prop := 0x20 ≤ c ∧ c ≤ 0x7E

/-- A printable key, Enter or Backspace. -/
def IsTypingKey (c : UInt8) : Prop := IsPrintable c ∨ c = 13 ∨ c = 10 ∨ c = 0x7F ∨ c = 0x08

instance (c : UInt8) : Decidable (IsPrintable c) := inferInstanceAs (Decidable (_ ∧ _))
instance (c : UInt8) : Decidable (IsTypingKey c) := inferInstanceAs (Decidable (_ ∨ _))

/-- The byte in the cell, if there is such a cell. -/
def byteAt (sc : Screen) (x y : ℕ) : Option UInt8 :=
  if hy : y < 25 then if hx : x < 80 then some (sc ⟨y,hy⟩ ⟨x,hx⟩).ch else none else none

/-- The editor is open with its cursor placed behind the text. -/
structure Placed (d : DesktopState) : Prop where
  app : d.activeApp = .editor
  x : d.edCursX = ((edText d).foldl advanceCursor (0,0)).1
  y : d.edCursY = if 22 ≤ ((edText d).foldl advanceCursor (0,0)).2 then 21 else ((edText d).foldl advanceCursor (0,0)).2

lemma placed_switchApp (d : DesktopState) : Placed (switchApp d .editor) := ⟨rfl,rfl,rfl⟩

lemma placed_editorDraw (h : d.activeApp = .editor) : Placed (editorDraw (placeCursor d)) := ⟨h,rfl,rfl⟩

lemma IsPrintable.ne (h : IsPrintable c) {b : UInt8} (hb : b.toNat < 32 ∨ 126 < b.toNat) : c ≠ b := by
  have hlow : 32 ≤ c.toNat := UInt8.le_iff_toNat_le.mp h.1
  have hhigh : c.toNat ≤ 126 := UInt8.le_iff_toNat_le.mp h.2
  intro he
  rw [he] at hlow hhigh
  omega

lemma IsTypingKey.ne (h : IsTypingKey c) : c ≠ 0x11 ∧ c ≠ 0x13 := by
  rcases h with h | rfl | rfl | rfl | rfl
  · exact ⟨h.ne (.inl (by decide)),h.ne (.inl (by decide))⟩
  all_goals decide

lemma Placed.input (h : Placed d) (hc : IsTypingKey c) : Placed (editorInput d c) := by
  have hinsert : ∀ b, (editorInsert d b).activeApp = .editor := by
    intro b
    unfold editorInsert
    split <;> exact h.app
  have hback : (editorBackspace d).activeApp = .editor := by
    unfold editorBackspace
    split <;> exact h.app
  unfold editorInput
  rw [if_neg hc.ne.1,if_neg hc.ne.2]
  apply placed_editorDraw
  split_ifs
  · exact hback
  · exact hinsert 10
  · exact hinsert c
  · exact h.app

lemma Placed.press (h : Placed d) {keys : List UInt8} (hkeys : ∀ b ∈ keys, IsTypingKey b) :
    ∃ d₁, pressKeys d keys = .ok d₁ ∧ Placed d₁ := by
  induction keys generalizing d with
  | nil => exact ⟨d,rfl,h⟩
  | cons b keys ih =>
    obtain ⟨hb,hkeys⟩ := List.forall_mem_cons.mp hkeys
    obtain ⟨d₁,hrun,h₁⟩ := ih (h.input hb) hkeys
    have hstep : desktopInputChar d b = .ok (editorInput d b) := by rw [desktopInputChar,h.app]
    exact ⟨d₁,(foldlM_cons_ok hstep keys).trans hrun,h₁⟩

/-- A printable key is appended to the text. -/
lemma edText_editorInput (hc : IsPrintable c) (hsize : (edText d).length < 1023) :
    editorInput d c = editorDraw (placeCursor (editorInsert d c)) ∧ edText (editorInsert d c) = edText d ++ [c] := by
  have hne : c ≠ 0x7F ∧ c ≠ 0x08 ∧ c ≠ 13 ∧ c ≠ 10 :=
    ⟨hc.ne (.inr (by decide)),hc.ne (.inl (by decide)),hc.ne (.inl (by decide)),hc.ne (.inl (by decide))⟩
  have hlt : d.edSize < 1023 := by
    have := d.edSize_le
    rw [edText,List.length_take,List.Vector.toList_length] at hsize
    omega
  constructor
  · have hkey := IsTypingKey.ne (c := c) (.inl hc)
    unfold editorInput
    rw [if_neg hkey.1,if_neg hkey.2,if_neg (by simp [hne]),if_neg (by simp [hne]),
      if_pos (show 0x20 ≤ c ∧ c ≤ 0x7E from hc)]
  · unfold editorInsert
    rw [dif_pos hlt]
    exact take_blit _ (by simp; omega) rfl

end Typing

section Shown
variable {s : List UInt8}

/-- The last line is not full, and no line above it has pushed the cursor down, or it is the last row. -/
def CursorAgrees (s : List UInt8) : Prop :=
  (lastLine s).length < 80 ∧ ((fullLines s).length = 21 ∨ ∀ line ∈ fullLines s, line.length < 80)

instance (s : List UInt8) : Decidable (CursorAgrees s) := inferInstanceAs (Decidable (_ ∧ _))

/-- What stands under a cursor that does not agree: a byte of the last line in the last row, or a blank. -/
def underCursor (s : List UInt8) : UInt8 :=
  if (fullLines s).length = 21 then (lastLine s).getD ((lastLine s).length % 80) 32 else 32

/-- The row the cursor is put to. -/
def cursorRow (s : List UInt8) : ℕ :=
  if 22 ≤ (fullLines s).length+((s.splitOn 10).map fun line => line.length/80).sum then 21
  else (fullLines s).length+((s.splitOn 10).map fun line => line.length/80).sum

lemma le_cursorRow (h : (fullLines s).length < 22) : (fullLines s).length ≤ cursorRow s ∧ cursorRow s ≤ 21 := by
  unfold cursorRow
  split_ifs <;> omega

/-- The cursor is in the row of the last line exactly if nothing pushed it down or this is the last row. -/
lemma cursorRow_eq_iff (h : (fullLines s).length < 22) : cursorRow s = (fullLines s).length ↔
    (fullLines s).length = 21 ∨ ∀ line ∈ fullLines s ++ [lastLine s], line.length < 80 := by
  have hsplit := (splitOn_append_byte s (show (0 : UInt8) ≠ 10 by decide)).2.1
  have hzero : ((s.splitOn 10).map fun line => line.length/80).sum = 0 ↔
      ∀ line ∈ fullLines s ++ [lastLine s], line.length < 80 := by
    rw [List.sum_eq_zero_iff_forall_eq_nat,hsplit]
    simp only [List.mem_map,forall_exists_index,and_imp,forall_apply_eq_imp_iff₂,Nat.div_eq_zero_iff]
    simp
  rw [← hzero]
  unfold cursorRow
  split_ifs <;> omega

/-- The byte in the cell of the old cursor, after one more byte. -/
lemma shown_iff (h : (fullLines s).length < 22) {c : UInt8} (hc : c ≠ 10) :
    (((s ++ [c]).splitOn 10).getD (cursorRow s) []).getD ((lastLine s).length % 80) 32 = c ↔
      CursorAgrees s ∨ c = underCursor s := by
  have hle := le_cursorRow h
  rw [(splitOn_append_byte s hc).1]
  by_cases hrow : cursorRow s = (fullLines s).length
  · have hline : (fullLines s ++ [lastLine s ++ [c]]).getD (cursorRow s) [] = lastLine s ++ [c] := by
      rw [hrow,List.getD_append_right _ _ _ _ le_rfl,Nat.sub_self]
      rfl
    rw [hline]
    rcases Nat.lt_or_ge (lastLine s).length 80 with hshort | hlong
    · have hagrees : CursorAgrees s := by
        refine ⟨hshort,(cursorRow_eq_iff h).mp hrow |>.imp_right fun hall line hline => ?_⟩
        exact hall line (List.mem_append_left _ hline)
      rw [Nat.mod_eq_of_lt hshort,List.getD_append_right _ _ _ _ le_rfl,Nat.sub_self]
      exact iff_of_true rfl (.inl hagrees)
    · -- the line is full, so the cursor is here only because there is no further row
      have hlast : (fullLines s).length = 21 := by
        refine ((cursorRow_eq_iff h).mp hrow).resolve_right fun hall => ?_
        have := hall (lastLine s) (by simp)
        omega
      have hmod := Nat.mod_lt (lastLine s).length (show 0 < 80 by decide)
      rw [List.getD_append _ _ _ _ (by omega),underCursor,if_pos hlast,CursorAgrees,
        iff_false_intro (Nat.not_lt.mpr hlong),false_and,false_or]
      exact eq_comm
  · have hbelow : (fullLines s ++ [lastLine s ++ [c]]).getD (cursorRow s) [] = [] :=
      List.getD_eq_default _ _ (by rw [List.length_append,List.length_singleton]; omega)
    have hdisagrees : ¬ CursorAgrees s := by
      intro hagrees
      refine hrow ((cursorRow_eq_iff h).mpr (hagrees.2.imp_right fun hall line hline => ?_))
      obtain hline | hline := List.mem_append.mp hline
      · exact hall line hline
      · rw [List.mem_singleton.mp hline]
        exact hagrees.1
    have hnot : (fullLines s).length ≠ 21 := by omega
    rw [hbelow,List.getD_nil,underCursor,if_neg hnot,iff_false_intro hdisagrees,false_or]
    exact eq_comm

/-- A key is shown at the cursor's place exactly if the cursor agrees with the lines, or the cell shows
such a byte anyway. -/
theorem typed_at_cursor_iff (d : DesktopState) (keys : List UInt8) (hkeys : ∀ b ∈ keys, IsTypingKey b) (c : UInt8)
    (hc : IsPrintable c) : ∃ d₁, pressKeys (switchApp d .editor) keys = .ok d₁ ∧
      ((edText d₁).length < 1023 → (edText d₁).count 10 < 22 → ∃ d₂, pressKeys d₁ [c] = .ok d₂ ∧
        (byteAt d₂.screen d₁.edCursX (d₁.edCursY+2) = some c ↔
          CursorAgrees (edText d₁) ∨ c = underCursor (edText d₁))) := by
  obtain ⟨d₁,hrun,h₁⟩ := (placed_switchApp d).press hkeys
  refine ⟨d₁,hrun,fun hsize hrows => ?_⟩
  have hne : c ≠ 10 := hc.ne (.inl (by decide))
  obtain ⟨hnew,hold,hlen⟩ := splitOn_append_byte (edText d₁) hne
  obtain ⟨hinput,htext⟩ := edText_editorInput hc hsize
  have hfull : (fullLines (edText d₁)).length < 22 := by rwa [hlen]
  have hx : d₁.edCursX = (lastLine (edText d₁)).length % 80 := by rw [h₁.x,foldl_advanceCursor]
  have hy : d₁.edCursY = cursorRow (edText d₁) := by
    rw [h₁.y,foldl_advanceCursor]
    rfl
  -- the new cursor is one column further or at the left edge
  have hmoved : (placeCursor (editorInsert d₁ c)).edCursX ≠ d₁.edCursX := by
    change ((edText (editorInsert d₁ c)).foldl advanceCursor (0,0)).1 ≠ _
    rw [htext,foldl_advanceCursor,hx,lastLine,hnew,List.getLastD_concat,List.length_append,List.length_singleton]
    change (_+1) % 80 ≠ _
    omega
  have hrow := le_cursorRow hfull
  have hcell : d₁.edCursX < 80 ∧ d₁.edCursY+2 < 25 := by omega
  have hbottom : d₁.edCursY+2 < 24 := by omega
  refine ⟨editorInput d₁ c,?_,?_⟩
  · have hstep : desktopInputChar d₁ c = .ok (editorInput d₁ c) := by rw [desktopInputChar,h₁.app]
    exact foldlM_cons_ok hstep []
  · rw [byteAt,dif_pos hcell.2,dif_pos hcell.1,hinput,editorDraw_apply _ (Nat.le_add_left 2 _) hbottom,
      if_neg (fun h => hmoved h.2.symm),Option.some.injEq]
    change (((edText (editorInsert d₁ c)).splitOn 10).getD (d₁.edCursY+2-2) []).getD d₁.edCursX 32 = c ↔ _
    rw [htext,Nat.add_sub_cancel,hx,hy]
    exact shown_iff hfull hne

/-- The buffer after the keys leaves room for one more key. -/
def hasSpace (d : DesktopState) : Bool := decide ((edText d).length < 1023) && decide ((edText d).count 10 < 22)

theorem typed_at_cursor_iff_short : ∃ d₁, pressKeys (switchApp desktopInit .editor) (bytes "a\nb") = .ok d₁ ∧
    hasSpace d₁ = true ∧ ∃ d₂, pressKeys d₁ [99] = .ok d₂ ∧
      byteAt d₂.screen d₁.edCursX (d₁.edCursY+2) = some 99 := by
  obtain ⟨d₁,hrun,h⟩ := typed_at_cursor_iff desktopInit (bytes "a\nb") (by decide +kernel) 99 (by decide +kernel)
  obtain ⟨d,hd,hP⟩ := exists_of_holdsAfter (P := fun d => hasSpace d && decide (CursorAgrees (edText d)))
    (show holdsAfter _ (pressKeys (switchApp desktopInit .editor) (bytes "a\nb")) = true by decide +kernel)
  obtain rfl : d₁ = d := Except.ok.inj (hrun.symm.trans hd)
  obtain ⟨hspace,hagrees⟩ := Bool.and_eq_true_iff.mp hP
  obtain ⟨hsize,hrows⟩ := Bool.and_eq_true_iff.mp hspace
  obtain ⟨d₂,hkey,hiff⟩ := h (of_decide_eq_true hsize) (of_decide_eq_true hrows)
  exact ⟨d₁,hrun,hspace,d₂,hkey,hiff.mpr (.inl (of_decide_eq_true hagrees))⟩

/-- Behind 80 bytes the cursor is at the start of the next row, and the next byte is not shown at all. -/
theorem typed_not_at_cursor : ∃ d₁, pressKeys (switchApp desktopInit .editor) (List.replicate 80 120) = .ok d₁ ∧
    hasSpace d₁ = true ∧ ∃ d₂, pressKeys d₁ [121] = .ok d₂ ∧
      byteAt d₂.screen d₁.edCursX (d₁.edCursY+2) ≠ some 121 := by
  obtain ⟨d₁,hrun,hP⟩ := exists_of_holdsAfter
    (P := fun d₁ => hasSpace d₁ && holdsAfter
      (fun d₂ => decide (byteAt d₂.screen d₁.edCursX (d₁.edCursY+2) ≠ some 121)) (pressKeys d₁ [121]))
    (show holdsAfter _ (pressKeys (switchApp desktopInit .editor) (List.replicate 80 120)) = true by decide +kernel)
  obtain ⟨hspace,hnext⟩ := Bool.and_eq_true_iff.mp hP
  obtain ⟨d₂,hkey,hshown⟩ := exists_of_holdsAfter hnext
  exact ⟨d₁,hrun,hspace,d₂,hkey,of_decide_eq_true hshown⟩

end Shown
end Linuxab.Desktop
