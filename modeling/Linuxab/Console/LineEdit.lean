import Linuxab.Base.Fold
import Linuxab.Console.Screen
import Linuxab.Shell.Boot
import Linuxab.Shell.Execute

/-! `Terminal::input` of `rust/modules/terl.rs` on the console of `kernel/cursor.c`. What is typed is what is
seen until a backspace meets the cursor in the first column: the line buffer gives up a byte, and the
cursor stays where it is. -/
namespace Linuxab.Console
open Linuxab.Base Linuxab.Shell

section Terminal

/-- The shell with the line buffer of `Terminal::input`. -/
structure Terminal where
  shell : ShellState
  buf : List.Vector UInt8 256
  pos : ℕ
  pos_le : pos ≤ 255

def zeroBuf : List.Vector UInt8 256 := List.Vector.replicate 256 0

lemma zero_le_255 : 0 ≤ 255 := Nat.zero_le 255

/-- `BUF[..POS]` -/
def Terminal.line (t : Terminal) : List UInt8 := t.buf.toList.take t.pos

/-- `cursor_set_color(fg, 0)` and a text. -/
def inColor (fg : UInt8) (text : Output) : Output := .setColor fg 0 :: text

def printPrompt (s : ShellState) : Output :=
  inColor 10 (printStr "root") ++ inColor 7 (printStr "@") ++ inColor 11 (printStr "linuxab") ++
    inColor 7 (printStr ":") ++ inColor 14 (printBytes s.cwdText) ++ inColor 7 (printStr "# ") ++ inColor 7 []

lemma Terminal.pred_le (t : Terminal) : t.pos-1 ≤ 255 := (Nat.sub_le t.pos 1).trans t.pos_le
lemma Terminal.pred_lt (t : Terminal) : t.pos-1 < 256 := Nat.lt_succ_of_le t.pred_le
lemma Terminal.pos_lt (t : Terminal) : t.pos < 256 := Nat.lt_succ_of_le t.pos_le

/-- The branch for 0x7F and 0x08. -/
def Terminal.backspace (t : Terminal) : Terminal × Output :=
  if t.pos > 0 then
    ({ t with pos := t.pos-1, buf := t.buf.set ⟨t.pos-1,t.pred_lt⟩ 0, pos_le := t.pred_le },
      [.putchar 8,.putchar 32,.putchar 8])
  else (t,[])

/-- The branch for the printable bytes. -/
def Terminal.insert (t : Terminal) (c : UInt8) : Terminal × Output :=
  if h : t.pos < 255 then ({ t with buf := t.buf.set ⟨t.pos,t.pos_lt⟩ c, pos := t.pos+1, pos_le := h },[.putchar c])
  else (t,[])

/-- `POS = 0; BUF = [0; MAX_CMD_LEN];` -/
def Terminal.fresh (s : ShellState) : Terminal := ⟨s,zeroBuf,0,zero_le_255⟩

/-- The branch for a line end. Nothing is left to type into if the command stops the machine. -/
def Terminal.enter (fuel : ℕ) (t : Terminal) : Option (Option Terminal × Output) :=
  if t.pos > 0 then
    (runs executeLine fuel (t.shell,t.line)).map fun reply =>
      match reply.outcome with
      | .returned s => (some (.fresh s),newline ++ reply.output ++ printPrompt s)
      | _ => (none,newline ++ reply.output)
  else some (some (.fresh t.shell),newline ++ printPrompt t.shell)

/-- The terminal afterwards, unless the machine has been stopped, and what is printed; `fuel` bounds the
open activations of `execute_line`. -/
def Terminal.input (fuel : ℕ) (t : Terminal) (c : UInt8) : Option (Option Terminal × Output) :=
  if c = 10 ∨ c = 13 then t.enter fuel
  else if c = 0x7F ∨ c = 0x08 then some (some t.backspace.1,t.backspace.2)
  else if c = 0x03 then some (some (.fresh t.shell),newline ++ printPrompt t.shell)
  else if c = 0x0C then some (some t,[.clearScreen] ++ printPrompt t.shell)
  else if 0x20 ≤ c ∧ c ≤ 0x7E then some (some (t.insert c).1,(t.insert c).2)
  else some (some t,[])

/-- The calls into `cursor.c` that the output consists of. -/
def CursorState.display (s : CursorState) (out : Output) : CursorState :=
  out.foldl (fun s op => match op with
    | .putchar c => s.cursorPutchar c
    | .setColor fg bg => s.cursorSetColor fg bg
    | .clearScreen => s.cursorClearScreen) s

end Terminal

section Typing

structure Tty where
  terminal : Terminal
  console : CursorState

/-- A key and its echo; `none` if the machine has been stopped or the fuel is used up. -/
def Tty.press (fuel : ℕ) (tty : Tty) (c : UInt8) : Option Tty :=
  (tty.terminal.input fuel c).bind fun (t,out) => t.map fun t => ⟨t,tty.console.display out⟩

def IsBackspace (c : UInt8) : Prop := c = 0x7F ∨ c = 0x08

instance (c : UInt8) : Decidable (IsBackspace c) := inferInstanceAs (Decidable (_ ∨ _))

/-- What a backspace or a printable byte does to the line and to the screen. -/
def Tty.edit (tty : Tty) (c : UInt8) : Tty :=
  let (t,out) := if IsBackspace c then tty.terminal.backspace else tty.terminal.insert c
  ⟨t,tty.console.display out⟩

lemma input_of_backspace (fuel : ℕ) (t : Terminal) {c : UInt8} (hc : IsBackspace c) :
    t.input fuel c = some (some t.backspace.1,t.backspace.2) := by
  have hne : ¬ (c = 10 ∨ c = 13) := by
    rcases hc with rfl | rfl <;> decide
  rw [Terminal.input,if_neg hne]
  exact if_pos hc

lemma input_of_printable (fuel : ℕ) (t : Terminal) {c : UInt8} (hc : IsPrintable c) :
    t.input fuel c = some (some (t.insert c).1,(t.insert c).2) := by
  have hdel : c ≠ 0x7F := by
    rintro rfl
    exact absurd hc.2 (by decide)
  have hend : ¬ (c = 10 ∨ c = 13) := not_or.mpr ⟨hc.ne_of_lt (by decide),hc.ne_of_lt (by decide)⟩
  have herase : ¬ (c = 0x7F ∨ c = 0x08) := not_or.mpr ⟨hdel,hc.ne_of_lt (by decide)⟩
  rw [Terminal.input,if_neg hend,if_neg herase,if_neg (hc.ne_of_lt (by decide)),if_neg (hc.ne_of_lt (by decide))]
  exact if_pos hc

lemma IsPrintable.not_backspace {c : UInt8} (hc : IsPrintable c) : ¬ IsBackspace c := by
  rintro (rfl | rfl)
  · exact absurd hc.2 (by decide)
  · exact absurd hc.1 (by decide)

/-- A key that edits the line. -/
def IsEditKey (c : UInt8) : Prop := IsBackspace c ∨ IsPrintable c

lemma press_eq_edit (fuel : ℕ) (tty : Tty) {c : UInt8} (hc : IsEditKey c) : tty.press fuel c = some (tty.edit c) := by
  rcases hc with hc | hc
  · rw [Tty.press,input_of_backspace fuel _ hc,Tty.edit,if_pos hc]
    rfl
  · rw [Tty.press,input_of_printable fuel _ hc,Tty.edit,if_neg hc.not_backspace]
    rfl

end Typing

section Echo
variable {s : CursorState} {t : TextScreen UInt16} {c : UInt8}

/-- The character of a cell. -/
def CursorState.char (s : CursorState) (i : ℕ) : UInt8 := (s.vgaBuffer i).toUInt8

lemma cell_toUInt8 (color c : UInt8) : (cell color c).toUInt8 = c := by
  apply UInt8.toBitVec_inj.mp
  simp [cell]

namespace CursorState

lemma Shows.offset_eq (h : s.Shows t) : s.offset = t.number 80 := by
  simp only [offset,TextScreen.number,h.col,h.row]

lemma offset_lt (h : s.view.InBounds 25 80) : s.offset < 2000 := h.number_lt

lemma cursorX_lt (h : s.view.InBounds 25 80) : s.cursorX < 80 := h.col_lt

lemma view_number (s : CursorState) : s.view.number 80 = s.offset := rfl

lemma Shows.view_inBounds (h : s.Shows t) (hb : t.InBounds 25 80) : s.view.InBounds 25 80 :=
  ⟨Nat.lt_of_le_of_lt (Nat.le_of_eq h.row) hb.row_lt,Nat.lt_of_le_of_lt (Nat.le_of_eq h.col) hb.col_lt⟩

/-- Of what is shown after a write only one cell differs. -/
lemma char_of_write {s' : CursorState} {color : UInt8} (hcol : t.col < 80)
    (h : ∀ i < 2000, s.vgaBuffer i = t.grid (i/80) (i%80))
    (h' : ∀ i < 2000, s'.vgaBuffer i = (t.write (cell color c)).grid (i/80) (i%80)) :
    ∀ i < 2000, s'.char i = if i = t.number 80 then c else s.char i := by
  intro i hi
  have hat : (i/80 = t.row ∧ i%80 = t.col) ↔ i = t.number 80 := by
    simp only [TextScreen.number]
    omega
  simp only [char,h' i hi,TextScreen.write,hat,h i hi]
  split_ifs
  · exact cell_toUInt8 color c
  · rfl

lemma putchar_printable (hb : s.view.InBounds 25 80) (hc : IsPrintable c) (hroom : s.offset+1 < 2000) :
    (s.cursorPutchar c).offset = s.offset+1 ∧
      ∀ i < 2000, (s.cursorPutchar c).char i = if i = s.offset then c else s.char i := by
  have hshows := s.shows_view.cursorPutchar hb c
  rw [feed_of_printable _ _ hc] at hshows
  rw [← s.view_number] at hroom ⊢
  obtain ⟨hnumber,hgrid⟩ := hb.put_before_last (cell s.color c) hroom
  have hcells : ∀ i < 2000, (s.cursorPutchar c).vgaBuffer i
      = (s.view.write (cell s.color c)).grid (i/80) (i%80) := by
    intro i hi
    rw [hshows.cell_eq hi,hgrid]
  rw [hshows.offset_eq]
  exact ⟨hnumber,char_of_write hb.col_lt (fun _ => s.shows_view.cell_eq) hcells⟩

lemma putchar_printable_last (hb : s.view.InBounds 25 80) (hc : IsPrintable c) (hlast : s.offset+1 = 2000) :
    (s.cursorPutchar c).offset = 80*24 := by
  have hshows := s.shows_view.cursorPutchar hb c
  rw [feed_of_printable _ _ hc] at hshows
  exact hshows.offset_eq.trans (hb.put_last _ hlast)

/-- What the screen shows for a backspace. -/
def eraseKey (s : CursorState) : CursorState := [8,32,8].foldl cursorPutchar s

lemma feed_eraseKey (color : UInt8) (t : TextScreen UInt16) : [8,32,8].foldl (feed color) t
    = .eraseBack (blank color) (.put 25 80 (blank color) (.eraseBack (blank color) t) (blank color)) := by
  simp [feed,blank]

lemma eraseKey_of_pos (hb : s.view.InBounds 25 80) (hcol : 0 < s.cursorX.toNat) : s.eraseKey.offset+1 = s.offset ∧
    ∀ i < 2000, s.eraseKey.char i = if i = s.eraseKey.offset then 32 else s.char i := by
  have hshows := s.shows_view.foldl_putchar hb [8,32,8]
  rw [feed_eraseKey,hb.erase hcol] at hshows
  have hoffset : s.eraseKey.offset = s.view.back.number 80 := hshows.offset_eq
  constructor
  · rw [hoffset]
    simp only [TextScreen.number,TextScreen.back,view,offset]
    omega
  · rw [hoffset]
    exact char_of_write hb.back.col_lt (fun _ => s.shows_view.cell_eq) fun _ => hshows.cell_eq

/-- In the first column the cursor does not move. -/
lemma eraseKey_of_zero (hb : s.view.InBounds 25 80) (hcol : s.cursorX.toNat = 0) : s.eraseKey.offset = s.offset := by
  have hshows := s.shows_view.foldl_putchar hb [8,32,8]
  rw [feed_eraseKey,hb.erase_first hcol (by decide)] at hshows
  exact hshows.offset_eq

end CursorState
end Echo

section Steps
variable {tty u : Tty} {c : UInt8}

/-- What a key that edits the line can do. -/
inductive Tty.Edit (tty u : Tty) (c : UInt8) : Prop
  | typed (hc : IsPrintable c) (hlt : tty.terminal.pos < 255) (pos : u.terminal.pos = tty.terminal.pos+1)
      (line : u.terminal.line = tty.terminal.line ++ [c]) (console : u.console = tty.console.cursorPutchar c)
  | erased (hc : IsBackspace c) (pos : tty.terminal.pos = u.terminal.pos+1)
      (line : u.terminal.line = tty.terminal.line.dropLast) (console : u.console = tty.console.eraseKey)
  | ignored (same : u = tty) (hfull : IsPrintable c → 255 ≤ tty.terminal.pos)
      (hempty : IsBackspace c → tty.terminal.pos = 0)

lemma Terminal.line_insert (t : Terminal) (c : UInt8) (h : t.pos < 255) : (t.insert c).1.line = t.line ++ [c] := by
  have hlen : t.pos < t.buf.toList.length := by simpa using t.pos_lt
  simp only [Terminal.insert,dif_pos h,Terminal.line,List.Vector.toList_set]
  rw [List.take_succ_eq_append_getElem (by simpa using hlen),List.take_set_of_le le_rfl,List.getElem_set_self]

lemma Terminal.line_backspace (t : Terminal) (h : 0 < t.pos) : t.backspace.1.line = t.line.dropLast := by
  have hlen := t.pos_le
  simp only [Terminal.backspace,if_pos h,Terminal.line,List.Vector.toList_set]
  rw [List.take_set_of_le le_rfl,List.dropLast_take]
  simpa using t.pos_lt

lemma Tty.edit_edit (tty : Tty) (hc : IsEditKey c) : tty.Edit (tty.edit c) c := by
  rcases hc with hc | hc
  · have hedit : tty.edit c = ⟨tty.terminal.backspace.1,tty.console.display tty.terminal.backspace.2⟩ := by
      simp only [Tty.edit,if_pos hc]
    by_cases hpos : 0 < tty.terminal.pos
    · rw [hedit]
      apply Tty.Edit.erased hc
      · simp only [Terminal.backspace,if_pos hpos]
        omega
      · exact tty.terminal.line_backspace hpos
      · simp only [Terminal.backspace,if_pos hpos]
        rfl
    · apply Tty.Edit.ignored
      · simp only [hedit,Terminal.backspace,if_neg hpos]
        rfl
      · exact fun hp => absurd hc hp.not_backspace
      · exact fun _ => Nat.eq_zero_of_not_pos hpos
  · have hedit : tty.edit c = ⟨(tty.terminal.insert c).1,tty.console.display (tty.terminal.insert c).2⟩ := by
      simp only [Tty.edit,if_neg hc.not_backspace]
    by_cases hlt : tty.terminal.pos < 255
    · rw [hedit]
      apply Tty.Edit.typed hc hlt
      · simp only [Terminal.insert,dif_pos hlt]
      · exact tty.terminal.line_insert c hlt
      · simp only [Terminal.insert,dif_pos hlt]
        rfl
    · apply Tty.Edit.ignored
      · simp only [hedit,Terminal.insert,dif_neg hlt]
        rfl
      · exact fun _ => Nat.le_of_not_lt hlt
      · exact fun hb => absurd hb hc.not_backspace

variable {s₀ : ℕ} {cells : ℕ → Prop}

/-- The screen shows the line from offset `s₀` on, with the cursor behind it, and the other `cells` are blank. -/
structure Tty.Echoed (s₀ : ℕ) (cells : ℕ → Prop) (u : Tty) : Prop where
  offset : u.console.offset = s₀+u.terminal.pos
  line : (List.range u.terminal.pos).map (fun j => u.console.char (s₀+j)) = u.terminal.line
  blank : ∀ i, cells i → s₀+u.terminal.pos ≤ i → u.console.char i = 32

lemma Tty.Edit.inBounds (h : tty.Edit u c) (hb : tty.console.view.InBounds 25 80) :
    u.console.view.InBounds 25 80 := by
  have hputs : ∀ str : List UInt8, (str.foldl CursorState.cursorPutchar tty.console).view.InBounds 25 80 :=
    fun str => (tty.console.shows_view.foldl_putchar hb str).view_inBounds
      (List.foldlRecOn str _ hb fun _ ht c _ => feed_inBounds ht tty.console.color c)
  cases h with
  | typed hc hlt pos line console => exact console ▸ hputs [c]
  | erased hc pos line console => exact console ▸ hputs [8,32,8]
  | ignored same => exact same ▸ hb

/-- Once the cursor is ahead of the line it stays ahead, also when the screen scrolls. -/
lemma Tty.Edit.ahead (h : tty.Edit u c) (hb : tty.console.view.InBounds 25 80) (hroom : s₀+u.terminal.pos < 80*24)
    (hahead : s₀+tty.terminal.pos < tty.console.offset) : s₀+u.terminal.pos < u.console.offset := by
  have hlt := CursorState.offset_lt hb
  cases h with
  | typed hc _ pos _ console =>
    rw [console]
    by_cases hlast : tty.console.offset+1 < 2000
    · rw [(CursorState.putchar_printable hb hc hlast).1]
      omega
    · rw [CursorState.putchar_printable_last hb hc (by omega)]
      exact hroom
  | erased _ pos _ console =>
    rw [console]
    rcases Nat.eq_zero_or_pos tty.console.cursorX.toNat with hcol | hcol
    · rw [CursorState.eraseKey_of_zero hb hcol]
      omega
    · have := (CursorState.eraseKey_of_pos hb hcol).1
      omega
  | ignored same => exact same ▸ hahead

/-- A backspace in the first column. -/
def FirstColumn (s₀ : ℕ) (tty : Tty) (c : UInt8) : Prop :=
  IsBackspace c ∧ 0 < tty.terminal.pos ∧ (s₀+tty.terminal.pos)%80 = 0

lemma Tty.Echoed.cursorX (h : tty.Echoed s₀ cells) (hb : tty.console.view.InBounds 25 80) :
    tty.console.cursorX.toNat = (s₀+tty.terminal.pos)%80 := by
  have hcol : tty.console.cursorX.toNat < 80 := hb.col_lt
  have hoffset := h.offset
  simp only [CursorState.offset] at hoffset
  omega

/-- The line buffer gives up a byte that stays on the screen. -/
lemma Tty.Echoed.ahead (h : tty.Echoed s₀ cells) (hb : tty.console.view.InBounds 25 80) (hedit : tty.Edit u c)
    (hfirst : FirstColumn s₀ tty c) : s₀+u.terminal.pos < u.console.offset := by
  obtain ⟨hc,hpos,hcol⟩ := hfirst
  cases hedit with
  | typed hprint => exact absurd hc hprint.not_backspace
  | erased _ pos _ console =>
    rw [console,CursorState.eraseKey_of_zero hb ((h.cursorX hb).trans hcol),h.offset]
    omega
  | ignored _ _ hempty => exact absurd (hempty hc) (Nat.ne_of_gt hpos)

/-- The step lemma: one case for each thing that a key can do. -/
lemma Tty.Echoed.step (h : tty.Echoed s₀ cells) (hb : tty.console.view.InBounds 25 80) (hedit : tty.Edit u c)
    (hroom : s₀+tty.terminal.pos < 80*24) (hcells : ∀ i, cells i → i < 2000) (hfirst : ¬ FirstColumn s₀ tty c) :
    u.Echoed s₀ (fun i => cells i ∨ IsPrintable c ∧ tty.terminal.pos < 255 ∧ i = tty.console.offset) := by
  have hoffset := h.offset
  cases hedit with
  | typed hc hlt pos line console =>
    obtain ⟨hnext,hchar⟩ := CursorState.putchar_printable hb hc (by omega)
    rw [← console] at hnext hchar
    refine ⟨by omega,?_,?_⟩
    · rw [pos,List.range_succ,List.map_append,line,← h.line]
      congr 1
      · apply List.map_congr_left
        intro j hj
        have hj := List.mem_range.mp hj
        rw [hchar _ (by omega),if_neg (by omega)]
      · rw [List.map_singleton,hchar _ (by omega),if_pos hoffset.symm]
    · rintro i (hi | ⟨-,-,rfl⟩) hle
      · rw [hchar i (hcells i hi),if_neg (by omega)]
        exact h.blank i hi (by omega)
      · omega
  | erased hc pos line console =>
    have hcol : 0 < tty.console.cursorX.toNat := by
      rw [h.cursorX hb]
      exact Nat.pos_of_ne_zero fun hzero => hfirst ⟨hc,by omega,hzero⟩
    obtain ⟨hnext,hchar⟩ := CursorState.eraseKey_of_pos hb hcol
    rw [← console] at hnext hchar
    refine ⟨by omega,?_,?_⟩
    · rw [line,← h.line,pos,List.range_succ,List.map_append,List.map_singleton,List.dropLast_concat]
      apply List.map_congr_left
      intro j hj
      have hj := List.mem_range.mp hj
      rw [hchar _ (by omega),if_neg (by omega)]
    · rintro i (hi | ⟨hprint,-⟩) hle
      · rw [hchar i (hcells i hi)]
        split_ifs with hat
        · rfl
        · exact h.blank i hi (by omega)
      · exact absurd hc hprint.not_backspace
  | ignored same hfull =>
    subst same
    refine ⟨h.offset,h.line,?_⟩
    rintro i (hi | ⟨hprint,hlt,-⟩) hle
    · exact h.blank i hi hle
    · exact absurd hlt (Nat.not_lt.mpr (hfull hprint))

end Steps

section Prompt
variable {s : CursorState}

/-- Printable text and changes of the colour. -/
def IsText : CursorOp → Bool
  | .putchar c => IsPrintable c
  | .setColor _ _ => true
  | .clearScreen => false

def IsPut : CursorOp → Bool
  | .putchar _ => true
  | _ => false

/-- Text moves the cursor on by its length. -/
lemma display_text {out : Output} (hb : s.view.InBounds 25 80) (hout : ∀ op ∈ out, IsText op)
    (hroom : s.offset+out.length < 2000) :
    (s.display out).view.InBounds 25 80 ∧ (s.display out).offset = s.offset+out.countP IsPut := by
  induction out generalizing s with
  | nil => exact ⟨hb,rfl⟩
  | cons op out ih =>
    have hop := hout op List.mem_cons_self
    have hrest : ∀ op ∈ out, IsText op := fun op h => hout op (List.mem_cons_of_mem _ h)
    rw [List.length_cons] at hroom
    cases op with
    | putchar c =>
      have hc : IsPrintable c := of_decide_eq_true hop
      have hnext := (CursorState.putchar_printable hb hc (by omega)).1
      have hbounds := (s.shows_view.cursorPutchar hb c).view_inBounds (feed_inBounds hb s.color c)
      obtain ⟨hb',hoffset⟩ := ih hbounds hrest (by omega)
      refine ⟨hb',hoffset.trans ?_⟩
      rw [hnext,List.countP_cons_of_pos rfl]
      omega
    | setColor fg bg =>
      have hb' : (s.cursorSetColor fg bg).view.InBounds 25 80 := ⟨hb.row_lt,hb.col_lt⟩
      exact ih hb' hrest (Nat.lt_of_succ_lt hroom)
    | clearScreen => cases hop

lemma printPrompt_bootState : (∀ op ∈ printPrompt bootState, IsText op) ∧
    (printPrompt bootState).length = 23 ∧ (printPrompt bootState).countP IsPut = 16 := by
  rw [printPrompt,bootState_cwdText]
  decide

/-- The shell after its first prompt on a cleared screen. -/
def prompted : Tty :=
  let cleared := CursorState.cursorClearScreen ⟨fun _ => 0,[],0,0,7,0⟩
  ⟨.fresh bootState,cleared.display (printPrompt bootState)⟩

lemma prompted_cursor : prompted.console.cursorX < 80 ∧ prompted.console.offset = 16 := by
  obtain ⟨htext,hlen,hcount⟩ := printPrompt_bootState
  have hclear := CursorState.shows_cursorClearScreen ⟨fun _ => 0,[],0,0,7,0⟩
  have hzero := hclear.offset_eq
  obtain ⟨hb,hoffset⟩ := display_text (hclear.view_inBounds ⟨by decide,by decide⟩) htext (by rw [hzero,hlen]; decide)
  exact ⟨CursorState.cursorX_lt hb,by rw [prompted,hoffset,hzero,hcount]; rfl⟩

end Prompt

section Runs
variable {fuel : ℕ} {tty u : Tty} {keys : List UInt8} {c : UInt8}

/-- The terminal and the screen after some keys. -/
def Tty.typed (fuel : ℕ) (tty : Tty) (keys : List UInt8) : Option Tty := keys.foldlM (Tty.press fuel) tty

/-- The cells in which one of the keys has been typed. -/
def Tty.TypedInto (fuel : ℕ) (tty : Tty) (keys : List UInt8) (i : ℕ) : Prop :=
  ∃ pre c u, pre ++ [c] <+: keys ∧ tty.typed fuel pre = some u ∧
    IsPrintable c ∧ u.terminal.pos < 255 ∧ i = u.console.offset

/-- What is typed is what is seen. -/
def Tty.Seen (fuel : ℕ) (tty : Tty) (keys : List UInt8) (u : Tty) : Prop :=
  u.Echoed tty.console.offset (tty.TypedInto fuel keys)

/-- The line does not reach the last row. -/
def Tty.Roomy (fuel : ℕ) (tty : Tty) (keys : List UInt8) : Prop :=
  ∀ pre u, pre <+: keys → tty.typed fuel pre = some u → tty.console.offset+u.terminal.pos < 80*24

/-- No backspace erases over the edge of a row. -/
def Tty.WithinRows (fuel : ℕ) (tty : Tty) (keys : List UInt8) : Prop :=
  ∀ pre c u, pre ++ [c] <+: keys → tty.typed fuel pre = some u → ¬ FirstColumn tty.console.offset u c

lemma Tty.typed_concat (hu : tty.typed fuel keys = some u) (hc : IsEditKey c) :
    tty.typed fuel (keys ++ [c]) = some (u.edit c) := by
  rw [Tty.typed] at hu ⊢
  rw [List.foldlM_append,hu]
  simp [press_eq_edit fuel u hc]

lemma concat_prefix_concat {pre : List UInt8} {d : UInt8} :
    pre ++ [d] <+: keys ++ [c] ↔ (pre = keys ∧ d = c) ∨ pre ++ [d] <+: keys := by
  rw [List.prefix_concat_iff,← List.concat_eq_append,← List.concat_eq_append,List.concat_inj]

lemma Tty.typedInto_concat (hu : tty.typed fuel keys = some u) (i : ℕ) : tty.TypedInto fuel (keys ++ [c]) i ↔
    tty.TypedInto fuel keys i ∨ IsPrintable c ∧ u.terminal.pos < 255 ∧ i = u.console.offset := by
  constructor
  · rintro ⟨pre,d,v,hpre,hv,htyped⟩
    rcases concat_prefix_concat.mp hpre with ⟨rfl,rfl⟩ | hpre
    · obtain rfl := Option.some.inj (hu.symm.trans hv)
      exact .inr htyped
    · exact .inl ⟨pre,d,v,hpre,hv,htyped⟩
  · rintro (⟨pre,d,v,hpre,hv,htyped⟩ | htyped)
    · exact ⟨pre,d,v,hpre.trans (List.prefix_append _ _),hv,htyped⟩
    · exact ⟨keys,c,u,List.prefix_rfl,hu,htyped⟩

lemma Tty.withinRows_concat (hu : tty.typed fuel keys = some u) : tty.WithinRows fuel (keys ++ [c]) ↔
    tty.WithinRows fuel keys ∧ ¬ FirstColumn tty.console.offset u c := by
  constructor
  · intro h
    exact ⟨fun pre d v hpre => h pre d v (hpre.trans (List.prefix_append _ _)),h keys c u List.prefix_rfl hu⟩
  · rintro ⟨hkeys,hlast⟩ pre d v hpre hv
    rcases concat_prefix_concat.mp hpre with ⟨rfl,rfl⟩ | hpre
    · exact Option.some.inj (hu.symm.trans hv) ▸ hlast
    · exact hkeys pre d v hpre hv

lemma Tty.Roomy.of_concat (h : tty.Roomy fuel (keys ++ [c])) : tty.Roomy fuel keys :=
  fun pre v hpre => h pre v (hpre.trans (List.prefix_append _ _))

/-- What holds after some keys: the line is seen, or the cursor is ahead of it. -/
structure Tty.Run (fuel : ℕ) (tty : Tty) (keys : List UInt8) (u : Tty) : Prop where
  typed : tty.typed fuel keys = some u
  inBounds : u.console.view.InBounds 25 80
  typedInto_lt : ∀ i, tty.TypedInto fuel keys i → i < 2000
  seen : tty.WithinRows fuel keys → tty.Seen fuel keys u
  ahead : ¬ tty.WithinRows fuel keys → tty.console.offset+u.terminal.pos < u.console.offset

lemma Tty.Run.step (h : tty.Run fuel keys u) (hc : IsEditKey c) (hroom : tty.Roomy fuel (keys ++ [c])) :
    tty.Run fuel (keys ++ [c]) (u.edit c) := by
  have hedit := u.edit_edit hc
  have htyped := typed_concat h.typed hc
  have hinto := fun i => typedInto_concat (c := c) h.typed i
  have hnext := hroom _ _ List.prefix_rfl htyped
  refine ⟨htyped,hedit.inBounds h.inBounds,?_,?_,?_⟩
  · intro i hi
    rcases (hinto i).mp hi with hi | ⟨-,-,rfl⟩
    · exact h.typedInto_lt i hi
    · exact CursorState.offset_lt h.inBounds
  · intro hrows
    obtain ⟨hkeys,hlast⟩ := (withinRows_concat h.typed).mp hrows
    have hbefore := hroom.of_concat _ _ List.prefix_rfl h.typed
    have hstep := (h.seen hkeys).step h.inBounds hedit hbefore h.typedInto_lt hlast
    exact ⟨hstep.offset,hstep.line,fun i hi => hstep.blank i ((hinto i).mp hi)⟩
  · intro hrows
    by_cases hkeys : tty.WithinRows fuel keys
    · apply (h.seen hkeys).ahead h.inBounds hedit
      by_contra hlast
      exact hrows ((withinRows_concat h.typed).mpr ⟨hkeys,hlast⟩)
    · exact hedit.ahead h.inBounds hnext (h.ahead hkeys)

lemma Tty.run (hempty : tty.terminal.pos = 0) (hcol : tty.console.cursorX < 80)
    (hkeys : ∀ c ∈ keys, IsEditKey c) (hroom : tty.Roomy fuel keys) : ∃ u, tty.Run fuel keys u := by
  induction keys using List.reverseRecOn with
  | nil =>
    have hstart := hroom [] tty List.prefix_rfl rfl
    have hx : tty.console.cursorX.toNat < 80 := hcol
    have hrow : tty.console.cursorY.toNat < 25 := by
      simp only [CursorState.offset] at hstart
      omega
    have hnone : ∀ pre (c : UInt8), ¬ pre ++ [c] <+: [] := by simp
    refine ⟨tty,rfl,⟨hrow,hx⟩,?_,?_,?_⟩
    · rintro i ⟨pre,c,u,hpre,-⟩
      exact absurd hpre (hnone pre c)
    · intro _
      refine ⟨by rw [hempty,Nat.add_zero],by simp [Terminal.line,hempty],?_⟩
      rintro i ⟨pre,c,u,hpre,-⟩
      exact absurd hpre (hnone pre c)
    · intro hrows
      exact absurd (fun pre c u hpre => absurd hpre (hnone pre c)) hrows
  | append_singleton keys c ih =>
    obtain ⟨u,hu⟩ := ih (fun d hd => hkeys d (List.mem_append_left _ hd)) hroom.of_concat
    exact ⟨u.edit c,hu.step (hkeys c (by simp)) hroom⟩

/-- A key adds at most one byte. -/
lemma Tty.Edit.pos_le {v : Tty} (h : u.Edit v c) : v.terminal.pos ≤ u.terminal.pos+1 := by
  cases h with
  | typed _ _ pos => exact Nat.le_of_eq pos
  | erased _ pos => omega
  | ignored same => exact same ▸ Nat.le_succ _

lemma Tty.pos_typed_le (hkeys : ∀ c ∈ keys, IsEditKey c) (hu : tty.typed fuel keys = some u) :
    u.terminal.pos ≤ tty.terminal.pos+keys.length := by
  induction keys generalizing tty with
  | nil => exact Option.some.inj hu ▸ Nat.le_refl _
  | cons c keys ih =>
    have hc := hkeys c List.mem_cons_self
    rw [Tty.typed,List.foldlM_cons,press_eq_edit fuel tty hc] at hu
    have hrest := ih (fun d hd => hkeys d (List.mem_cons_of_mem c hd)) hu
    have hstep := (tty.edit_edit hc).pos_le
    rw [List.length_cons]
    omega

lemma Tty.roomy_of_length (hempty : tty.terminal.pos = 0) (hkeys : ∀ c ∈ keys, IsEditKey c)
    (hlen : tty.console.offset+keys.length < 80*24) : tty.Roomy fuel keys := by
  intro pre u hpre hu
  have hpos := pos_typed_le (fun c hc => hkeys c (hpre.subset hc)) hu
  have hle := hpre.length_le
  omega

lemma Tty.typed_replicate (hc : IsPrintable c) {n : ℕ} (hn : tty.terminal.pos+n ≤ 255) :
    ∃ u, tty.typed fuel (List.replicate n c) = some u ∧ u.terminal.pos = tty.terminal.pos+n := by
  induction n with
  | zero => exact ⟨tty,rfl,rfl⟩
  | succ n ih =>
    obtain ⟨u,hu,hpos⟩ := ih (Nat.le_of_succ_le hn)
    rw [List.replicate_succ']
    refine ⟨u.edit c,typed_concat hu (.inr hc),?_⟩
    cases u.edit_edit (.inr hc) with
    | typed _ _ pos => rw [pos,hpos]; rfl
    | erased hback => exact absurd hback hc.not_backspace
    | ignored _ hfull =>
      have := hfull hc
      omega

/-- Typing is echoed faithfully if and only if no backspace erases over the edge of a row. -/
theorem typed_seen_iff (fuel : ℕ) (tty : Tty) (keys : List UInt8) (hempty : tty.terminal.pos = 0)
    (hcol : tty.console.cursorX < 80) (hkeys : ∀ c ∈ keys, IsEditKey c) (hroom : tty.Roomy fuel keys) :
    ∃ u, tty.typed fuel keys = some u ∧ (tty.Seen fuel keys u ↔ tty.WithinRows fuel keys) := by
  obtain ⟨u,hu⟩ := Tty.run hempty hcol hkeys hroom
  refine ⟨u,hu.typed,fun hseen => ?_,hu.seen⟩
  by_contra hrows
  exact absurd hseen.offset (Nat.ne_of_gt (hu.ahead hrows))

/-- At the first prompt: a byte and a backspace. -/
theorem typed_seen_iff_erased : ∃ u, prompted.typed 0 [97,127] = some u ∧
    (prompted.Seen 0 [97,127] u ↔ prompted.WithinRows 0 [97,127]) := by
  have hkeys : ∀ c ∈ [97,127], IsEditKey c := by simp [IsEditKey,IsBackspace,IsPrintable]
  have hroom : prompted.Roomy 0 [97,127] := Tty.roomy_of_length rfl hkeys (by rw [prompted_cursor.2]; decide)
  exact typed_seen_iff 0 prompted [97,127] rfl prompted_cursor.1 hkeys hroom

/-- The first prompt ends in column 16. The 64th byte fills the row, and the backspace after it takes the
byte out of the line but leaves it and the cursor where they are. -/
theorem typed_not_seen : ∃ keys, (∀ c ∈ keys, IsEditKey c) ∧ prompted.Roomy 0 keys ∧
    ∃ u, prompted.typed 0 keys = some u ∧ ¬ prompted.Seen 0 keys u := by
  have hprint : IsPrintable 97 := by decide
  have hkeys : ∀ c ∈ List.replicate 64 97 ++ [127], IsEditKey c := by
    intro c hc
    rcases List.mem_append.mp hc with hc | hc
    · exact List.eq_of_mem_replicate hc ▸ .inr hprint
    · exact List.mem_singleton.mp hc ▸ .inl (.inl rfl)
  have hroom : prompted.Roomy 0 (List.replicate 64 97 ++ [127]) :=
    Tty.roomy_of_length rfl hkeys (by rw [prompted_cursor.2]; decide)
  obtain ⟨u,hu⟩ := Tty.run rfl prompted_cursor.1 hkeys hroom
  obtain ⟨v,hv,hpos⟩ : ∃ v, prompted.typed 0 (List.replicate 64 97) = some v ∧
      v.terminal.pos = prompted.terminal.pos+64 := Tty.typed_replicate hprint (by decide)
  refine ⟨_,hkeys,hroom,u,hu.typed,fun hseen => ?_⟩
  have hrows : ¬ prompted.WithinRows 0 (List.replicate 64 97 ++ [127]) := by
    intro hrows
    apply hrows _ _ v List.prefix_rfl hv
    refine ⟨.inl rfl,?_,?_⟩
    · rw [hpos]
      decide
    · rw [hpos,prompted_cursor.2]
      rfl
  exact absurd hseen.offset (Nat.ne_of_gt (hu.ahead hrows))

end Runs
end Linuxab.Console
