import Linuxab.Base.Slice

/-!
The widgets of `graphics.d` as far as they answer to the mouse and the keyboard.  Drawing only reads
them, so colours, labels and the hover marks are left out; bounds that `init_ui` sets once are
parameters.
-/

namespace Linuxab.AppStore
open Linuxab.Base

structure Rect where
  x : ℤ
  y : ℤ
  w : ℤ
  h : ℤ

/-- `g_mx`, `g_my` and `g_mdown`. -/
structure Mouse where
  x : ℤ
  y : ℤ
  down : Bool

def Rect.contains (r : Rect) (m : Mouse) : Bool :=
  decide (r.x ≤ m.x ∧ m.x < r.x+r.w ∧ r.y ≤ m.y ∧ m.y < r.y+r.h)

/-- A button fires when the mouse is released over it. -/
def buttonUpdate (visible : Bool) (bounds : Rect) (m : Mouse) : Bool :=
  visible && bounds.contains m && !m.down

/-! ## Texts in arrays -/

def nul : Char := Char.ofNat 0

/-- A character array holds the text before its first NUL. -/
def cText (s : List Char) : List Char := s.takeWhile (· ≠ nul)

section Texts
variable {n k : ℕ} {v : List.Vector Char n} {s : List Char}

theorem nul_not_mem_cText (s : List Char) : nul ∉ cText s := by
  intro h
  simpa using List.mem_takeWhile_imp h

theorem cText_append_nul (h : nul ∉ s) (t : List Char) : cText (s ++ nul::t) = s := by
  have hs : ∀ c ∈ s, decide (c ≠ nul) = true := by
    intro c hc
    rw [decide_eq_true_eq]
    rintro rfl
    exact h hc
  rw [cText,List.takeWhile_append_of_pos hs,List.takeWhile_cons_of_neg (by simp),List.append_nil]

/-- The first `k` characters are the text in the array. -/
def Terminated (v : List.Vector Char n) (k : ℕ) : Prop := cText v.toList = v.toList.take k

theorem terminated_blit (hk : k+[nul].length ≤ n) (h : nul ∉ v.toList.take k) :
    Terminated (blit v k [nul] hk) k := by
  have hlen : (v.toList.take k).length = k := by
    rw [List.length_take,List.Vector.toList_length]
    simp at hk
    omega
  rw [Terminated,toList_blit,List.append_assoc,List.take_left' hlen]
  exact cText_append_nul h _

theorem Terminated.nul_not_mem (h : Terminated v k) : nul ∉ v.toList.take k := by
  rw [← h]
  exact nul_not_mem_cText _

end Texts

/-! ## The search field -/

/-- The text of `len` characters ends where the array has its first NUL. -/
structure InputField where
  text : List.Vector Char 256
  len : ℕ
  active : Bool
  changed : Bool
  len_le : len ≤ 255
  terminated : Terminated text len

namespace InputField

def click (f : InputField) (bounds : Rect) (m : Mouse) : InputField :=
  if m.down then { f with active := bounds.contains m } else f

section Bounds
variable (f : InputField)

theorem erase_le : f.len-1 ≤ 255 := (Nat.sub_le _ _).trans f.len_le
theorem erase_fits : f.len-1+[nul].length ≤ 256 := Nat.succ_le_succ f.erase_le

theorem erased : Terminated (blit f.text (f.len-1) [nul] f.erase_fits) (f.len-1) := by
  apply terminated_blit
  intro h
  have hsub : f.text.toList.take (f.len-1) <+: f.text.toList.take f.len :=
    List.take_prefix_take_left (Nat.sub_le _ _)
  exact f.terminated.nul_not_mem (hsub.subset h)

variable {f} {ch : Char}

theorem append_fits (f : InputField) (ch : Char) : f.len+[ch].length ≤ 256 := Nat.succ_le_succ f.len_le
theorem append_end_fits (h : f.len < 255) : f.len+1+[nul].length ≤ 256 := Nat.succ_le_succ h

theorem appended (h : f.len < 255) (hch : ch ≠ nul) :
    Terminated (blit (blit f.text f.len [ch] (append_fits f ch)) (f.len+1) [nul] (append_end_fits h)) (f.len+1) := by
  apply terminated_blit
  rw [take_blit f.text (append_fits f ch) (by simp),List.mem_append,List.mem_singleton,not_or]
  exact ⟨f.terminated.nul_not_mem,Ne.symm hch⟩

theorem empty_le : 0 ≤ 255 := Nat.zero_le _
theorem empty_fits : 0+[nul].length ≤ 256 := by decide

theorem cleared (v : List.Vector Char 256) : Terminated (blit v 0 [nul] empty_fits) 0 :=
  terminated_blit _ (by simp)

end Bounds

/-- Printable characters that `inputfield_type` takes. -/
def printable (ch : Char) : Bool := decide (32 ≤ ch.toNat ∧ ch.toNat < 127)

theorem ne_nul_of_printable {ch : Char} (h : printable ch = true) : ch ≠ nul := by
  rintro rfl
  exact absurd h (by decide)

/-- `inputfield_type`: 8 and 127 erase the last character. -/
def type (f : InputField) (ch : Char) : InputField :=
  if f.active then
    if ch.toNat = 8 ∨ ch.toNat = 127 then
      { f with
        len := f.len-1
        text := blit f.text (f.len-1) [nul] f.erase_fits
        changed := true
        len_le := f.erase_le
        terminated := f.erased }
    else if h : printable ch = true ∧ f.len < 255 then
      { f with
        text := blit (blit f.text f.len [ch] (append_fits f ch)) (f.len+1) [nul] (append_end_fits h.2)
        len := f.len+1
        changed := true
        len_le := h.2
        terminated := appended h.2 (ne_nul_of_printable h.1) }
    else f
  else f

def clear (f : InputField) : InputField :=
  { f with
    len := 0
    text := blit f.text 0 [nul] empty_fits
    changed := true
    len_le := empty_le
    terminated := cleared f.text }

/-- The field of `init_ui`; the globals are zero before it. -/
def init : InputField where
  text := blit (List.Vector.replicate 256 nul) 0 [nul] empty_fits
  len := 0
  active := false
  changed := false
  len_le := empty_le
  terminated := cleared _

/-- The text that is searched for. -/
def searchText (f : InputField) : List Char := f.text.toList.take f.len

end InputField

/-! ## The list and the tabs -/

structure ScrollList where
  scrollY : ℤ
  itemCount : ℤ
  selected : ℤ

/-- `scrolllist_click` on the list of `init_ui`, which stays visible. -/
def ScrollList.click (l : ScrollList) (bounds : Rect) (itemH : ℤ) (m : Mouse) : ScrollList :=
  if m.down && bounds.contains m then
    let idx := (m.y-bounds.y+l.scrollY).tdiv itemH
    if 0 ≤ idx ∧ idx < l.itemCount then { l with selected := idx } else l
  else l

/-- The index that `tabbar_click` makes active. -/
def tabbarClick (bounds : Rect) (count : ℤ) (m : Mouse) : Option ℤ :=
  if m.down && bounds.contains m then
    let idx := (m.x-bounds.x).tdiv (bounds.w.tdiv count)
    if 0 ≤ idx ∧ idx < count then some idx else none
  else none

end Linuxab.AppStore
