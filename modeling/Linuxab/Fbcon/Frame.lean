import Linuxab.Fbcon.Console

/-! The frame buffer as a table of words. A drawn character is a block of pixels, and scrolling moves them by
16 rows. -/
namespace Linuxab.Fbcon
open Linuxab.Base
variable {con con' : Fbcon}

section Frame

/-- What `fbcon_init` sets up for a frame buffer of less than 4 GiB. -/
structure Geometry (con : Fbcon) : Prop where
  charW : con.charW = 8
  charH : con.charH = 16
  cols : con.cols = con.width/8
  rows : con.rows = con.height/16
  width_ge : 8 ≤ con.width.toNat
  height_ge : 16 ≤ con.height.toNat
  pitch_ge : 4*con.width.toNat ≤ con.pitch.toNat
  pitch_mod : con.pitch.toNat%4 = 0
  size_lt : con.height.toNat*con.pitch.toNat < 2^32

/-- The words of a line. -/
def stride (con : Fbcon) : ℕ := con.pitch.toNat/4

def pixel (con : Fbcon) (y x : ℕ) : UInt32 := load32 con.memory (y*con.pitch.toNat+4*x)

/-- Every byte written so far is one of the frame. -/
def Bounded (con : Fbcon) : Prop := ∀ a ∈ con.written, a < con.height.toNat*con.pitch.toNat

/-- Everything but the memory and the cursor. -/
def frame (con : Fbcon) : Fbcon := { con with memory := fun _ => 0, written := [], cursorX := 0, cursorY := 0 }

section Frames
variable (h : con'.frame = con.frame)
include h

lemma height_of_frame : con'.height = con.height := (congrArg Fbcon.height h : _)
lemma width_of_frame : con'.width = con.width := (congrArg Fbcon.width h : _)
lemma rows_of_frame : con'.rows = con.rows := (congrArg Fbcon.rows h : _)
lemma cols_of_frame : con'.cols = con.cols := (congrArg Fbcon.cols h : _)
lemma stride_of_frame : con'.stride = con.stride := (congrArg stride h : _)

lemma Geometry.of_frame (hg : con.Geometry) : con'.Geometry := by
  have hframe : con.frame.Geometry :=
    ⟨hg.charW,hg.charH,hg.cols,hg.rows,hg.width_ge,hg.height_ge,hg.pitch_ge,hg.pitch_mod,hg.size_lt⟩
  rw [← h] at hframe
  exact ⟨hframe.charW,hframe.charH,hframe.cols,hframe.rows,hframe.width_ge,hframe.height_ge,hframe.pitch_ge,
    hframe.pitch_mod,hframe.size_lt⟩

end Frames

lemma Geometry.pitch_eq (h : con.Geometry) : con.pitch.toNat = 4*con.stride := by
  have := h.pitch_mod
  simp only [stride]
  omega

lemma Geometry.width_le (h : con.Geometry) : con.width.toNat ≤ con.stride := by
  have hge := h.pitch_ge
  rw [h.pitch_eq] at hge
  omega

lemma Geometry.toNat_cols (h : con.Geometry) : con.cols.toNat = con.width.toNat/8 := by
  rw [h.cols,UInt32.toNat_div]
  rfl

lemma Geometry.toNat_rows (h : con.Geometry) : con.rows.toNat = con.height.toNat/16 := by
  rw [h.rows,UInt32.toNat_div]
  rfl

lemma Geometry.size_eq (h : con.Geometry) : con.height.toNat*con.pitch.toNat = 4*(con.height.toNat*con.stride) := by
  rw [h.pitch_eq,Nat.mul_left_comm]

lemma Geometry.pixel_eq (h : con.Geometry) (y x : ℕ) : con.pixel y x = words con.memory (y*con.stride+x) := by
  rw [pixel,words,h.pitch_eq,Nat.mul_add,Nat.mul_left_comm]

lemma Geometry.mul_pitch_lt (h : con.Geometry) {y : ℕ} (hy : y ≤ con.height.toNat) : y*con.pitch.toNat < 2^32 :=
  Nat.lt_of_le_of_lt (Nat.mul_le_mul_right _ hy) h.size_lt

lemma Geometry.address_eq (h : con.Geometry) {y x : UInt32} (hy : y.toNat < con.height.toNat)
    (hx : x.toNat < con.width.toNat) : con.address y x = 4*(y.toNat*con.stride+x.toNat) := by
  have hfour : (4 : UInt32).toNat = 4 := rfl
  have hrow := h.mul_pitch_lt (Nat.le_of_lt hy)
  have hline := h.mul_pitch_lt (Nat.le_of_lt (Nat.lt_of_lt_of_le (by decide) h.height_ge) : 1 ≤ _)
  have hge := h.pitch_ge
  rw [address,UInt32.toNat_mul,UInt32.toNat_mul,Nat.mod_eq_of_lt hrow,hfour,Nat.mod_eq_of_lt (by omega),h.pitch_eq,
    Nat.mul_add,Nat.mul_left_comm,Nat.mul_comm 4 x.toNat]

variable {κ : Type} {l : List κ} {dst idx : κ → ℕ} {color : κ → UInt32}

lemma paint_frame : (paint l dst color con).frame = con.frame := by
  rw [paint_eq]
  rfl

lemma memcpy_frame (con : Fbcon) (d n : ℕ) : (con.memcpy 0 d n).frame = con.frame := by
  rw [memcpy_eq]
  rfl

/-- A loop of stores to words of the frame. -/
lemma Geometry.bounded_paint (h : con.Geometry) (hb : con.Bounded) (hdst : ∀ k ∈ l, dst k = 4*idx k)
    (hidx : ∀ k ∈ l, idx k < con.height.toNat*con.stride) : (paint l dst color con).Bounded := by
  intro a ha
  rw [paint_eq,List.mem_append,List.mem_flatMap] at ha
  rw [paint_eq]
  rcases ha with ha | ⟨k,hk,ha⟩
  · exact hb a ha
  · have hsize := h.size_eq
    have hd := hdst k hk
    have hi := hidx k hk
    simp only [List.mem_cons,List.not_mem_nil,or_false] at ha
    simp only
    omega

lemma words_paint (hdst : ∀ k ∈ l, dst k = 4*idx k) :
    words (paint l dst color con).memory = sweep idx (fun _ k => color k) l (words con.memory) := by
  rw [paint_eq]
  exact words_foldl_store32 hdst

end Frame

section Block
variable (r₀ c₀ n m : ℕ) {dst : ℕ × ℕ → ℕ} (color : ℕ × ℕ → UInt32)

/-- Painting a block of pixels. -/
lemma Geometry.paint_block (h : con.Geometry) (hb : con.Bounded) (hr : r₀+n ≤ con.height.toNat)
    (hc : c₀+m ≤ con.width.toNat)
    (hdst : ∀ p, p.1 < n → p.2 < m → dst p = 4*((r₀+p.1)*con.stride+(c₀+p.2))) :
    (paint (List.range n ×ˢ List.range m) dst color con).Bounded ∧ ∀ y x, x < con.width.toNat →
      (paint (List.range n ×ˢ List.range m) dst color con).pixel y x
        = if (r₀ ≤ y ∧ y < r₀+n) ∧ c₀ ≤ x ∧ x < c₀+m then color (y-r₀,x-c₀) else con.pixel y x := by
  have hw := h.width_le
  have hmem : ∀ p ∈ List.range n ×ˢ List.range m, p.1 < n ∧ p.2 < m := by
    intro p hp
    exact ⟨List.mem_range.mp (List.mem_product.mp hp).1,List.mem_range.mp (List.mem_product.mp hp).2⟩
  have hdst' : ∀ p ∈ List.range n ×ˢ List.range m, dst p = 4*((r₀+p.1)*con.stride+(c₀+p.2)) :=
    fun p hp => hdst p (hmem p hp).1 (hmem p hp).2
  constructor
  · apply h.bounded_paint hb hdst'
    intro p hp
    obtain ⟨h₁,h₂⟩ := hmem p hp
    exact rowMajor_lt (by omega) (by omega)
  · intro y x hx
    rw [(h.of_frame paint_frame).pixel_eq,stride_of_frame paint_frame,words_paint hdst',
      sweep_block _ color (by omega) (by omega),h.pixel_eq]

end Block

section Scroll

lemma Geometry.toNat_lineSize (h : con.Geometry) : (con.charH*con.pitch).toNat = 4*(16*con.stride) := by
  have hsixteen : (16 : UInt32).toNat = 16 := rfl
  have hlt := h.mul_pitch_lt h.height_ge
  rw [h.charH,UInt32.toNat_mul,hsixteen,Nat.mod_eq_of_lt hlt,h.pitch_eq,Nat.mul_left_comm]

lemma Geometry.toNat_moveSize (h : con.Geometry) :
    ((con.height-con.charH)*con.pitch).toNat = 4*((con.height.toNat-16)*con.stride) := by
  have hle : (16 : UInt32) ≤ con.height := h.height_ge
  have hlt := h.mul_pitch_lt (Nat.sub_le con.height.toNat 16)
  have hsub : (con.height-16).toNat = con.height.toNat-16 := UInt32.toNat_sub_of_le _ _ hle
  rw [h.charH,UInt32.toNat_mul,hsub,Nat.mod_eq_of_lt hlt,h.pitch_eq,Nat.mul_left_comm]

/-- The words that the move copies, and the words that are cleared after it. -/
lemma Geometry.fbconScroll_eq (h : con.Geometry) : con.fbconScroll =
    { paint (List.range (16*con.stride)) (fun k => 4*((con.height.toNat-16)*con.stride)+4*k) (fun _ => con.bgColor)
        (con.memcpy 0 (4*(16*con.stride)) (4*((con.height.toNat-16)*con.stride))) with
      cursorY := con.rows-1, cursorX := 0 } := by
  have hcount : (4*(16*con.stride)+3)/4 = 16*con.stride := by omega
  simp only [fbconScroll,h.toNat_lineSize,h.toNat_moveSize,hcount,memcpy_eq,paint_eq]

/-- A loop leaves the frame with the words `f`. -/
structure Leaves (con con' : Fbcon) (f : ℕ → UInt32) : Prop where
  frame : con'.frame = con.frame
  bounded : con'.Bounded
  words_eq : ∀ k, words con'.memory k = f k

lemma Geometry.memcpy_leaves (h : con.Geometry) (hb : con.Bounded) (d : ℕ) {n : ℕ}
    (hn : n ≤ con.height.toNat*con.stride) : con.Leaves (con.memcpy 0 (4*d) (4*n)) fun k =>
      if k < n then words con.memory (k+d) else words con.memory k := by
  refine ⟨con.memcpy_frame _ _,?_,?_⟩
  · intro a ha
    have hsize := h.size_eq
    rw [memcpy_eq] at ha ⊢
    rcases List.mem_append.mp ha with ha | ha
    · exact hb a ha
    · have := List.mem_range.mp ha
      simp only
      omega
  · rw [memcpy_eq]
    exact words_shift n d

lemma Geometry.paint_leaves (h : con.Geometry) (hb : con.Bounded) (v : UInt32) {a n : ℕ}
    (hn : a+n ≤ con.height.toNat*con.stride) :
    con.Leaves (paint (List.range n) (fun k => 4*a+4*k) (fun _ => v) con) fun k =>
      if a ≤ k ∧ k < a+n then v else words con.memory k := by
  have hdst : ∀ k ∈ List.range n, 4*a+4*k = 4*(a+k) := fun k _ => (Nat.mul_add 4 a k).symm
  refine ⟨paint_frame,?_,fun k => ?_⟩
  · apply h.bounded_paint hb hdst
    intro k hk
    have := List.mem_range.mp hk
    omega
  · rw [words_paint hdst,← sweep_fill_range (words con.memory) a n v k,List.range'_eq_map_range,sweep_map]
    rfl

lemma Geometry.scroll_leaves (h : con.Geometry) (hb : con.Bounded) : con.Leaves con.fbconScroll fun k =>
    if (con.height.toNat-16)*con.stride ≤ k ∧ k < con.height.toNat*con.stride then con.bgColor
    else if k < (con.height.toNat-16)*con.stride then words con.memory (k+16*con.stride) else words con.memory k := by
  have hsize : (con.height.toNat-16)*con.stride+16*con.stride = con.height.toNat*con.stride := by
    rw [← Nat.add_mul,Nat.sub_add_cancel h.height_ge]
  have hmove := h.memcpy_leaves hb (16*con.stride) (Nat.le.intro hsize)
  have hclear := (h.of_frame hmove.frame).paint_leaves hmove.bounded con.bgColor
    (a := (con.height.toNat-16)*con.stride) (n := 16*con.stride)
    (by rw [height_of_frame hmove.frame,stride_of_frame hmove.frame]; exact Nat.le_of_eq hsize)
  rw [h.fbconScroll_eq]
  refine ⟨hclear.frame.trans hmove.frame,hclear.bounded,fun k => ?_⟩
  rw [← hsize,← hmove.words_eq k]
  exact hclear.words_eq k

/-- Scrolling moves the pixels up by 16 rows and clears the last 16. -/
lemma Geometry.scroll_pixel (h : con.Geometry) (hb : con.Bounded) {y x : ℕ} (hy : y < con.height.toNat)
    (hx : x < con.width.toNat) :
    con.fbconScroll.pixel y x = if y+16 < con.height.toNat then con.pixel (y+16) x else con.bgColor := by
  have hleaves := h.scroll_leaves hb
  have hwidth := h.width_le
  rw [(h.of_frame hleaves.frame).pixel_eq,stride_of_frame hleaves.frame,hleaves.words_eq]
  by_cases hmoved : y+16 < con.height.toNat
  · have hlt : y*con.stride+x < (con.height.toNat-16)*con.stride := rowMajor_lt (by omega) (by omega)
    rw [if_neg (by omega),if_pos hlt,if_pos hmoved,h.pixel_eq,Nat.add_mul,Nat.add_right_comm]
  · have hle : (con.height.toNat-16)*con.stride ≤ y*con.stride := Nat.mul_le_mul_right _ (by omega)
    have hlt : y*con.stride+x < con.height.toNat*con.stride := rowMajor_lt hy (by omega)
    rw [if_pos ⟨by omega,hlt⟩,if_neg hmoved]

end Scroll
end Linuxab.Fbcon
