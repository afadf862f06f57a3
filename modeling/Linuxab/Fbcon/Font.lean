import Mathlib.Data.List.GetD
import Mathlib.Tactic.SplitIfs

/-! The font of `kernel/drivers/fbcon.c`. -/
namespace Linuxab.Fbcon

/-- The rows of the 95 printable characters, from the space on. -/
def font8x16 : List (List UInt8) :=
  [[0x00,0x00,0x00,0x00,0x00,0x00,0x00,0x00,0x00,0x00,0x00,0x00,0x00,0x00,0x00,0x00],
    [0x00,0x00,0x00,0x18,0x18,0x18,0x18,0x18,0x18,0x18,0x00,0x00,0x18,0x18,0x00,0x00],
    [0x00,0x66,0x66,0x66,0x00,0x00,0x00,0x00,0x00,0x00,0x00,0x00,0x00,0x00,0x00,0x00],
    [0x00,0x00,0x66,0x66,0xFF,0x66,0x66,0x66,0xFF,0x66,0x66,0x00,0x00,0x00,0x00,0x00],
    [0x18,0x3E,0x60,0x60,0x60,0x7C,0x60,0x60,0x60,0x60,0x7C,0x3E,0x18,0x00,0x00,0x00],
    [0x00,0x63,0x66,0x6C,0x18,0x30,0x60,0x66,0x66,0x0C,0x18,0x30,0x00,0x00,0x00,0x00],
    [0x00,0x38,0x6C,0x6C,0x38,0x76,0xDC,0xCC,0xCC,0xCC,0x76,0x00,0x00,0x00,0x00,0x00],
    [0x00,0x18,0x18,0x18,0x00,0x00,0x00,0x00,0x00,0x00,0x00,0x00,0x00,0x00,0x00,0x00],
    [0x00,0x0C,0x18,0x30,0x30,0x30,0x30,0x30,0x30,0x30,0x18,0x0C,0x00,0x00,0x00,0x00],
    [0x00,0x30,0x18,0x0C,0x0C,0x0C,0x0C,0x0C,0x0C,0x0C,0x18,0x30,0x00,0x00,0x00,0x00],
    [0x00,0x00,0x00,0x66,0x3C,0xFF,0x3C,0x66,0x00,0x00,0x00,0x00,0x00,0x00,0x00,0x00],
    [0x00,0x00,0x00,0x18,0x18,0x18,0xFF,0x18,0x18,0x18,0x00,0x00,0x00,0x00,0x00,0x00],
    [0x00,0x00,0x00,0x00,0x00,0x00,0x00,0x00,0x00,0x00,0x18,0x18,0x30,0x00,0x00,0x00],
    [0x00,0x00,0x00,0x00,0x00,0x00,0xFF,0x00,0x00,0x00,0x00,0x00,0x00,0x00,0x00,0x00],
    [0x00,0x00,0x00,0x00,0x00,0x00,0x00,0x00,0x00,0x00,0x18,0x18,0x00,0x00,0x00,0x00],
    [0x00,0x00,0x03,0x06,0x0C,0x18,0x30,0x60,0xC0,0x00,0x00,0x00,0x00,0x00,0x00,0x00],
    [0x00,0x3C,0x66,0xC3,0xC3,0xC3,0xC3,0xC3,0xC3,0xC3,0x66,0x3C,0x00,0x00,0x00,0x00],
    [0x00,0x18,0x38,0x18,0x18,0x18,0x18,0x18,0x18,0x18,0x18,0x7E,0x00,0x00,0x00,0x00],
    [0x00,0x3C,0x66,0xC3,0x03,0x03,0x06,0x0C,0x18,0x30,0x60,0xFF,0x00,0x00,0x00,0x00],
    [0x00,0x3C,0x66,0xC3,0x03,0x03,0x1E,0x03,0x03,0x03,0x66,0x3C,0x00,0x00,0x00,0x00],
    [0x00,0x06,0x0E,0x1E,0x36,0x66,0xC6,0xFF,0x06,0x06,0x06,0x06,0x00,0x00,0x00,0x00],
    [0x00,0xFF,0xC0,0xC0,0xC0,0xFC,0x06,0x03,0x03,0x03,0x66,0x3C,0x00,0x00,0x00,0x00],
    [0x00,0x3C,0x66,0xC0,0xC0,0xFC,0xC6,0xC3,0xC3,0xC3,0x66,0x3C,0x00,0x00,0x00,0x00],
    [0x00,0xFF,0x03,0x03,0x06,0x06,0x0C,0x0C,0x18,0x18,0x30,0x30,0x00,0x00,0x00,0x00],
    [0x00,0x3C,0x66,0xC3,0xC3,0x66,0x3C,0x66,0xC3,0xC3,0x66,0x3C,0x00,0x00,0x00,0x00],
    [0x00,0x3C,0x66,0xC3,0xC3,0xC3,0x7E,0x03,0x03,0x03,0x66,0x3C,0x00,0x00,0x00,0x00],
    [0x00,0x00,0x00,0x00,0x18,0x18,0x00,0x00,0x00,0x18,0x18,0x00,0x00,0x00,0x00,0x00],
    [0x00,0x00,0x00,0x00,0x18,0x18,0x00,0x00,0x00,0x18,0x18,0x30,0x00,0x00,0x00,0x00],
    [0x00,0x00,0x06,0x0C,0x18,0x30,0x60,0x30,0x18,0x0C,0x06,0x00,0x00,0x00,0x00,0x00],
    [0x00,0x00,0x00,0x00,0xFF,0x00,0x00,0xFF,0x00,0x00,0x00,0x00,0x00,0x00,0x00,0x00],
    [0x00,0x00,0x60,0x30,0x18,0x0C,0x06,0x0C,0x18,0x30,0x60,0x00,0x00,0x00,0x00,0x00],
    [0x00,0x3C,0x66,0xC3,0x03,0x03,0x06,0x0C,0x18,0x00,0x18,0x18,0x00,0x00,0x00,0x00],
    [0x00,0x3C,0x66,0xC3,0xC3,0xCF,0xCF,0xCF,0xCF,0xC0,0x66,0x3C,0x00,0x00,0x00,0x00],
    [0x00,0x18,0x3C,0x66,0xC3,0xC3,0xC3,0xFF,0xC3,0xC3,0xC3,0xC3,0x00,0x00,0x00,0x00],
    [0x00,0xFC,0x66,0x66,0x66,0x7C,0x66,0x66,0x66,0x66,0x66,0xFC,0x00,0x00,0x00,0x00],
    [0x00,0x3C,0x66,0xC3,0xC0,0xC0,0xC0,0xC0,0xC0,0xC3,0x66,0x3C,0x00,0x00,0x00,0x00],
    [0x00,0xF8,0x6C,0x66,0x66,0x66,0x66,0x66,0x66,0x66,0x6C,0xF8,0x00,0x00,0x00,0x00],
    [0x00,0xFF,0xC0,0xC0,0xC0,0xF8,0xC0,0xC0,0xC0,0xC0,0xC0,0xFF,0x00,0x00,0x00,0x00],
    [0x00,0xFF,0xC0,0xC0,0xC0,0xF8,0xC0,0xC0,0xC0,0xC0,0xC0,0xC0,0x00,0x00,0x00,0x00],
    [0x00,0x3C,0x66,0xC3,0xC0,0xC0,0xC0,0xCF,0xC3,0xC3,0x66,0x3C,0x00,0x00,0x00,0x00],
    [0x00,0xC3,0xC3,0xC3,0xC3,0xFF,0xC3,0xC3,0xC3,0xC3,0xC3,0xC3,0x00,0x00,0x00,0x00],
    [0x00,0x7E,0x18,0x18,0x18,0x18,0x18,0x18,0x18,0x18,0x18,0x7E,0x00,0x00,0x00,0x00],
    [0x00,0x7E,0x18,0x18,0x18,0x18,0x18,0x18,0x18,0x18,0x18,0x18,0x18,0x18,0x00,0x00],
    [0x00,0xC3,0xC6,0xCC,0xD8,0xF0,0xF0,0xD8,0xCC,0xC6,0xC3,0xC3,0x00,0x00,0x00,0x00],
    [0x00,0xC0,0xC0,0xC0,0xC0,0xC0,0xC0,0xC0,0xC0,0xC0,0xC0,0xFF,0x00,0x00,0x00,0x00],
    [0x00,0xC3,0xE7,0xFF,0xDB,0xC3,0xC3,0xC3,0xC3,0xC3,0xC3,0xC3,0x00,0x00,0x00,0x00],
    [0x00,0xC3,0xC3,0xE3,0xF3,0xDB,0xCF,0xC7,0xC3,0xC3,0xC3,0xC3,0x00,0x00,0x00,0x00],
    [0x00,0x3C,0x66,0xC3,0xC3,0xC3,0xC3,0xC3,0xC3,0xC3,0x66,0x3C,0x00,0x00,0x00,0x00],
    [0x00,0xFC,0x66,0x66,0x66,0x7C,0x60,0x60,0x60,0x60,0x60,0x60,0x00,0x00,0x00,0x00],
    [0x00,0x3C,0x66,0xC3,0xC3,0xC3,0xC3,0xC3,0xC3,0xDB,0x66,0x3C,0x0C,0x06,0x00,0x00],
    [0x00,0xFC,0x66,0x66,0x66,0x7C,0x6C,0x66,0x66,0x66,0x66,0xE6,0x00,0x00,0x00,0x00],
    [0x00,0x7E,0xC0,0xC0,0xC0,0x78,0x0C,0x06,0x06,0x06,0x06,0xFC,0x00,0x00,0x00,0x00],
    [0x00,0xFF,0x18,0x18,0x18,0x18,0x18,0x18,0x18,0x18,0x18,0x18,0x00,0x00,0x00,0x00],
    [0x00,0xC3,0xC3,0xC3,0xC3,0xC3,0xC3,0xC3,0xC3,0xC3,0x66,0x3C,0x00,0x00,0x00,0x00],
    [0x00,0xC3,0xC3,0xC3,0xC3,0xC3,0xC3,0xC3,0xC3,0x66,0x3C,0x18,0x00,0x00,0x00,0x00],
    [0x00,0xC3,0xC3,0xC3,0xC3,0xC3,0xC3,0xDB,0xDB,0xFF,0x66,0x66,0x00,0x00,0x00,0x00],
    [0x00,0xC3,0xC3,0x66,0x3C,0x18,0x18,0x3C,0x66,0xC3,0xC3,0xC3,0x00,0x00,0x00,0x00],
    [0x00,0xC3,0xC3,0xC3,0x66,0x3C,0x18,0x18,0x18,0x18,0x18,0x18,0x00,0x00,0x00,0x00],
    [0x00,0xFF,0x06,0x0C,0x18,0x30,0x60,0xC0,0xC0,0xC0,0xC0,0xFF,0x00,0x00,0x00,0x00],
    [0x00,0x3C,0x30,0x30,0x30,0x30,0x30,0x30,0x30,0x30,0x30,0x3C,0x00,0x00,0x00,0x00],
    [0x00,0xC0,0x60,0x30,0x18,0x0C,0x06,0x03,0x00,0x00,0x00,0x00,0x00,0x00,0x00,0x00],
    [0x00,0x3C,0x0C,0x0C,0x0C,0x0C,0x0C,0x0C,0x0C,0x0C,0x0C,0x3C,0x00,0x00,0x00,0x00],
    [0x00,0x18,0x3C,0x66,0xC3,0x00,0x00,0x00,0x00,0x00,0x00,0x00,0x00,0x00,0x00,0x00],
    [0x00,0x00,0x00,0x00,0x00,0x00,0x00,0x00,0x00,0x00,0x00,0xFF,0x00,0x00,0x00,0x00],
    [0x00,0x30,0x18,0x0C,0x06,0x00,0x00,0x00,0x00,0x00,0x00,0x00,0x00,0x00,0x00,0x00],
    [0x00,0x00,0x00,0x00,0x3C,0x06,0x06,0x3E,0x66,0x66,0x66,0x3E,0x00,0x00,0x00,0x00],
    [0x00,0x60,0x60,0x60,0x7C,0x66,0x66,0x66,0x66,0x66,0x66,0x7C,0x00,0x00,0x00,0x00],
    [0x00,0x00,0x00,0x00,0x3C,0x66,0x60,0x60,0x60,0x60,0x66,0x3C,0x00,0x00,0x00,0x00],
    [0x00,0x06,0x06,0x06,0x3E,0x66,0x66,0x66,0x66,0x66,0x66,0x3E,0x00,0x00,0x00,0x00],
    [0x00,0x00,0x00,0x00,0x3C,0x66,0x66,0x7E,0x60,0x60,0x66,0x3C,0x00,0x00,0x00,0x00],
    [0x00,0x1E,0x30,0x30,0x30,0x7C,0x30,0x30,0x30,0x30,0x30,0x30,0x00,0x00,0x00,0x00],
    [0x00,0x00,0x00,0x00,0x3E,0x66,0x66,0x66,0x66,0x66,0x66,0x3E,0x06,0x06,0x7C,0x00],
    [0x00,0x60,0x60,0x60,0x7C,0x66,0x66,0x66,0x66,0x66,0x66,0x66,0x00,0x00,0x00,0x00],
    [0x00,0x18,0x18,0x00,0x38,0x18,0x18,0x18,0x18,0x18,0x18,0x7E,0x00,0x00,0x00,0x00],
    [0x00,0x0C,0x0C,0x00,0x1C,0x0C,0x0C,0x0C,0x0C,0x0C,0x0C,0x0C,0x0C,0x0C,0x78,0x00],
    [0x00,0x60,0x60,0x60,0x66,0x66,0x6C,0x78,0x6C,0x66,0x66,0x66,0x00,0x00,0x00,0x00],
    [0x00,0x38,0x18,0x18,0x18,0x18,0x18,0x18,0x18,0x18,0x18,0x7E,0x00,0x00,0x00,0x00],
    [0x00,0x00,0x00,0x00,0xFC,0x66,0x66,0x66,0x66,0x66,0x66,0x66,0x00,0x00,0x00,0x00],
    [0x00,0x00,0x00,0x00,0x7C,0x66,0x66,0x66,0x66,0x66,0x66,0x66,0x00,0x00,0x00,0x00],
    [0x00,0x00,0x00,0x00,0x3C,0x66,0x66,0x66,0x66,0x66,0x66,0x3C,0x00,0x00,0x00,0x00],
    [0x00,0x00,0x00,0x00,0x7C,0x66,0x66,0x66,0x66,0x66,0x66,0x7C,0x60,0x60,0x60,0x00],
    [0x00,0x00,0x00,0x00,0x3E,0x66,0x66,0x66,0x66,0x66,0x66,0x3E,0x06,0x06,0x06,0x00],
    [0x00,0x00,0x00,0x00,0x7C,0x66,0x60,0x60,0x60,0x60,0x60,0x60,0x00,0x00,0x00,0x00],
    [0x00,0x00,0x00,0x00,0x3E,0x60,0x60,0x3C,0x06,0x06,0x06,0x7C,0x00,0x00,0x00,0x00],
    [0x00,0x30,0x30,0x30,0x7E,0x30,0x30,0x30,0x30,0x30,0x30,0x1E,0x00,0x00,0x00,0x00],
    [0x00,0x00,0x00,0x00,0x66,0x66,0x66,0x66,0x66,0x66,0x66,0x3E,0x00,0x00,0x00,0x00],
    [0x00,0x00,0x00,0x00,0x66,0x66,0x66,0x66,0x66,0x66,0x3C,0x18,0x00,0x00,0x00,0x00],
    [0x00,0x00,0x00,0x00,0x66,0x66,0x66,0x66,0x66,0x66,0x7E,0x3C,0x00,0x00,0x00,0x00],
    [0x00,0x00,0x00,0x00,0x66,0x66,0x3C,0x18,0x18,0x3C,0x66,0x66,0x00,0x00,0x00,0x00],
    [0x00,0x00,0x00,0x00,0x66,0x66,0x66,0x66,0x66,0x66,0x66,0x3E,0x06,0x06,0x7C,0x00],
    [0x00,0x00,0x00,0x00,0x7E,0x06,0x0C,0x18,0x30,0x60,0x60,0x7E,0x00,0x00,0x00,0x00],
    [0x00,0x0E,0x18,0x18,0x18,0x18,0x70,0x18,0x18,0x18,0x18,0x0E,0x00,0x00,0x00,0x00],
    [0x00,0x18,0x18,0x18,0x18,0x18,0x18,0x18,0x18,0x18,0x18,0x18,0x00,0x00,0x00,0x00],
    [0x00,0x70,0x18,0x18,0x18,0x18,0x0E,0x18,0x18,0x18,0x18,0x70,0x00,0x00,0x00,0x00],
    [0x00,0x00,0x00,0x00,0x00,0x00,0x76,0xDC,0x00,0x00,0x00,0x00,0x00,0x00,0x00,0x00]]

/-- `font_8x16[idx - 32][row]` -/
def fontRow (idx : UInt8) (row : ℕ) : UInt8 := (font8x16.getD (idx.toNat-32) []).getD row 0

lemma font8x16_shape : font8x16.length = 95 ∧ ∀ glyph ∈ font8x16, glyph.length = 16 := by decide

/-- For a printable character the table is read inside of its bounds. -/
lemma fontRow_mem {idx : UInt8} {row : ℕ} (hidx : 32 ≤ idx ∧ idx ≤ 126) (hrow : row < 16) :
    ∃ glyph ∈ font8x16, fontRow idx row ∈ glyph := by
  have hlo : 32 ≤ idx.toNat := hidx.1
  have hhi : idx.toNat ≤ 126 := hidx.2
  obtain ⟨hlen,hrows⟩ := font8x16_shape
  have hk : idx.toNat-32 < font8x16.length := by omega
  have hglyph := List.getElem_mem hk
  refine ⟨font8x16[idx.toNat-32],hglyph,?_⟩
  rw [fontRow,List.getD_eq_getElem _ _ hk,List.getD_eq_getElem _ _ ((hrows _ hglyph).symm ▸ hrow)]
  exact List.getElem_mem _

/-- `rowbits & (0x80 >> col)` -/
def fontBit (idx : UInt8) (row col : ℕ) : Bool := (fontRow idx row).toNat &&& (0x80 >>> col) ≠ 0

lemma fontBit_space (row col : ℕ) : fontBit 32 row col = false := by
  have hrow : fontRow 32 row = 0 := by
    change (List.replicate 16 (0 : UInt8)).getD row 0 = 0
    rw [List.getD_eq_getElem?_getD,List.getElem?_replicate]
    split_ifs <;> rfl
  simp [fontBit,hrow]

end Linuxab.Fbcon
