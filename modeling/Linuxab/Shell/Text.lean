import Linuxab.Base.Slice

/-! The byte-string helpers of `terl.rs`. A path or a name is stored in a fixed array and ends at the
first NUL; bytes after it are left over from earlier contents. -/
namespace Linuxab.Shell
open Linuxab.Base

/-- `s.iter().position(|&c| c == 0).unwrap_or(s.len())`. -/
def strlen (s : List UInt8) : ℕ := s.findIdx (· == 0)

def strEq (a b : List UInt8) : Bool :=
  strlen a == strlen b && a.take (strlen a) == b.take (strlen b)

/-- The slice `s[..lp]` is compared with the whole of `prefix`. -/
def startsWith (s pre : List UInt8) : Bool :=
  decide (strlen pre ≤ strlen s) && s.take (strlen pre) == pre

/-- Copy what fits and terminate it if there is room. -/
def copyBytes {n : ℕ} (dst : List.Vector UInt8 n) (src : List UInt8) : List.Vector UInt8 n :=
  let len := min n src.length
  let dst := blit dst 0 (src.take len) (by simp; omega)
  if h : len < n then blit dst len [0] h else dst

def isBlank (b : UInt8) : Bool := b == 32 || b == 9
def isLineEnd (b : UInt8) : Bool := isBlank b || b == 10 || b == 13

/-- Drop blanks at the front and blanks and line ends at the back of the text. -/
def trim (s : List UInt8) : List UInt8 :=
  (((s.take (strlen s)).dropWhile isBlank).reverse.dropWhile isLineEnd).reverse

lemma take_strlen (s : List UInt8) : s.take (strlen s) = text s := by
  induction s with
  | nil => rfl
  | cons b s ih =>
    unfold strlen text at *
    by_cases hb : b = 0
    · simp [hb,List.findIdx_cons]
    · have hbeq : (b == 0) = false := by simpa using hb
      rw [List.findIdx_cons,hbeq,cond_false,List.take_succ_cons,ih,List.takeWhile_cons,if_pos (by simpa using hb)]

lemma strlen_le_length (s : List UInt8) : strlen s ≤ s.length := List.findIdx_le_length

lemma strlen_eq (s : List UInt8) : strlen s = (text s).length := by
  rw [← take_strlen,List.length_take]
  exact (Nat.min_eq_left (strlen_le_length s)).symm

/-- Two byte strings are equal to the shell if they agree up to their terminators. -/
theorem strEq_iff (a b : List UInt8) : strEq a b = true ↔ text a = text b := by
  rw [strEq,take_strlen,take_strlen,Bool.and_eq_true,beq_iff_eq,beq_iff_eq,strlen_eq,strlen_eq]
  exact ⟨fun h => h.2,fun h => ⟨congrArg _ h,h⟩⟩

/-- A stored name reads back as the text it is, whatever the array held before. -/
theorem text_copyBytes_eq {n : ℕ} (dst : List.Vector UInt8 n) {src : List UInt8} (hl : src.length ≤ n) :
    text (copyBytes dst src).toList = text src := by
  have hmin : min n src.length = src.length := Nat.min_eq_right hl
  have htake : src.take (min n src.length) = src := by rw [hmin,List.take_length]
  unfold copyBytes
  dsimp only
  split
  · simp only [toList_blit,htake,List.take_zero,List.nil_append,Nat.zero_add]
    rw [hmin,List.take_left' rfl,List.append_assoc]
    exact text_append_zero src _
  · -- a name that fills the array is stored without a terminator
    have hrest : dst.toList.drop src.length = [] := List.drop_eq_nil_of_le (by rw [List.Vector.toList_length]; omega)
    simp only [toList_blit,htake,List.take_zero,List.nil_append,Nat.zero_add,hrest,List.append_nil]

theorem text_copyBytes {n : ℕ} (dst : List.Vector UInt8 n) {src : List UInt8} (hn : 0 ∉ src)
    (hl : src.length ≤ n) : text (copyBytes dst src).toList = src := by
  rw [text_copyBytes_eq dst hl,text_of_noNul hn]

end Linuxab.Shell
