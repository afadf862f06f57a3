import Linuxab.Base.DigitalLine
import Linuxab.Graphics.Framebuffer

/-!
`gfx_line`: the loop that draws one pixel after another until it is exactly at the end point.  The
error term is an `int`, and so is everything computed from it.
-/

namespace Linuxab.Graphics
open Linuxab.Base

structure Point where
  x : Int32
  y : Int32
  deriving DecidableEq, Repr

/-- `abs` on `int`. -/
def absInt (a : Int32) : Int32 := if a < 0 then -a else a

/-- The locals of `gfx_line` that the loop does not change. -/
structure Line where
  x1 : Int32
  y1 : Int32
  dx : Int32
  sx : Int32
  dy : Int32
  sy : Int32

/-- The locals that it does. -/
structure Pen where
  x0 : Int32
  y0 : Int32
  err : Int32

def Pen.at (p : Pen) : Point := ⟨p.x0,p.y0⟩

def Line.ofEnds (x0 y0 x1 y1 : Int32) : Line where
  x1 := x1
  y1 := y1
  dx := absInt (x1-x0)
  sx := if x0 < x1 then 1 else -1
  dy := -absInt (y1-y0)
  sy := if y0 < y1 then 1 else -1

namespace Line
variable (l : Line)

/-- The rest of a round after the pixel is drawn; both tests use the `e2` from before. -/
def step (p : Pen) : Pen :=
  let e2 := 2*p.err
  let p := if l.dy ≤ e2 then { p with err := p.err+l.dy, x0 := p.x0+l.sx } else p
  if e2 ≤ l.dx then { p with err := p.err+l.dx, y0 := p.y0+l.sy } else p

/-- The points at which the loop calls `gfx_pixel`; `none` when it has not ended within the rounds. -/
def points : ℕ → Pen → Option (List Point)
  | 0, _ => none
  | rounds+1, p => if p.x0 = l.x1 ∧ p.y0 = l.y1 then some [p.at] else (points rounds (l.step p)).map (p.at :: ·)

end Line

def linePoints (rounds : ℕ) (x0 y0 x1 y1 : Int32) : Option (List Point) :=
  let l := Line.ofEnds x0 y0 x1 y1
  l.points rounds ⟨x0,y0,l.dx+l.dy⟩

def gfxLine (rounds : ℕ) (fb : Framebuffer) (x0 y0 x1 y1 : Int32) (c : Color) : Option Framebuffer :=
  (linePoints rounds x0 y0 x1 y1).map fun ps => ps.foldl (fun fb p => fb.gfxPixel p.x p.y c) fb

/-! ## One round -/

section Round

theorem toInt_absInt {a : Int32} (h : -2^31 < a.toInt) : (absInt a).toInt = |a.toInt| := by
  have hzero : (0 : Int32).toInt = 0 := by decide
  rw [absInt]
  split_ifs with hneg <;> rw [Int32.lt_iff_toInt_lt,hzero] at hneg
  · have hlt := a.toInt_lt
    rw [Int32.toInt_neg,Int.bmod_eq_of_le (by omega) (by omega),abs_of_neg hneg]
  · rw [abs_of_nonneg (by omega)]

/-- Numbers that keep the arithmetic of a round from overflowing. -/
structure Line.Small (l : Line) (p : Pen) : Prop where
  x : |p.x0.toInt| < 2^30
  y : |p.y0.toInt| < 2^30
  err : |p.err.toInt| < 2^30
  dx : |l.dx.toInt| < 2^29
  dy : |l.dy.toInt| < 2^29
  sx : |l.sx.toInt| ≤ 1
  sy : |l.sy.toInt| ≤ 1

theorem Line.step_toInt {l : Line} {p : Pen} (h : l.Small p) :
    (l.step p).x0.toInt = p.x0.toInt+(if l.dy.toInt ≤ 2*p.err.toInt then l.sx.toInt else 0) ∧
    (l.step p).y0.toInt = p.y0.toInt+(if 2*p.err.toInt ≤ l.dx.toInt then l.sy.toInt else 0) ∧
    (l.step p).err.toInt = p.err.toInt+(if l.dy.toInt ≤ 2*p.err.toInt then l.dy.toInt else 0)
      +(if 2*p.err.toInt ≤ l.dx.toInt then l.dx.toInt else 0) := by
  obtain ⟨hx,hy,herr,hdx,hdy,hsx,hsy⟩ := h
  rw [abs_lt] at hx hy herr hdx hdy
  rw [abs_le] at hsx hsy
  have htwo : (2 : Int32).toInt = 2 := by decide
  have he2 : (2*p.err).toInt = 2*p.err.toInt := by
    rw [toInt_mul_of_le] <;> rw [htwo] <;> omega
  have hxs : (p.x0+l.sx).toInt = p.x0.toInt+l.sx.toInt := toInt_add_of_le (by omega) (by omega)
  have hys : (p.y0+l.sy).toInt = p.y0.toInt+l.sy.toInt := toInt_add_of_le (by omega) (by omega)
  have hed : (p.err+l.dy).toInt = p.err.toInt+l.dy.toInt := toInt_add_of_le (by omega) (by omega)
  have hex : (p.err+l.dx).toInt = p.err.toInt+l.dx.toInt := toInt_add_of_le (by omega) (by omega)
  have hboth : (p.err+l.dy+l.dx).toInt = p.err.toInt+l.dy.toInt+l.dx.toInt := by
    rw [toInt_add_of_le] <;> rw [hed] <;> omega
  simp only [step,Int32.le_iff_toInt_le,he2]
  split_ifs <;> simp [hxs,hys,hed,hex,hboth]

end Round

/-! ## The whole line -/

/-- The line has `a` steps to go in `x` and `b` in `y`. -/
structure Line.Spans (l : Line) (x₀ y₀ a b : ℤ) : Prop where
  start : |x₀| < 2^28 ∧ |y₀| < 2^28
  a_mem : 0 ≤ a ∧ a < 2^29
  b_mem : 0 ≤ b ∧ b < 2^29
  dx : l.dx.toInt = a
  dy : l.dy.toInt = -b
  sx : l.sx.toInt = 1 ∨ l.sx.toInt = -1
  sy : l.sy.toInt = 1 ∨ l.sy.toInt = -1
  x1 : l.x1.toInt = x₀+l.sx.toInt*a
  y1 : l.y1.toInt = y₀+l.sy.toInt*b

/-- The pen after `i` steps in `x` and `j` in `y`.  The error term is balanced along the longer of the
two axes; for `y` this is the same with the sign changed. -/
structure Line.At (l : Line) (x₀ y₀ a b i j : ℤ) (p : Pen) : Prop where
  x : p.x0.toInt = x₀+l.sx.toInt*i
  y : p.y0.toInt = y₀+l.sy.toInt*j
  i_mem : 0 ≤ i ∧ i ≤ a
  j_mem : 0 ≤ j ∧ j ≤ b
  balanced : (b ≤ a ∧ Balanced a b i j (2*p.err.toInt)) ∨ (a < b ∧ Balanced b a j i (-(2*p.err.toInt)))

/-- The steps that are left on the longer axis. -/
def toGo (a b i j : ℤ) : ℤ := if b ≤ a then a-i else b-j

/-- At most one step from `u` to `v`, and not beyond `e`. -/
def Towards (e u v : ℤ) : Prop := (u ≤ v ∧ v ≤ u+1 ∧ v ≤ e) ∨ (v ≤ u ∧ u ≤ v+1 ∧ e ≤ v)

/-- Neighbouring points of a line to `(x1, y1)`. -/
def Line.Neighbours (l : Line) (p q : Point) : Prop :=
  Towards l.x1.toInt p.x.toInt q.x.toInt ∧ Towards l.y1.toInt p.y.toInt q.y.toInt

section Whole
variable {l : Line} {x₀ y₀ a b i j i' j' : ℤ} {p q : Pen}

theorem towards_of_steps {s : ℤ} (hs : s = 1 ∨ s = -1) (hi : i' = i ∨ i' = i+1) (ha : i' ≤ a) :
    Towards (x₀+s*a) (x₀+s*i) (x₀+s*i') := by
  rw [Towards]
  rcases hs with rfl | rfl <;> omega

section At
variable (hl : l.Spans x₀ y₀ a b)
include hl

/-- The pen is at the end point when no step is left. -/
theorem Line.At.end_iff (h : l.At x₀ y₀ a b i j p) : (p.x0 = l.x1 ∧ p.y0 = l.y1) ↔ toGo a b i j = 0 := by
  have hends : (p.x0 = l.x1 ∧ p.y0 = l.y1) ↔ i = a ∧ j = b := by
    rw [← Int32.toInt_inj,← Int32.toInt_inj,h.x,h.y,hl.x1,hl.y1]
    rcases hl.sx with hsx | hsx <;> rcases hl.sy with hsy | hsy <;> rw [hsx,hsy] <;> omega
  rw [hends,toGo]
  obtain ⟨hi,hia⟩ := h.i_mem
  obtain ⟨hj,hjb⟩ := h.j_mem
  have hb := hl.b_mem.1
  have ha := hl.a_mem.1
  rcases h.balanced with ⟨hba,hbal⟩ | ⟨hab,hbal⟩
  · rw [if_pos hba]
    constructor
    · rintro ⟨rfl,rfl⟩
      omega
    · intro hlast
      obtain rfl : i = a := by omega
      refine ⟨rfl,?_⟩
      rcases ha.lt_or_eq with hpos | hzero
      · exact hbal.short_eq hb hpos hj
      · omega
  · rw [if_neg (by omega)]
    constructor
    · rintro ⟨rfl,rfl⟩
      omega
    · intro hlast
      obtain rfl : j = b := by omega
      exact ⟨hbal.short_eq ha (by omega) hi,rfl⟩

theorem Line.At.small (h : l.At x₀ y₀ a b i j p) : l.Small p := by
  obtain ⟨hx₀,hy₀⟩ := hl.start
  obtain ⟨ha,ha'⟩ := hl.a_mem
  obtain ⟨hb,hb'⟩ := hl.b_mem
  obtain ⟨hi,hia⟩ := h.i_mem
  obtain ⟨hj,hjb⟩ := h.j_mem
  rw [abs_lt] at hx₀ hy₀
  have hsx : |l.sx.toInt| ≤ 1 := by rcases hl.sx with hs | hs <;> rw [hs] <;> decide
  have hsy : |l.sy.toInt| ≤ 1 := by rcases hl.sy with hs | hs <;> rw [hs] <;> decide
  refine ⟨?_,?_,?_,?_,?_,hsx,hsy⟩ <;> rw [abs_lt]
  · rw [h.x]
    rcases hl.sx with hs | hs <;> rw [hs] <;> omega
  · rw [h.y]
    rcases hl.sy with hs | hs <;> rw [hs] <;> omega
  · rcases h.balanced with ⟨hba,hbal⟩ | ⟨hab,hbal⟩
    · have hlow := hbal.low
      have hhigh := hbal.high
      omega
    · have hlow := hbal.low
      have hhigh := hbal.high
      omega
  · rw [hl.dx]
    omega
  · rw [hl.dy]
    omega

/-- A round makes a step on the longer axis, and one on the shorter axis if the error term says so. -/
theorem Line.At.step (h : l.At x₀ y₀ a b i j p) (hgo : toGo a b i j ≠ 0) :
    ∃ i' j', l.At x₀ y₀ a b i' j' (l.step p) ∧ (i' = i ∨ i' = i+1) ∧ (j' = j ∨ j' = j+1) ∧
      toGo a b i j = toGo a b i' j'+1 := by
  obtain ⟨hx,hy,herr⟩ := l.step_toInt (h.small hl)
  rw [hl.dy,h.x] at hx
  rw [hl.dx,h.y] at hy
  rw [hl.dx,hl.dy] at herr
  obtain ⟨hi,hia⟩ := h.i_mem
  obtain ⟨hj,hjb⟩ := h.j_mem
  have hb := hl.b_mem.1
  have ha := hl.a_mem.1
  rcases h.balanced with ⟨hba,hbal⟩ | ⟨hab,hbal⟩
  · simp only [toGo,if_pos hba] at hgo ⊢
    rw [if_pos hbal.low] at hx herr
    by_cases he : 2*p.err.toInt ≤ a
    · rw [if_pos he] at hy herr
      have hnext := hbal.both hba he
      have hshort := hnext.short_le hb (by omega) (by omega)
      refine ⟨i+1,j+1,⟨?_,?_,by omega,by omega,.inl ⟨hba,?_⟩⟩,.inr rfl,.inr rfl,by omega⟩
      · rw [hx,mul_add,mul_one,add_assoc]
      · rw [hy,mul_add,mul_one,add_assoc]
      · rw [herr]
        convert hnext using 1
        omega
    · rw [if_neg he] at hy herr
      have hnext := hbal.long hb (Int.not_le.mp he)
      refine ⟨i+1,j,⟨?_,?_,by omega,by omega,.inl ⟨hba,?_⟩⟩,.inr rfl,.inl rfl,by omega⟩
      · rw [hx,mul_add,mul_one,add_assoc]
      · rw [hy,add_zero]
      · rw [herr]
        convert hnext using 1
        omega
  · have hlow := hbal.low
    simp only [toGo,if_neg (Int.not_le.mpr hab)] at hgo ⊢
    rw [if_pos (show 2*p.err.toInt ≤ a by omega)] at hy herr
    by_cases he : -b ≤ 2*p.err.toInt
    · rw [if_pos he] at hx herr
      have hnext := hbal.both (by omega) (by omega)
      have hshort := hnext.short_le ha (by omega) (by omega)
      refine ⟨i+1,j+1,⟨?_,?_,by omega,by omega,.inr ⟨hab,?_⟩⟩,.inr rfl,.inr rfl,by omega⟩
      · rw [hx,mul_add,mul_one,add_assoc]
      · rw [hy,mul_add,mul_one,add_assoc]
      · rw [herr]
        convert hnext using 1
        omega
    · rw [if_neg he] at hx herr
      have hnext := hbal.long ha (by omega)
      refine ⟨i,j+1,⟨?_,?_,by omega,by omega,.inr ⟨hab,?_⟩⟩,.inl rfl,.inr rfl,by omega⟩
      · rw [hx,add_zero]
      · rw [hy,mul_add,mul_one,add_assoc]
      · rw [herr]
        convert hnext using 1
        omega

/-- What the loop draws from a state in which `n` steps are left. -/
theorem Line.At.points (n : ℕ) (h : l.At x₀ y₀ a b i j p) (hn : toGo a b i j = n) :
    ∃ ps, (∀ rounds, n+1 ≤ rounds → l.points rounds p = some ps) ∧ ps.length = n+1 ∧
      ps.head? = some p.at ∧ ps.getLast? = some ⟨l.x1,l.y1⟩ ∧ ps.IsChain l.Neighbours := by
  induction n generalizing i j p with
  | zero =>
    obtain ⟨hx,hy⟩ := (h.end_iff hl).mpr hn
    refine ⟨[p.at],fun rounds hr => ?_,rfl,rfl,by simp [Pen.at,hx,hy],by simp⟩
    obtain ⟨k,rfl⟩ : ∃ k, rounds = k+1 := ⟨rounds-1,by omega⟩
    rw [Line.points,if_pos ⟨hx,hy⟩]
  | succ n ih =>
    have hgo : toGo a b i j ≠ 0 := by omega
    obtain ⟨i',j',hnext,hi,hj,hless⟩ := h.step hl hgo
    obtain ⟨ps,hps,hlength,hhead,hlast,hchain⟩ := ih hnext (by omega)
    obtain ⟨q,qs,rfl⟩ : ∃ q qs, ps = q::qs := List.exists_cons_of_length_eq_add_one hlength
    obtain rfl : q = (l.step p).at := by simpa using hhead
    have hneighbours : l.Neighbours p.at (l.step p).at := by
      rw [Neighbours,hl.x1,hl.y1]
      change Towards _ p.x0.toInt (l.step p).x0.toInt ∧ Towards _ p.y0.toInt (l.step p).y0.toInt
      rw [h.x,h.y,hnext.x,hnext.y]
      exact ⟨towards_of_steps hl.sx hi hnext.i_mem.2,towards_of_steps hl.sy hj hnext.j_mem.2⟩
    refine ⟨p.at::(l.step p).at::qs,fun rounds hr => ?_,by simpa using hlength,rfl,?_,?_⟩
    · obtain ⟨k,rfl⟩ : ∃ k, rounds = k+1 := ⟨rounds-1,by omega⟩
      rw [Line.points,if_neg (mt (h.end_iff hl).mp hgo),hps k (by omega)]
      rfl
    · rw [List.getLast?_cons_cons]
      exact hlast
    · exact List.isChain_cons_cons.mpr ⟨hneighbours,hchain⟩

end At

theorem Line.spans_ofEnds {x0 y0 x1 y1 : Int32} (hx0 : |x0.toInt| < 2^28) (hy0 : |y0.toInt| < 2^28)
    (hx1 : |x1.toInt| < 2^28) (hy1 : |y1.toInt| < 2^28) :
    (Line.ofEnds x0 y0 x1 y1).Spans x0.toInt y0.toInt |x1.toInt-x0.toInt| |y1.toInt-y0.toInt| := by
  have hstart := And.intro hx0 hy0
  rw [abs_lt] at hx0 hy0 hx1 hy1
  have hdx : (absInt (x1-x0)).toInt = |x1.toInt-x0.toInt| := by
    have hsub : (x1-x0).toInt = x1.toInt-x0.toInt := toInt_sub_of_le (by omega) (by omega)
    rw [toInt_absInt (by omega),hsub]
  have hdy : (absInt (y1-y0)).toInt = |y1.toInt-y0.toInt| := by
    have hsub : (y1-y0).toInt = y1.toInt-y0.toInt := toInt_sub_of_le (by omega) (by omega)
    rw [toInt_absInt (by omega),hsub]
  have hone : (1 : Int32).toInt = 1 := by decide
  have hminus : (-1 : Int32).toInt = -1 := by decide
  have ha : |x1.toInt-x0.toInt| < 2^29 := abs_lt.mpr (by omega)
  have hb : |y1.toInt-y0.toInt| < 2^29 := abs_lt.mpr (by omega)
  have hbpos := abs_nonneg (y1.toInt-y0.toInt)
  refine ⟨hstart,⟨abs_nonneg _,ha⟩,⟨hbpos,hb⟩,hdx,?_,?_,?_,?_,?_⟩
  · change (-absInt (y1-y0)).toInt = _
    rw [Int32.toInt_neg,hdy,Int.bmod_eq_of_le (by omega) (by omega)]
  all_goals simp only [Line.ofEnds,Int32.lt_iff_toInt_lt]
  · split_ifs <;> simp [hone,hminus]
  · split_ifs <;> simp [hone,hminus]
  · split_ifs with h
    · rw [hone,abs_of_pos (by omega)]
      omega
    · rw [hminus,abs_of_nonpos (by omega)]
      omega
  · split_ifs with h
    · rw [hone,abs_of_pos (by omega)]
      omega
    · rw [hminus,abs_of_nonpos (by omega)]
      omega

end Whole

/-- The line is connected, as short as can be, and ends. -/
theorem gfx_line_connects {x0 y0 x1 y1 : Int32} (hx0 : |x0.toInt| < 2^28) (hy0 : |y0.toInt| < 2^28)
    (hx1 : |x1.toInt| < 2^28) (hy1 : |y1.toInt| < 2^28) :
    ∃ ps, (∀ (rounds : ℕ) fb c, max |x1.toInt-x0.toInt| |y1.toInt-y0.toInt|+1 ≤ rounds →
        linePoints rounds x0 y0 x1 y1 = some ps ∧
        gfxLine rounds fb x0 y0 x1 y1 c = some (ps.foldl (fun fb p => fb.gfxPixel p.x p.y c) fb)) ∧
      ps.length = max |x1.toInt-x0.toInt| |y1.toInt-y0.toInt|+1 ∧
      ps.head? = some ⟨x0,y0⟩ ∧ ps.getLast? = some ⟨x1,y1⟩ ∧
      ps.IsChain fun p q => Towards x1.toInt p.x.toInt q.x.toInt ∧ Towards y1.toInt p.y.toInt q.y.toInt := by
  have hl := Line.spans_ofEnds hx0 hy0 hx1 hy1
  generalize |x1.toInt-x0.toInt| = a at *
  generalize |y1.toInt-y0.toInt| = b at *
  have ha := hl.a_mem
  have hb := hl.b_mem
  have herr : ((Line.ofEnds x0 y0 x1 y1).dx+(Line.ofEnds x0 y0 x1 y1).dy).toInt = a-b := by
    rw [toInt_add_of_le] <;> rw [hl.dx,hl.dy] <;> omega
  have hstart : (Line.ofEnds x0 y0 x1 y1).At x0.toInt y0.toInt a b 0 0
      ⟨x0,y0,(Line.ofEnds x0 y0 x1 y1).dx+(Line.ofEnds x0 y0 x1 y1).dy⟩ := by
    refine ⟨by simp,by simp,by omega,by omega,?_⟩
    rw [herr]
    rcases le_or_gt b a with hba | hab
    · exact .inl ⟨hba,balanced_start hb.1 hba⟩
    · refine .inr ⟨hab,?_⟩
      convert balanced_start ha.1 (Int.le_of_lt hab) using 1
      omega
  have hgo : toGo a b 0 0 = (max a b).toNat := by
    rw [toGo]
    split_ifs <;> omega
  obtain ⟨ps,hps,hlength,hhead,hlast,hchain⟩ := hstart.points hl _ hgo
  refine ⟨ps,fun rounds fb c hr => ?_,by omega,hhead,hlast,hchain⟩
  have hpoints : linePoints rounds x0 y0 x1 y1 = some ps := hps rounds (by omega)
  refine ⟨hpoints,?_⟩
  rw [gfxLine,hpoints]
  rfl

/-- Down to the left from `(3, 1)`, five steps in `x` and two in `y`. -/
theorem gfx_line_connects_left : ∃ ps, linePoints 6 3 1 (-2) 3 = some ps ∧ ps.length = (6 : ℤ) := by
  obtain ⟨ps,hps,hlength,-⟩ := @gfx_line_connects 3 1 (-2) 3 (by decide) (by decide) (by decide) (by decide)
  exact ⟨ps,(hps 6 ⟨false,0,0,fun _ => 0⟩ ⟨0,0,0,0⟩ (by decide)).1,hlength⟩
end Linuxab.Graphics
