import Linuxab.Desktop.Apps

/-! What the drawing functions of `desktop.rs` leave in a cell of the screen. -/
namespace Linuxab.Desktop
open Linuxab.Base
open Linuxab.Shell (bytes)

variable {x y : ℕ} {fg bg : UInt8} {sc : Screen} {r : Fin 25} {k : Fin 80}

lemma vgaPutc_apply (x y : ℕ) (c fg bg : UInt8) (sc : Screen) (r : Fin 25) (k : Fin 80) :
    vgaPutc x y c fg bg sc r k = if r.val = y ∧ k.val = x then ⟨c,attrOf fg bg⟩ else sc r k := by
  unfold vgaPutc
  split_ifs with hin hat hat
  · obtain rfl : r = ⟨y,hin.2⟩ := Fin.ext hat.1
    obtain rfl : k = ⟨x,hin.1⟩ := Fin.ext hat.2
    rw [Function.update_self,Function.update_self]
  · by_cases hr : r = ⟨y,hin.2⟩
    · subst hr
      have hk : k ≠ ⟨x,hin.1⟩ := fun hk => hat ⟨rfl,congrArg Fin.val hk⟩
      rw [Function.update_self,Function.update_of_ne hk]
    · rw [Function.update_of_ne hr]
  · exact absurd ⟨hat.2 ▸ k.isLt,hat.1 ▸ r.isLt⟩ hin
  · rfl

/-- A string fills the cells from its first column on, as far as there are columns. -/
theorem vgaPuts_apply (x y : ℕ) (s : List UInt8) (fg bg : UInt8) (sc : Screen) (r : Fin 25) (k : Fin 80) :
    vgaPuts x y s fg bg sc r k =
      if r.val = y ∧ x ≤ k.val ∧ k.val < x+s.length then ⟨s.getD (k.val-x) 0,attrOf fg bg⟩ else sc r k := by
  induction s generalizing x sc with
  | nil =>
    rw [vgaPuts,List.length_nil,if_neg]
    omega
  | cons b s ih =>
    rw [vgaPuts,List.length_cons]
    split_ifs with hedge hat hat
    · have := k.isLt
      omega
    · rfl
    · rw [ih,vgaPutc_apply]
      by_cases hfirst : k.val = x
      · rw [if_neg (by omega),if_pos ⟨hat.1,hfirst⟩,hfirst,Nat.sub_self,List.getD_cons_zero]
      · obtain ⟨j,hj⟩ : ∃ j, k.val-x = j+1 := ⟨k.val-x-1,by omega⟩
        have hnext : k.val-(x+1) = j := by omega
        rw [if_pos (by omega),hj,hnext,List.getD_cons_succ]
    · rw [ih,if_neg (by omega),vgaPutc_apply,if_neg (by omega)]

lemma vgaPutc_row (h : r.val ≠ y) (x : ℕ) (c fg bg : UInt8) (sc : Screen) : vgaPutc x y c fg bg sc r = sc r := by
  funext k
  rw [vgaPutc_apply,if_neg fun hat => h hat.1]

lemma vgaPuts_row (h : r.val ≠ y) (x : ℕ) (s : List UInt8) (fg bg : UInt8) (sc : Screen) :
    vgaPuts x y s fg bg sc r = sc r := by
  funext k
  rw [vgaPuts_apply,if_neg fun hat => h hat.1]

/-- The taskbar is drawn in the last row. -/
lemma drawTaskbar_row (h : r.val ≠ 24) (active : App) (sc : Screen) : drawTaskbar active sc r = sc r := by
  have hentry : ∀ (bar : ℕ × Screen) (app : App), (taskbarEntry active bar app).2 r = bar.2 r := by
    intro bar app
    simp only [taskbarEntry,vgaPutc_row h,vgaPuts_row h]
  have hentries : ∀ (apps : List App) (bar : ℕ × Screen), (apps.foldl (taskbarEntry active) bar).2 r = bar.2 r := by
    intro apps
    induction apps with
    | nil => exact fun _ => rfl
    | cons app apps ih => exact fun bar => (ih _).trans (hentry bar app)
  have hfill : ∀ (xs : List ℕ) (sc : Screen),
      xs.foldl (fun sc x => vgaPutc x 24 32 cWhite cDgray sc) sc r = sc r := by
    intro xs
    induction xs with
    | nil => exact fun _ => rfl
    | cons x xs ih => exact fun sc => (ih _).trans (vgaPutc_row h x _ _ _ sc)
  unfold drawTaskbar
  rw [vgaPuts_row h]
  refine (hentries _ _).trans ?_
  change vgaPuts 1 24 (bytes "[Start]") cWhite cBlue _ r = _
  rw [vgaPuts_row h,hfill]

end Linuxab.Desktop
