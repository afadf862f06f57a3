import Linuxab.Desktop.FileManager
import Linuxab.Desktop.Picture

/-! What the file manager shows of its list. The selection moves over all files, the list has twenty rows
and does not scroll. -/
namespace Linuxab.Desktop
open Linuxab.Base
open Linuxab.Shell (bytes)

section Drawing
variable {d : DesktopState} {r : Fin 25} {k : Fin 80}

/-- Black on light gray for the selected file. -/
def entryAttr (d : DesktopState) (idx : ℕ) : UInt8 :=
  attrOf (if d.fmSel = idx then cBlack else cWhite) (if d.fmSel = idx then cLgray else cBlack)

/-- A cell of the row of a file, over what was there before. -/
def entryCell (d : DesktopState) (idx : ℕ) (i : Fin 32) (k : Fin 80) (old : Cell) : Cell :=
  if 4 ≤ k.val ∧ k.val < 4+(fileName (d.fs i)).length then
    ⟨(fileName (d.fs i)).getD (k.val-4) 0,entryAttr d idx⟩
  else if k.val = 3 then ⟨32,entryAttr d idx⟩
  else if k.val = 2 then ⟨if d.fmSel = idx then 62 else 32,entryAttr d idx⟩
  else old

/-- One row of the list, as `files_draw` writes it. -/
def drawEntry (d : DesktopState) (y idx : ℕ) (i : Fin 32) (sc : Screen) : Screen :=
  let fg := if d.fmSel = idx then cBlack else cWhite
  let bg := if d.fmSel = idx then cLgray else cBlack
  vgaPuts 4 y (fileName (d.fs i)) fg bg (vgaPutc 3 y 32 fg bg
    (vgaPutc 2 y (if d.fmSel = idx then 62 else 32) fg bg sc))

lemma listFiles_cons (d : DesktopState) (y idx : ℕ) (i : Fin 32) (rest : List (Fin 32)) (sc : Screen) :
    listFiles d y idx (i::rest) sc =
      if 23 ≤ y+1 then drawEntry d y idx i sc else listFiles d (y+1) (idx+1) rest (drawEntry d y idx i sc) := rfl

lemma drawEntry_apply (d : DesktopState) (y idx : ℕ) (i : Fin 32) (sc : Screen) (r : Fin 25) (k : Fin 80) :
    drawEntry d y idx i sc r k = if r.val = y then entryCell d idx i k (sc r k) else sc r k := by
  unfold drawEntry entryCell entryAttr
  rw [vgaPuts_apply,vgaPutc_apply,vgaPutc_apply]
  by_cases hr : r.val = y
  · simp only [hr,true_and,if_true]
  · simp only [hr,false_and,if_false]

/-- The rows below the first one show the files in order, and the list ends above row 23. -/
theorem listFiles_apply {y : ℕ} (hy : y < 23) (idx : ℕ) (l : List (Fin 32)) (sc : Screen) (r : Fin 25) (k : Fin 80) :
    listFiles d y idx l sc r k =
      if y ≤ r.val ∧ r.val < 23 then (l[r.val-y]?).elim (sc r k) fun i => entryCell d (idx+(r.val-y)) i k (sc r k)
      else sc r k := by
  induction l generalizing y idx sc with
  | nil => simp [listFiles]
  | cons i rest ih =>
    rw [listFiles_cons]
    rcases Nat.lt_trichotomy r.val y with hlt | heq | hgt
    · have hout : ¬ (y ≤ r.val ∧ r.val < 23) := by omega
      have hold : drawEntry d y idx i sc r k = sc r k := by rw [drawEntry_apply,if_neg hlt.ne]
      rw [if_neg hout]
      split
      · exact hold
      · have hnext : ¬ (y+1 ≤ r.val ∧ r.val < 23) := by omega
        rw [ih (by omega),if_neg hnext,hold]
    · have hin : y ≤ r.val ∧ r.val < 23 := by omega
      have hentry : drawEntry d y idx i sc r k = entryCell d idx i k (sc r k) := by rw [drawEntry_apply,if_pos heq]
      rw [if_pos hin,heq,Nat.sub_self,List.getElem?_cons_zero,Option.elim_some,Nat.add_zero idx,← hentry]
      split
      · rfl
      · have hnext : ¬ (y+1 ≤ r.val ∧ r.val < 23) := by omega
        rw [ih (by omega),if_neg hnext]
    · have hold : drawEntry d y idx i sc r k = sc r k := by rw [drawEntry_apply,if_neg hgt.ne']
      split
      · have hout : ¬ (y ≤ r.val ∧ r.val < 23) := by omega
        rw [hold,if_neg hout]
      · -- below the first row the list is that of the remaining files
        obtain ⟨n,hn⟩ : ∃ n, r.val-y = n+1 := ⟨r.val-y-1,by omega⟩
        have hn' : r.val-(y+1) = n := by omega
        have hrows : (y+1 ≤ r.val ∧ r.val < 23) = (y ≤ r.val ∧ r.val < 23) := by
          apply propext
          omega
        rw [ih (by omega),hold,hn,hn',List.getElem?_cons_succ,Nat.add_right_comm,Nat.add_assoc]
        simp only [hrows]

/-- A row of the list. -/
def IsListRow (r : Fin 25) : Prop := 3 ≤ r.val ∧ r.val < 23

/-- A cell of the list is that of the file of its row. -/
theorem filesDraw_listRow (hview : d.fmView = false) (hpos : usedSlots d.fs ≠ []) (hr : IsListRow r) (k : Fin 80) :
    (filesDraw d).screen r k =
      ((usedSlots d.fs)[r.val-3]?).elim ⟨32,attrOf cWhite cBlack⟩ fun i =>
        entryCell d (r.val-3) i k ⟨32,attrOf cWhite cBlack⟩ := by
  have h0 : r.val ≠ 0 := by have := hr.1; omega
  have h1 : r.val ≠ 1 := by have := hr.1; omega
  have h23 : r.val ≠ 23 := by have := hr.2; omega
  have h24 : r.val ≠ 24 := by have := hr.2; omega
  simp only [filesDraw,hview,Bool.false_eq_true,if_false,if_neg hpos]
  rw [drawTaskbar_row h24,vgaPuts_row h23,listFiles_apply (by decide),if_pos ⟨hr.1,hr.2⟩,Nat.zero_add,vgaPuts_row h1,
    vgaPuts_row h0]
  rfl

end Drawing

section Selection
variable {d : DesktopState} {r : Fin 25} {sc : Screen}

/-- The row carries the mark of the selection. -/
def Highlighted (sc : Screen) (r : Fin 25) : Prop := sc r 2 = ⟨62,attrOf cBlack cLgray⟩

/-- Behind the mark the row shows the name, highlighted, and nothing else. -/
def ShowsName (sc : Screen) (r : Fin 25) (name : List UInt8) : Prop :=
  ∀ k : Fin 80, 4 ≤ k.val → sc r k =
    if k.val < 4+name.length then ⟨name.getD (k.val-4) 0,attrOf cBlack cLgray⟩ else ⟨32,attrOf cWhite cBlack⟩

/-- Exactly one row of the list is highlighted, and it shows the name of the selected file. -/
def SelectionVisible (d : DesktopState) : Prop :=
  ∃ i r, (usedSlots d.fs)[d.fmSel]? = some i ∧ IsListRow r ∧ Highlighted (filesDraw d).screen r ∧
    ShowsName (filesDraw d).screen r (fileName (d.fs i)) ∧
    ∀ r', IsListRow r' → Highlighted (filesDraw d).screen r' → r' = r

lemma highlighted_iff (hview : d.fmView = false) (hpos : usedSlots d.fs ≠ []) (hr : IsListRow r) :
    Highlighted (filesDraw d).screen r ↔ d.fmSel = r.val-3 ∧ r.val-3 < (usedSlots d.fs).length := by
  unfold Highlighted
  rw [filesDraw_listRow hview hpos hr]
  cases hi : (usedSlots d.fs)[r.val-3]? with
  | none =>
    have hge := List.getElem?_eq_none_iff.mp hi
    rw [Option.elim_none]
    constructor
    · intro hcell
      exact absurd hcell (by decide)
    · intro h
      omega
  | some i =>
    have hlt := (List.getElem?_eq_some_iff.mp hi).1
    rw [Option.elim_some,entryCell,if_neg (fun h => absurd h.1 (by decide)),if_neg (by decide),if_pos (by decide),entryAttr]
    by_cases hsel : d.fmSel = r.val-3
    · simp [hsel,hlt]
    · rw [if_neg hsel,if_neg hsel,if_neg hsel]
      constructor
      · intro hcell
        exact absurd hcell (by decide)
      · intro h
        exact absurd h.1 hsel

/-- The row of the selected file shows its name. -/
lemma filesDraw_showsName {i : Fin 32} (hview : d.fmView = false) (hi : (usedSlots d.fs)[d.fmSel]? = some i)
    (hr : IsListRow r) (hsel : r.val-3 = d.fmSel) : ShowsName (filesDraw d).screen r (fileName (d.fs i)) := by
  have hpos : usedSlots d.fs ≠ [] := List.ne_nil_of_mem (List.mem_of_getElem? hi)
  intro k hk
  rw [filesDraw_listRow hview hpos hr,hsel,hi,Option.elim_some,entryCell,entryAttr,if_pos rfl,if_pos rfl]
  by_cases hname : k.val < 4+(fileName (d.fs i)).length
  · rw [if_pos ⟨hk,hname⟩,if_pos hname]
  · rw [if_neg (fun h => hname h.2),if_neg (by omega),if_neg (by omega),if_neg hname]

/-- A file that is selected is on the screen if it is one of the first twenty. -/
theorem selectionVisible_iff (hview : d.fmView = false) (hlt : d.fmSel < (usedSlots d.fs).length) :
    SelectionVisible d ↔ d.fmSel < 20 := by
  have hi := List.getElem?_eq_getElem hlt
  have hpos : usedSlots d.fs ≠ [] := List.ne_nil_of_length_pos (Nat.zero_lt_of_lt hlt)
  constructor
  · rintro ⟨i,r,-,hr,hmark,-⟩
    have hsel := ((highlighted_iff hview hpos hr).mp hmark).1
    have := hr.2
    omega
  · intro h20
    have hrow : d.fmSel+3 < 25 := by omega
    have hr : IsListRow ⟨d.fmSel+3,hrow⟩ := ⟨Nat.le_add_left _ _,by change d.fmSel+3 < 23; omega⟩
    refine ⟨(usedSlots d.fs)[d.fmSel],⟨d.fmSel+3,hrow⟩,hi,hr,?_,?_,?_⟩
    · exact (highlighted_iff hview hpos hr).mpr ⟨rfl,hlt⟩
    · exact filesDraw_showsName hview hi hr rfl
    · intro r' hr' hmark
      have hsel := ((highlighted_iff hview hpos hr').mp hmark).1
      have := hr'.1
      exact Fin.ext (by change r'.val = d.fmSel+3; omega)

/-- Whatever was typed before, the selected file is visible in the list exactly if at most nineteen files
are listed before it. -/
theorem selection_visible_iff {keys : List UInt8} (h : pressKeys desktopInit keys = .ok d)
    (happ : d.activeApp = .files) (hview : d.fmView = false) (hpos : 0 < (usedSlots d.fs).length) :
    SelectionVisible d ↔ d.fmSel < 20 := by
  have hsel := (pressKeys_filesInv h).sel happ
  apply selectionVisible_iff hview
  unfold SelInRange at hsel
  omega

/-- The file manager shows its list of files. -/
def listsFiles (d : DesktopState) : Bool :=
  decide (d.activeApp = .files) && !d.fmView && decide (0 < (usedSlots d.fs).length)

lemma listsFiles_iff : listsFiles d = true ↔
    d.activeApp = .files ∧ d.fmView = false ∧ 0 < (usedSlots d.fs).length := by
  simp [listsFiles,and_assoc]

/-- The file manager is opened and the last of the first four files is selected. -/
theorem selection_visible_fourth : ∃ d, pressKeys desktopInit (bytes "d\nsss") = .ok d ∧ d.fmSel = 3 ∧
    SelectionVisible d := by
  obtain ⟨d,hd,hP⟩ := exists_of_holdsAfter (P := fun d => listsFiles d && decide (d.fmSel = 3))
    (show holdsAfter _ (pressKeys desktopInit (bytes "d\nsss")) = true by decide +kernel)
  rw [Bool.and_eq_true,listsFiles_iff,decide_eq_true_eq] at hP
  obtain ⟨⟨happ,hview,hpos⟩,hsel⟩ := hP
  exact ⟨d,hd,hsel,(selection_visible_iff hd happ hview hpos).mpr (by omega)⟩

/-- The terminal writes 17 more files, and in the file manager the selection moves down twenty times. -/
def longListKeys : List UInt8 :=
  [10] ++ (bytes "abcdefghijklmnopq").flatMap (fun b => bytes "write " ++ [b] ++ bytes " x\n") ++ [0x11] ++
    bytes "d\n" ++ List.replicate 20 115

theorem selection_not_visible : ∃ d, pressKeys desktopInit longListKeys = .ok d ∧ d.activeApp = .files ∧
    d.fmView = false ∧ 0 < (usedSlots d.fs).length ∧ ¬ SelectionVisible d := by
  obtain ⟨d,hd,hP⟩ := exists_of_holdsAfter
    (P := fun d => listsFiles d && decide (d.fmSel = 20 ∧ d.fmSel < (usedSlots d.fs).length))
    (show holdsAfter _ (pressKeys desktopInit longListKeys) = true by decide +kernel)
  rw [Bool.and_eq_true,listsFiles_iff,decide_eq_true_eq] at hP
  obtain ⟨⟨happ,hview,hpos⟩,hsel,hlt⟩ := hP
  refine ⟨d,hd,happ,hview,hpos,?_⟩
  rw [selectionVisible_iff hview hlt]
  omega

end Selection
end Linuxab.Desktop
