import Linuxab.Shell.Commands
import Linuxab.Shell.PathReference
import Linuxab.Shell.Subtree

/-!
`cd` and `ls` against the path hierarchy.  A path without `.` and `..` is normalised to itself, but the
parent that `..` leads to keeps its separator, and no stored path but the root ends with one; `ls`
compares the first bytes of the stored paths with the directory's path and takes a separator behind
them off if there is one.
-/
namespace Linuxab.Shell
open Linuxab.Base

/-! ## Paths without dots -/

/-- No component is `.` or `..`. -/
def NoDots (p : List UInt8) : Prop := ∀ c ∈ components p, c ≠ [46] ∧ c ≠ [46,46]

section Normal
variable {s : ShellState} {p input c acc : List UInt8} {cs : List (List UInt8)}

lemma walk_append (hcs : ∀ c ∈ cs, c ≠ [46] ∧ c ≠ [46,46]) (rest : List (List UInt8)) :
    walk false acc (cs ++ rest) = walk false (acc ++ slashed cs) rest := by
  induction cs generalizing acc with
  | nil => simp [slashed]
  | cons c cs ih =>
    rw [List.forall_mem_cons] at hcs
    rw [List.cons_append,walk,if_neg hcs.1.1,if_neg hcs.1.2,ih hcs.2]
    simp [slashed]

lemma components_append (p : List UInt8) (hc : 47 ∉ c) : components (p ++ 47::c) = components p ++ [c] := by
  rw [components,List.splitOn_append_cons_self,List.splitOn_eq_singleton hc,components,
    List.tail_append_of_ne_nil (List.splitOn_ne_nil _ _)]

/-- The array that `path_normalize` returns, when it is known to be a text and zeros behind it. -/
lemma normalize_eq {t : List UInt8} (h : (pathNormalize s.cwdText input).map (·.toList) = some (padded t)) :
    (s.normalize input).toList = padded t := by
  obtain ⟨v,hv,hp⟩ := Option.map_eq_some_iff.mp h
  simp [ShellState.normalize,hv,hp]

lemma walk_noDots (hp : p.head? = some 47) (hdots : NoDots p) : walk false [] (components p) = p := by
  have := @walk_append [] _ hdots []
  rwa [List.append_nil,List.nil_append,slashed_components hp,walk] at this

/-- An absolute path without dots is its own normal form, wherever the shell is. -/
lemma normalize_absolute (hp : p.head? = some 47) (h0 : 0 ∉ p) (hlen : p.length ≤ 127) (hdots : NoDots p) :
    (s.normalize p).toList = padded p := by
  have hsame : pathNormalize s.cwdText p = pathNormalize [47] p := by
    simp only [pathNormalize,joinPath,if_pos hp]
  have hjoin : joined [47] p = p := if_pos hp
  have hne : p ≠ [] := by
    rintro rfl
    cases hp
  apply normalize_eq
  rw [hsame,pathNormalize_eq rfl (by decide) h0 (by rwa [hjoin]),hjoin,walk_noDots hp hdots,orRoot_of_ne_nil hne]

/-- A relative path behind a working directory that ends with a separator. -/
lemma normalize_relative {d : List UInt8} (hcwd : s.cwdText = d ++ [47]) (hd : (d ++ [47]).head? = some 47)
    (hd0 : 0 ∉ d) (hi : IsComponent input) (hlen : (d ++ 47::input).length ≤ 127) :
    (s.normalize input).toList = padded (orRoot (walk false [] (components d ++ [input]))) := by
  have hrel : input.head? ≠ some 47 := fun h => hi.1 (List.mem_of_head? h)
  have hjoin : joined (d ++ [47]) input = d ++ 47::input := by
    rw [joined,if_neg hrel,if_pos (by simp),List.append_assoc,List.singleton_append]
  have h0 : 0 ∉ d ++ [47] := by simpa using hd0
  apply normalize_eq
  rw [hcwd,pathNormalize_eq hd h0 hi.2 (by rwa [hjoin]),hjoin,components_append d hi.1]

end Normal

/-! ## `cd` -/

section Cd
variable {s : ShellState} {path : PathBuf} {t input : List UInt8} {i : Fin 48}

/-- The working directory that is entered has a separator behind it unless it ends with one. -/
lemma cwdText_enterDirectory (hpath : path.toList = padded t) (h0 : 0 ∉ t) (hlen : t.length < 127)
    (hpos : 1 ≤ strlen path.toList) (hle : strlen path.toList ≤ 127) :
    (enterDirectory s path hpos hle).cwdText = if t.getLast? = some 47 then t else t ++ [47] := by
  have hstr : strlen path.toList = t.length := by rw [strlen_eq,hpath,text_padded h0]
  have htake : path.toList.take (strlen path.toList) = t := by rw [take_strlen,hpath,text_padded h0]
  have hcopy : (blit s.cwd 0 (path.toList.take (strlen path.toList)) (path_fits path)).toList.take
      (strlen path.toList) = t := by
    rw [take_blit s.cwd (path_fits path) (by rw [htake,hstr]; simp),htake]
    rfl
  have hlast : byte? (blit s.cwd 0 (path.toList.take (strlen path.toList)) (path_fits path)) (strlen path.toList-1) =
      t.getLast? := by
    have hget := List.getElem?_take_of_lt
      (l := (blit s.cwd 0 (path.toList.take (strlen path.toList)) (path_fits path)).toList)
      (show strlen path.toList-1 < strlen path.toList by omega)
    rw [byte?,← hget,hcopy,hstr,List.getLast?_eq_getElem?]
  unfold enterDirectory
  by_cases hsep : t.getLast? = some 47
  · rw [dif_neg (by simp [hlast,hsep]),if_pos hsep]
    exact hcopy
  · rw [dif_pos ⟨by rwa [hlast],by omega⟩,if_neg hsep]
    exact (take_blit _ (separator_fits path hle) rfl).trans (by rw [hcopy])

lemma files_enterDirectory (hpos : 1 ≤ strlen path.toList) (hle : strlen path.toList ≤ 127) :
    (enterDirectory s path hpos hle).files = s.files := by
  unfold enterDirectory
  simp only
  split_ifs <;> rfl

/-- `cd` to a stored directory. -/
lemma cmdCd_found (hfiles : PathTable s.files) (hu : (s.files i).used = true) (hdir : (s.files i).isDir = true)
    (hn : (s.normalize input).toList = padded (s.files i).name) (hlen : (s.files i).name.length < 127)
    (cmd : List UInt8) :
    (cmdCd s [cmd,input]).1.cwdText =
        (if (s.files i).name.getLast? = some 47 then (s.files i).name else (s.files i).name ++ [47]) ∧
      (cmdCd s [cmd,input]).1.files = s.files := by
  have hfind : fsFind s.files (s.normalize input).toList = some i :=
    fsFind_of_name hfiles.distinct hu (by rw [hn,text_padded (noNul_name _)])
  simp only [cmdCd,hfind,hdir,if_true]
  exact ⟨cwdText_enterDirectory hn (noNul_name _) hlen _ _,files_enterDirectory _ _⟩

/-- `cd` to a path that is not stored. -/
lemma cmdCd_missing (h0 : 0 ∉ t) (hn : (s.normalize input).toList = padded t)
    (hmissing : ∀ k, (s.files k).used = true → (s.files k).name ≠ t) (cmd : List UInt8) :
    (cmdCd s [cmd,input]).1 = s := by
  have hfind : fsFind s.files (s.normalize input).toList = none := by
    rw [hn]
    exact fsFind_eq_none.mpr fun k hk => by rw [text_padded h0]; exact hmissing k hk
  simp only [cmdCd,hfind]

end Cd

/-- `cd c` and then `cd ..`. -/
def downUp (s : ShellState) (c : List UInt8) : ShellState :=
  (cmdCd (cmdCd s [bytes "cd",c]).1 [bytes "cd",bytes ".."]).1

/-- A directory's path without the separator that the root consists of. -/
def stem (d : List UInt8) : List UInt8 := if d = [47] then [] else d

/-- The shell is in a stored directory, with a separator behind its path. -/
structure InDirectory (s : ShellState) (i : Fin 48) : Prop where
  used : (s.files i).used = true
  isDir : (s.files i).isDir = true
  cwd : s.cwdText = stem (s.files i).name ++ [47]

/-- The entry `j` is the directory `c` in the directory `i`, with a path of less than 100 bytes. -/
structure ChildDirectory (files : FileTable) (i j : Fin 48) (c : List UInt8) : Prop where
  used : (files j).used = true
  isDir : (files j).isDir = true
  name : (files j).name = stem (files i).name ++ 47::c
  isName : IsName c
  notDot : c ≠ [46]
  notDotDot : c ≠ [46,46]
  short : (files j).name.length < 100

section DownUp
variable {s : ShellState} {i j : Fin 48} {c : List UInt8}

lemma head?_stem_append (hfiles : PathTable s.files) (hin : InDirectory s i) (t : List UInt8) :
    (stem (s.files i).name ++ 47::t).head? = some 47 := by
  have habs := hfiles.absolute i hin.used
  unfold stem
  split_ifs
  · rfl
  · rw [List.head?_append,habs]
    rfl

lemma noNul_stem (e : FileEntry) : 0 ∉ stem e.name := by
  unfold stem
  split_ifs
  · exact List.not_mem_nil
  · exact noNul_name e

/-- The path to the child, and the one that `..` leads to from there. -/
lemma walk_child (hfiles : PathTable s.files) (hin : InDirectory s i) (hchild : ChildDirectory s.files i j c)
    (hdots : NoDots (stem (s.files i).name)) (rest : List (List UInt8)) :
    walk false [] (components (stem (s.files i).name) ++ [c] ++ rest) = walk false (s.files j).name rest := by
  have hcs : ∀ x ∈ components (stem (s.files i).name) ++ [c], x ≠ [46] ∧ x ≠ [46,46] := by
    intro x hx
    obtain hx | hx := List.mem_append.mp hx
    · exact hdots x hx
    · rw [List.mem_singleton.mp hx]
      exact ⟨hchild.notDot,hchild.notDotDot⟩
  rw [walk_append hcs,List.nil_append,← components_append _ hchild.isName.2,
    slashed_components (head?_stem_append hfiles hin c),hchild.name]

lemma isComponent_child (hchild : ChildDirectory s.files i j c) : IsComponent c := by
  refine ⟨hchild.isName.2,fun h0 => noNul_name (s.files j) ?_⟩
  rw [hchild.name]
  simp [h0]

/-- The directory `c` is entered if the path to it has no dots. -/
lemma cd_child (hfiles : PathTable s.files) (hin : InDirectory s i) (hchild : ChildDirectory s.files i j c)
    (hdots : NoDots (stem (s.files i).name)) :
    (cmdCd s [bytes "cd",c]).1.cwdText = (s.files j).name ++ [47] ∧ (cmdCd s [bytes "cd",c]).1.files = s.files := by
  have hshort := hchild.short
  have hne : (s.files j).name ≠ [] := by
    rw [hchild.name]
    simp
  have hn : (s.normalize c).toList = padded (s.files j).name := by
    rw [normalize_relative hin.cwd (head?_stem_append hfiles hin []) (noNul_stem _) (isComponent_child hchild)
      (by rw [← hchild.name]; omega),← List.append_nil (_ ++ [c]),walk_child hfiles hin hchild hdots,walk,
      orRoot_of_ne_nil hne]
  have hlast : (s.files j).name.getLast? ≠ some 47 := by
    apply hfiles.noTrailing j hchild.used
    intro he
    have hlen := congrArg List.length (hchild.name.symm.trans he)
    have hpos := List.length_pos_iff.mpr hchild.isName.1
    simp at hlen
    omega
  have := cmdCd_found hfiles hchild.used hchild.isDir hn (by omega) (bytes "cd")
  rwa [if_neg hlast] at this

/-- From there `..` leads to the parent with a separator behind it. -/
lemma normalize_dotDot {s' : ShellState} (hcwd : s'.cwdText = (s.files j).name ++ [47]) (hfiles : PathTable s.files)
    (hin : InDirectory s i) (hchild : ChildDirectory s.files i j c) (hdots : NoDots (stem (s.files i).name)) :
    (s'.normalize (bytes "..")).toList = padded (stem (s.files i).name ++ [47]) := by
  have hhead : ((s.files j).name ++ [47]).head? = some 47 := by
    rw [hchild.name,List.append_assoc]
    exact head?_stem_append hfiles hin _
  have hlen : ((s.files j).name ++ 47::bytes "..").length ≤ 127 := by
    have := hchild.short
    rw [List.length_append]
    change _+3 ≤ 127
    omega
  have hwalk : walk false [] (components (s.files j).name ++ [bytes ".."]) = stem (s.files i).name ++ [47] := by
    rw [hchild.name,components_append _ hchild.isName.2,walk_child hfiles hin hchild hdots,hchild.name]
    exact parent_name hchild.isName
  rw [normalize_relative hcwd hhead (noNul_name _) ⟨by decide,by decide⟩ hlen,hwalk,orRoot_of_ne_nil (by simp)]

/-- In the root directory the way back is found. -/
lemma downUp_root (hfiles : PathTable s.files) (hin : InDirectory s i) (hchild : ChildDirectory s.files i j c)
    (hroot : (s.files i).name = [47]) : (downUp s c).cwdText = s.cwdText := by
  have hstem : stem (s.files i).name = [] := if_pos hroot
  have hdots : NoDots (stem (s.files i).name) := by
    rw [hstem]
    exact nofun
  obtain ⟨hcwd,hsame⟩ := cd_child hfiles hin hchild hdots
  have hn := normalize_dotDot hcwd hfiles hin hchild hdots
  rw [hstem,List.nil_append,← hroot,← hsame] at hn
  have hback := (cmdCd_found (by rwa [hsame]) (by rw [hsame]; exact hin.used) (by rw [hsame]; exact hin.isDir) hn
    (by rw [hsame,hroot]; decide) (bytes "cd")).1
  rw [downUp,hback,hsame,hroot,hin.cwd,hstem]
  rfl

/-- Elsewhere no stored path ends with the separator that `..` leaves. -/
lemma downUp_stays (hfiles : PathTable s.files) (hin : InDirectory s i) (hchild : ChildDirectory s.files i j c)
    (hroot : (s.files i).name ≠ [47]) (hdots : NoDots (s.files i).name) :
    (downUp s c).cwdText = (s.files j).name ++ [47] := by
  have hstem : stem (s.files i).name = (s.files i).name := if_neg hroot
  rw [← hstem] at hdots
  obtain ⟨hcwd,hsame⟩ := cd_child hfiles hin hchild hdots
  have hn := normalize_dotDot hcwd hfiles hin hchild hdots
  have hstay : downUp s c = (cmdCd s [bytes "cd",c]).1 := by
    refine cmdCd_missing (by simpa using noNul_stem (s.files i)) hn (fun k hk he => ?_) (bytes "cd")
    rw [hsame] at hk he
    refine hfiles.noTrailing k hk ?_ (by rw [he]; simp)
    rw [he,hstem]
    intro hone
    have hnil : (s.files i).name = [] := List.self_eq_append_left.mp hone.symm
    have habs := hfiles.absolute i hin.used
    rw [hnil] at habs
    cases habs
  rw [hstay,hcwd]

end DownUp

/-- The root, `/a` and `/a/b`, all directories. -/
def nestedDirs : FileTable := tableOf [(bytes "/",true),(bytes "/a",true),(bytes "/a/b",true)]

lemma nestedDirs_valid : ∀ e ∈ [(bytes "/",true),(bytes "/a",true),(bytes "/a/b",true)], ValidPath e.1 := by
  unfold ValidPath
  decide

lemma pathTable_nestedDirs : PathTable nestedDirs := pathTable_tableOf nestedDirs_valid (by decide) (by decide)

lemma nestedDirs_names : (nestedDirs 0).name = bytes "/" ∧ (nestedDirs 1).name = bytes "/a" ∧
    (nestedDirs 2).name = bytes "/a/b" :=
  ⟨name_tableOf (k := 0) (e := (bytes "/",true)) nestedDirs_valid rfl,
    name_tableOf (k := 1) (e := (bytes "/a",true)) nestedDirs_valid rfl,
    name_tableOf (k := 2) (e := (bytes "/a/b",true)) nestedDirs_valid rfl⟩

/-- The shell after boot with these files, in the root directory. -/
def atRoot : ShellState := { bootState with files := nestedDirs }

lemma inA_fits : 0+(bytes "/a/").length ≤ 128 := by decide
lemma inA_pos : 1 ≤ 3 := by decide
lemma inA_le : 3 ≤ 127 := by decide

/-- The shell in `/a`. -/
def inA : ShellState :=
  { atRoot with
    cwd := blit bootState.cwd 0 (bytes "/a/") inA_fits
    cwdLen := 3
    cwdLen_pos := inA_pos
    cwdLen_le := inA_le }

end Linuxab.Shell
