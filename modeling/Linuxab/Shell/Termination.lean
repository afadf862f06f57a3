import Linuxab.Base.Slots
import Mathlib.Data.Set.Finite.List
import Linuxab.Shell.Execute
import Linuxab.Shell.Boot

/-! When `execute_line` comes to an end. Lines run by `source` are run in the middle of the line that
contains it, with nothing to bound the nesting. -/
namespace Linuxab.Shell
open Linuxab.Base

section Bounded

/-- The lines of a file are cut at 255 bytes. -/
def ShortLine (q : Request) : Prop := q.2.length ≤ 255

lemma runLine_short {s : ShellState} {line : List UInt8} {printed : Output}
    {next : ShellState → Output → LineActivation} (hline : line.length ≤ 255)
    (hnext : ∀ s printed, (next s printed).AllCalls ShortLine) : (runLine s line printed next).AllCalls ShortLine := by
  unfold runLine
  split
  · exact hnext s printed
  · refine ⟨hline,?_⟩
    intro ⟨outcome,output⟩
    cases outcome with
    | returned s' => exact hnext s' _
    | rebooted => trivial
    | halted => trivial

lemma sourceLines_short {idx : Fin 48} (rest : List (Fin 4096)) {s : ShellState} {line : List UInt8}
    {printed : Output} (hline : line.length ≤ 255) : (sourceLines idx rest s line printed).AllCalls ShortLine := by
  induction rest generalizing s line printed with
  | nil => exact runLine_short hline fun _ _ => trivial
  | cons i rest ih =>
    unfold sourceLines
    simp only
    split
    · exact runLine_short hline fun _ _ => ih (by simp)
    split
    · exact ih (by simp; omega)
    · exact ih hline

lemma cmdSource_short (s : ShellState) (args : Args) : (cmdSource s args).AllCalls ShortLine := by
  unfold cmdSource
  split
  · split
    · split
      · trivial
      · exact sourceLines_short _ (by simp)
    · trivial
  · trivial

lemma dispatch_short (s : ShellState) (args : Args) : (dispatch s args).AllCalls ShortLine := by
  unfold dispatch
  simp only
  split
  · next b _ =>
    cases b with
    | source => exact cmdSource_short s args
    | _ => trivial
  · trivial

lemma executeLine_short (q : Request) : (executeLine q).AllCalls ShortLine := by
  unfold executeLine
  simp only
  split
  · trivial
  split
  · trivial
  split
  · split
    · trivial
    · exact dispatch_short _ _
  · exact dispatch_short _ _

end Bounded

/-- A line comes to an end, by returning or by stopping the machine, exactly if in the course of it
no line is started again in the same state while it is still being executed. -/
theorem executeLine_terminates_iff (q : Request) :
    Terminates executeLine q ↔ ¬∃ q', Relation.ReflTransGen (Calls executeLine) q q' ∧
      Relation.TransGen (Calls executeLine) q' q' := by
  apply terminates_iff
  apply (Set.finite_univ.prod (List.finite_length_le UInt8 255)).subset
  rintro ⟨s,line⟩ ⟨q,hq⟩
  exact ⟨trivial,hq.of_allCalls (executeLine_short q)⟩

section SelfSourcing

lemma fsFind_congr (files : FileTable) {p q : List UInt8} (h : text p = text q) : fsFind files p = fsFind files q := by
  unfold fsFind
  congr 1
  funext i
  have hiff : strEq (files i).path.toList p = strEq (files i).path.toList q := by
    rw [Bool.eq_iff_iff,strEq_iff,strEq_iff,h]
  rw [hiff]

/-- An entry with the path is found, since any other would have been found before. -/
lemma fsFind_update {files : FileTable} {p : List UInt8} (hnone : fsFind files p = none) (i : Fin 48) {e : FileEntry}
    (hused : e.used) (htext : text e.path.toList = text p) : fsFind (Function.update files i e) p = some i := by
  apply find?_slots_update_of_none (p := fun e : FileEntry => e.used && strEq e.path.toList p) hnone i
  rw [hused,Bool.true_and]
  exact (strEq_iff _ _).mpr htext

/-- A write to a new path makes a file with these contents. -/
lemma fsWrite_new {files : FileTable} {p : List UInt8} {i : Fin 48} (data : List UInt8) (hnone : fsFind files p = none)
    (hfree : fsFindFree files = some i) (hname : text (copyBytes (files i).path p).toList = text p) :
    fsFind (fsWrite files p data).2 p = some i ∧ ((fsWrite files p data).2 i).isDir = false ∧
      ((fsWrite files p data).2 i).contents = data.take 4096 := by
  have hcreate : fsCreate files p = (true,Function.update files i ((files i).claim p false)) := by
    simp [fsCreate,fsAdd,hnone,hfree]
  have hclaim : fsFind (Function.update files i ((files i).claim p false)) p = some i :=
    fsFind_update hnone i rfl hname
  have hwrite : fsWrite files p data =
      (true,Function.update files i (((files i).claim p false).overwrite data)) := by
    rw [fsWrite,hnone]
    simp only [hcreate,dif_pos]
    rw [fsWrite,hclaim]
    simp [FileEntry.claim]
  simp only [hwrite,Function.update_self]
  exact ⟨fsFind_update hnone i rfl hname,rfl,contents_overwrite _ _⟩

/-- A file without a line end is one line. -/
lemma sourceLines_noNewline {idx : Fin 48} {s : ShellState} {rest : List (Fin 4096)} {line : List UInt8}
    {printed : Output} (hbytes : 10 ∉ rest.map (s.files idx).data.get) (hlen : line.length+rest.length ≤ 255) :
    sourceLines idx rest s line printed =
      runLine s (line ++ rest.map (s.files idx).data.get) printed fun s printed => answer (s,printed) := by
  induction rest generalizing line with
  | nil => simp [sourceLines]
  | cons i rest ih =>
    simp only [List.map_cons,List.mem_cons,not_or,List.length_cons] at hbytes hlen
    unfold sourceLines
    simp only [if_neg (Ne.symm hbytes.1),if_pos (show line.length < 255 by omega)]
    rw [ih hbytes.2 (by simp; omega)]
    simp

lemma map_positions (e : FileEntry) : e.positions.map e.data.get = e.contents := by
  rw [FileEntry.positions,FileEntry.contents,List.map_take,map_get_finRange]

/-- The file `/f` in the root directory holds the line that runs it. -/
structure SourcesItself (s : ShellState) : Prop where
  cwd : s.cwdText = [47]
  noAlias : resolveAlias s (bytes "source") = none
  file : ∃ idx, fsFind s.files (bytes "/f") = some idx ∧ (s.files idx).isDir = false ∧
    (s.files idx).contents = bytes "source /f"

lemma normalize_f {s : ShellState} (hcwd : s.cwdText = [47]) :
    (s.normalize (bytes "/f")).toList = padded (bytes "/f") := by
  have h := pathNormalize_eq (show s.cwdText.head? = some 47 by rw [hcwd]; decide) (by rw [hcwd]; decide)
    (show 0 ∉ bytes "/f" by decide) (by rw [hcwd]; decide)
  obtain ⟨v,hv,hp⟩ := Option.map_eq_some_iff.mp h
  have hn : s.normalize (bytes "/f") = v := by simp [ShellState.normalize,hv]
  rw [hn,hp,hcwd]
  decide

/-- Running the line starts it again. -/
lemma executeLine_sourcesItself {s : ShellState} (h : SourcesItself s) :
    ∃ s' next, SourcesItself s' ∧ executeLine (s,bytes "source /f") = .nested (s',bytes "source /f") next := by
  obtain ⟨idx,hfind,hdir,hcont⟩ := h.file
  have htrim : trim (bytes "source /f") = bytes "source /f" := by decide
  generalize hs' : recordHistory s (bytes "source /f") = s'
  have hfiles : s'.files = s.files := by rw [← hs',recordHistory_files]
  have hself : SourcesItself s' := by
    refine ⟨?_,?_,idx,hfiles ▸ hfind,hfiles ▸ hdir,hfiles ▸ hcont⟩
    · rw [← hs',recordHistory_cwdText,h.cwd]
    · rw [← hs',resolveAlias_recordHistory,h.noAlias]
  have hpath : fsFind s'.files (s'.normalize (bytes "/f")).toList = some idx := by
    rw [hfiles,fsFind_congr s.files (q := bytes "/f"),hfind]
    rw [normalize_f hself.cwd]
    decide
  have hlines : sourceLines idx (s'.files idx).positions s' [] [] =
      runLine s' (bytes "source /f") [] fun s printed => answer (s,printed) := by
    have hcont' : (s'.files idx).contents = bytes "source /f" := hfiles ▸ hcont
    have hlen : (s'.files idx).positions.length = 9 := by
      rw [← List.length_map (s'.files idx).data.get,map_positions,hcont']
      decide
    rw [sourceLines_noNewline (by rw [map_positions,hcont']; decide) (by rw [hlen]; decide),map_positions,hcont']
    rfl
  have hargs : parseArgs (trim (bytes "source /f")) = [bytes "source",bytes "/f"] := by decide
  have hsource : builtinOf (bytes "source") = some .source := by decide
  rw [executeLine_of_noAlias _ (by decide) hargs h.noAlias,htrim,hs']
  simp only [dispatch,List.headD_cons,hsource,runBuiltin,cmdSource,hpath]
  rw [if_neg (by rw [hfiles,hdir]; decide),hlines,runLine,if_neg (by decide)]
  exact ⟨s',_,hself,rfl⟩

lemma not_terminates_of_sourcesItself {s : ShellState} (h : SourcesItself s) :
    ¬Terminates executeLine (s,bytes "source /f") := by
  rintro ⟨r,n,hn⟩
  induction n generalizing s r with
  | zero => cases hn
  | succ n ih =>
    obtain ⟨s',next,hs',he⟩ := executeLine_sourcesItself h
    rw [runs,he] at hn
    obtain ⟨r',hr,-⟩ := Option.bind_eq_some_iff.mp hn
    exact ih hs' r' hr

lemma toList_copyBytes {n : ℕ} (dst : List.Vector UInt8 n) {src : List UInt8} (h : src.length = n) :
    (copyBytes dst src).toList = src := by
  subst h
  have hdrop : dst.toList.drop src.length = [] := List.drop_eq_nil_of_le (by simp)
  simp [copyBytes,hdrop]

/-- Writing the line into `/f` on the freshly started file system makes the file. -/
lemma fsWrite_fsInit {p : List UInt8} (hp : p = padded (bytes "/f")) :
    ∃ idx, fsFind (fsWrite fsInit p (bytes "source /f")).2 (bytes "/f") = some idx ∧
      ((fsWrite fsInit p (bytes "source /f")).2 idx).isDir = false ∧
      ((fsWrite fsInit p (bytes "source /f")).2 idx).contents = bytes "source /f" := by
  have htext : text p = text (bytes "/f") := by rw [hp]; decide
  obtain ⟨habsent,hroom⟩ := initMap_absent (p := bytes "/f") (by decide) (by decide)
  have hnone : fsFind fsInit (bytes "/f") = none := by
    cases hf : fsFind fsInit (bytes "/f") with
    | none => rfl
    | some i => cases habsent.symm.trans (represents_fsInit.find_some (by decide) hf)
  obtain ⟨idx,hfree⟩ := Option.ne_none_iff_exists'.mp (mt represents_fsInit.findFree_none.mp (not_not.mpr hroom))
  obtain ⟨hfind,hdir,hcont⟩ := fsWrite_new (bytes "source /f") ((fsFind_congr fsInit htext).trans hnone) hfree
    (by rw [toList_copyBytes _ (hp ▸ length_padded (by decide))])
  exact ⟨idx,(fsFind_congr _ htext).symm.trans hfind,hdir,hcont⟩

/-- After `write /f source /f` on the freshly started shell, `source /f` never returns. -/
theorem source_not_terminates :
    ∃ s, Returns executeLine (bootState,bytes "write /f source /f") ⟨.returned s,[]⟩ ∧
      ¬Terminates executeLine (s,bytes "source /f") := by
  have hargs : parseArgs (trim (bytes "write /f source /f")) =
      [bytes "write",bytes "/f",bytes "source",bytes "/f"] := by decide
  have hwrite : builtinOf (bytes "write") = some .write := by decide
  have hjoin : joinWords 4096 [bytes "source",bytes "/f"] = bytes "source /f" := by decide
  have halias : ∀ name, resolveAlias bootState name = none := fun _ => rfl
  have hexec := executeLine_of_noAlias (bytes "write /f source /f") (by decide) hargs (halias _)
  generalize hs : recordHistory bootState (trim (bytes "write /f source /f")) = s at hexec
  have hfiles : s.files = fsInit := by rw [← hs,recordHistory_files,bootState_files]
  have hcwd : s.cwdText = [47] := by rw [← hs,recordHistory_cwdText,bootState_cwdText]
  have hcount : resolveAlias s (bytes "source") = none := by rw [← hs,resolveAlias_recordHistory,halias]
  refine ⟨{ s with files := (fsWrite s.files (s.normalize (bytes "/f")).toList (bytes "source /f")).2 },⟨1,?_⟩,?_⟩
  · simp only [runs,hexec,dispatch,List.headD_cons,hwrite,runBuiltin,cmdWrite,putWords,hjoin]
    rfl
  · apply not_terminates_of_sourcesItself
    refine ⟨hcwd,hcount,?_⟩
    rw [hfiles]
    exact fsWrite_fsInit (normalize_f hcwd)

end SelfSourcing
end Linuxab.Shell
