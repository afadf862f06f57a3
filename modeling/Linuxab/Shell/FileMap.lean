import Mathlib.Data.Set.Card
import Linuxab.Shell.FileSystem

/-! The RAM file system as a finite map. The abstract operations work on a partial function from
paths to nodes; the table of entries represents such a map, and every sequence of calls gives the
same answers on both. -/
namespace Linuxab.Shell
open Linuxab.Base

inductive Node
  | dir
  | file (contents : List UInt8)
  deriving DecidableEq

abbrev FileMap := List UInt8 → Option Node

namespace FileMap

/-- The number of paths in the map. -/
noncomputable def size (m : FileMap) : ℕ := {p | m p ≠ none}.ncard

/-- Add a node at an absent path while there is room. -/
noncomputable def add (node : Node) (m : FileMap) (p : List UInt8) : Bool × FileMap :=
  if m p = none ∧ m.size < 48 then (true,Function.update m p (some node)) else (false,m)

noncomputable def mkdir : FileMap → List UInt8 → Bool × FileMap := add .dir
noncomputable def create : FileMap → List UInt8 → Bool × FileMap := add (.file [])

/-- Replace the contents of a file or make a new one, cut at 4096 bytes. -/
noncomputable def write (m : FileMap) (p data : List UInt8) : Bool × FileMap :=
  match m p with
  | some .dir => (false,m)
  | some (.file _) => (true,Function.update m p (some (.file (data.take 4096))))
  | none => add (.file (data.take 4096)) m p

/-- Extend the contents of a file, cut at 4096 bytes. -/
def append (m : FileMap) (p data : List UInt8) : Bool × FileMap :=
  match m p with
  | some (.file old) => (true,Function.update m p (some (.file ((old ++ data).take 4096))))
  | _ => (false,m)

def read (m : FileMap) (p : List UInt8) : Option (List UInt8) :=
  match m p with
  | some (.file contents) => some contents
  | _ => none

end FileMap

/-- What an entry stands for. -/
def FileEntry.node (e : FileEntry) : Node := if e.isDir then .dir else .file e.contents

def FileEntry.name (e : FileEntry) : List UInt8 := text e.path.toList

/-- The used entries have distinct paths and are the graph of the map. -/
structure Represents (files : FileTable) (m : FileMap) : Prop where
  distinct : ∀ i j, (files i).used → (files j).used → (files i).name = (files j).name → i = j
  lookup : ∀ p node, m p = some node ↔ ∃ i, (files i).used ∧ (files i).name = p ∧ (files i).node = node

/-- What `path_normalize` yields. -/
def ValidPath (p : List UInt8) : Prop := 0 ∉ p ∧ p.length ≤ 127

section Entries
variable (e : FileEntry) (data : List UInt8)

@[simp] lemma contents_length : e.contents.length = e.size := by
  have := e.size_le
  simp [FileEntry.contents,this]

@[simp] lemma node_claim (p : List UInt8) (isDir : Bool) :
    (e.claim p isDir).node = if isDir then .dir else .file [] := by
  cases isDir <;> simp [FileEntry.node,FileEntry.claim,FileEntry.contents]

lemma name_claim {p : List UInt8} (hp : ValidPath p) (isDir : Bool) : (e.claim p isDir).name = p :=
  text_copyBytes e.path hp.1 (Nat.le_succ_of_le hp.2)

lemma contents_overwrite : (e.overwrite data).contents = data.take 4096 := by
  have h : (e.overwrite data).contents = e.data.toList.take 0 ++ data.take (min data.length 4096) :=
    take_blit e.data (by simp) (by simp [FileEntry.overwrite])
  rw [h,List.take_zero,List.nil_append]
  rcases Nat.le_total data.length 4096 with hd | hd
  · rw [Nat.min_eq_left hd,List.take_length,List.take_of_length_le hd]
  · rw [Nat.min_eq_right hd]

lemma contents_extend : (e.extend data).contents = (e.contents ++ data).take 4096 := by
  have h : (e.extend data).contents = e.contents ++ data.take (min data.length (4096-e.size)) :=
    take_blit e.data (by have := e.size_le; simp; omega) (by simp [FileEntry.extend])
  have hold : e.contents.take 4096 = e.contents :=
    List.take_of_length_le (by rw [contents_length]; exact e.size_le)
  rw [h,List.take_append,contents_length,hold]
  rcases Nat.le_total data.length (4096-e.size) with hd | hd
  · rw [Nat.min_eq_left hd,List.take_length,List.take_of_length_le hd]
  · rw [Nat.min_eq_right hd]

end Entries

section Lookup
variable {files : FileTable} {m : FileMap} {p : List UInt8}

lemma fsFind_eq_none_iff_name {files : FileTable} (hp : 0 ∉ p) :
    fsFind files p = none ↔ ∀ i, (files i).used → (files i).name ≠ p := by
  rw [fsFind_eq_none,text_of_noNul hp]
  rfl

/-- The table finds the entry of a path, and the map has its node. -/
lemma Represents.find_some (h : Represents files m) (hp : 0 ∉ p) {i : Fin 48}
    (hi : fsFind files p = some i) : m p = some (files i).node := by
  obtain ⟨hu,ht⟩ := fsFind_spec hi
  rw [text_of_noNul hp] at ht
  exact (h.lookup _ _).mpr ⟨i,hu,ht,rfl⟩

lemma Represents.find_none (h : Represents files m) (hp : 0 ∉ p) (hi : fsFind files p = none) :
    m p = none := by
  rw [fsFind_eq_none_iff_name hp] at hi
  cases hm : m p with
  | none => rfl
  | some node =>
    obtain ⟨i,hu,hn,-⟩ := (h.lookup _ _).mp hm
    exact absurd hn (hi i hu)

lemma Represents.size_eq (h : Represents files m) :
    m.size = (Finset.univ.filter fun i => (files i).used = true).card := by
  have himage : {p | m p ≠ none} =
      (fun i => (files i).name) '' {i | (files i).used = true} := by
    ext p
    rw [Set.mem_ofPred_eq,Option.ne_none_iff_exists']
    constructor
    · intro hn
      obtain ⟨node,hn⟩ := hn
      obtain ⟨i,hu,hi,-⟩ := (h.lookup _ _).mp hn
      exact ⟨i,hu,hi⟩
    · intro hi
      obtain ⟨i,hu,hi⟩ := hi
      exact ⟨_,(h.lookup _ _).mpr ⟨i,hu,hi,rfl⟩⟩
  have hinj : Set.InjOn (fun i => (files i).name) {i | (files i).used = true} :=
    fun i hi j hj => h.distinct i j hi hj
  rw [FileMap.size,himage,hinj.ncard_image,← Set.ncard_coe_finset]
  congr 1
  ext i
  simp

/-- There is a free entry exactly while the map has room. -/
lemma Represents.findFree_none (h : Represents files m) : fsFindFree files = none ↔ ¬ m.size < 48 := by
  rw [h.size_eq]
  unfold fsFindFree
  have hcard : Finset.card (Finset.univ : Finset (Fin 48)) = 48 := by simp
  constructor
  · intro hn
    have hall : ∀ i, (files i).used = true := by simpa [List.find?_eq_none] using hn
    rw [Finset.filter_true_of_mem (fun i _ => hall i),hcard]
    exact lt_irrefl _
  · intro hfull
    have hle := Finset.card_filter_le (Finset.univ : Finset (Fin 48)) (fun i => (files i).used = true)
    have heq := Finset.filter_card_eq (s := (Finset.univ : Finset (Fin 48)))
      (p := fun i => (files i).used = true) (by omega)
    simpa [List.find?_eq_none] using heq

end Lookup

/-- Changing the entry that holds, or is to hold, the path `p`. -/
lemma Represents.update {files : FileTable} {m : FileMap} (h : Represents files m) {i : Fin 48}
    {e : FileEntry} {p : List UInt8} (hused : e.used) (hname : e.name = p)
    (hold : (files i).used → (files i).name = p)
    (hother : ∀ j, j ≠ i → (files j).used → (files j).name ≠ p) :
    Represents (Function.update files i e) (Function.update m p (some e.node)) := by
  constructor
  · intro j k hj hk hn
    by_cases hji : j = i <;> by_cases hki : k = i
    · rw [hji,hki]
    · subst hji
      rw [Function.update_self] at hn
      rw [Function.update_of_ne hki] at hk hn
      exact absurd (hn.symm.trans hname) (hother k hki hk)
    · subst hki
      rw [Function.update_self] at hn
      rw [Function.update_of_ne hji] at hj hn
      exact absurd (hn.trans hname) (hother j hji hj)
    · rw [Function.update_of_ne hji] at hj hn
      rw [Function.update_of_ne hki] at hk hn
      exact h.distinct j k hj hk hn
  · intro q node
    by_cases hq : q = p
    · subst hq
      rw [Function.update_self]
      constructor
      · intro hn
        refine ⟨i,?_,?_,?_⟩ <;> rw [Function.update_self]
        · exact hused
        · exact hname
        · exact Option.some.inj hn
      · intro hj
        obtain ⟨j,hu,hn,hnode⟩ := hj
        by_cases hji : j = i
        · rw [hji,Function.update_self] at hnode
          rw [hnode]
        · rw [Function.update_of_ne hji] at hu hn
          exact absurd hn (hother j hji hu)
    · rw [Function.update_of_ne hq,h.lookup]
      refine exists_congr fun j => ?_
      by_cases hji : j = i
      · subst hji
        rw [Function.update_self]
        constructor
        · intro hj
          exact absurd (hj.2.1.symm.trans (hold hj.1)) hq
        · intro hj
          exact absurd (hj.2.1.symm.trans hname) hq
      · rw [Function.update_of_ne hji]

section Operations
variable {files : FileTable} {m : FileMap} {p : List UInt8}

lemma Represents.add (h : Represents files m) (hp : ValidPath p) (isDir : Bool) {node : Node}
    (hnode : node = if isDir then .dir else .file []) :
    (fsAdd isDir files p).1 = (m.add node p).1 ∧ Represents (fsAdd isDir files p).2 (m.add node p).2 := by
  unfold fsAdd FileMap.add
  cases hf : fsFind files p with
  | some i =>
    have hm := h.find_some hp.1 hf
    simp [hm,h]
  | none =>
    have hm := h.find_none hp.1 hf
    have habsent := (fsFind_eq_none_iff_name hp.1).mp hf
    cases hi : fsFindFree files with
    | none =>
      have hfull := h.findFree_none.mp hi
      simp [hfull,h]
    | some i =>
      have hroom : m.size < 48 := by
        by_contra hfull
        rw [h.findFree_none.mpr hfull] at hi
        cases hi
      have hfree := fsFindFree_spec hi
      have hup := h.update (i := i) (e := (files i).claim p isDir) rfl (name_claim _ hp isDir)
        (by simp [hfree]) (fun j _ hu => habsent j hu)
      rw [node_claim,← hnode] at hup
      simpa [hm,hroom] using hup

/-- Changing the contents of the entry that was found. -/
lemma Represents.modify (h : Represents files m) (hp : ValidPath p) {i : Fin 48}
    (hi : fsFind files p = some i) {e : FileEntry} (hused : e.used = (files i).used)
    (hname : e.name = (files i).name) :
    Represents (Function.update files i e) (Function.update m p (some e.node)) := by
  obtain ⟨hu,ht⟩ := fsFind_spec hi
  rw [text_of_noNul hp.1] at ht
  have hn : (files i).name = p := ht
  apply h.update (hused.trans hu) (hname.trans hn) (fun _ => hn)
  intro j hji hj hjn
  exact hji (h.distinct j i hj hu (hjn.trans hn.symm))

lemma Represents.append (h : Represents files m) (hp : ValidPath p) (data : List UInt8) :
    (fsAppend files p data).1 = (m.append p data).1 ∧
      Represents (fsAppend files p data).2 (m.append p data).2 := by
  unfold fsAppend FileMap.append
  cases hf : fsFind files p with
  | none => simp [h.find_none hp.1 hf,h]
  | some i =>
    have hm := h.find_some hp.1 hf
    cases hd : (files i).isDir with
    | true => simp [hm,FileEntry.node,hd,h]
    | false =>
      have hup := h.modify hp hf (e := (files i).extend data) rfl rfl
      have hnode : ((files i).extend data).node = .file (((files i).contents ++ data).take 4096) := by
        rw [FileEntry.node,show ((files i).extend data).isDir = false from hd,contents_extend]
        rfl
      rw [hnode] at hup
      simpa [hm,FileEntry.node,hd] using hup

/-- `fs_write` to an existing path. -/
lemma Represents.write_found (h : Represents files m) (hp : ValidPath p) (data : List UInt8) {i : Fin 48}
    (hf : fsFind files p = some i) :
    (fsWrite files p data).1 = (m.write p data).1 ∧
      Represents (fsWrite files p data).2 (m.write p data).2 := by
  rw [fsWrite,FileMap.write]
  have hm := h.find_some hp.1 hf
  cases hd : (files i).isDir with
  | true => simp [hm,hf,FileEntry.node,hd,h]
  | false =>
    have hup := h.modify hp hf (e := (files i).overwrite data) rfl rfl
    have hnode : ((files i).overwrite data).node = .file (data.take 4096) := by
      rw [FileEntry.node,show ((files i).overwrite data).isDir = false from hd,contents_overwrite]
      rfl
    rw [hnode] at hup
    simpa [hm,hf,FileEntry.node,hd] using hup

/-- `fs_write` creates a missing file and then finds it. -/
lemma Represents.write (h : Represents files m) (hp : ValidPath p) (data : List UInt8) :
    (fsWrite files p data).1 = (m.write p data).1 ∧
      Represents (fsWrite files p data).2 (m.write p data).2 := by
  cases hf : fsFind files p with
  | some i => exact h.write_found hp data hf
  | none =>
    have hm := h.find_none hp.1 hf
    obtain ⟨hres,hrep⟩ : (fsCreate files p).1 = (m.add (.file []) p).1 ∧
      Represents (fsCreate files p).2 (m.add (.file []) p).2 := h.add hp false rfl
    rw [fsWrite,FileMap.write,hm]
    simp only [hf]
    by_cases hroom : m.size < 48
    · have hadd : m.add (.file []) p = (true,Function.update m p (some (.file []))) :=
        if_pos ⟨hm,hroom⟩
      have hadd' : m.add (.file (data.take 4096)) p =
          (true,Function.update m p (some (.file (data.take 4096)))) := if_pos ⟨hm,hroom⟩
      rw [hadd] at hres hrep
      rw [hadd']
      rw [dif_pos (show (fsCreate files p).1 = true from hres)]
      cases hf' : fsFind (fsCreate files p).2 p with
      | none =>
        have := hrep.find_none hp.1 hf'
        simp at this
      | some i =>
        have hw := hrep.write_found hp data hf'
        simpa [FileMap.write] using hw
    · have hadd : ∀ node, m.add node p = (false,m) := fun node => if_neg fun hc => hroom hc.2
      rw [hadd] at hres hrep ⊢
      rw [dif_neg (ne_true_of_eq_false hres)]
      exact ⟨rfl,hrep⟩

lemma Represents.read (h : Represents files m) (hp : ValidPath p) : fsRead files p = m.read p := by
  unfold fsRead FileMap.read
  cases hf : fsFind files p with
  | none => simp [h.find_none hp.1 hf]
  | some i =>
    cases hd : (files i).isDir <;> simp [h.find_some hp.1 hf,FileEntry.node,hd]

end Operations

section Runs

inductive FsCall
  | mkdir (path : List UInt8)
  | create (path : List UInt8)
  | write (path data : List UInt8)
  | append (path data : List UInt8)
  | read (path : List UInt8)

def FsCall.path : FsCall → List UInt8
  | .mkdir p | .create p | .write p _ | .append p _ | .read p => p

inductive FsAnswer
  | flag (ok : Bool)
  | bytes (data : Option (List UInt8))
  deriving DecidableEq

def fsStep (files : FileTable) : FsCall → FsAnswer × FileTable
  | .mkdir p => (.flag (fsMkdir files p).1,(fsMkdir files p).2)
  | .create p => (.flag (fsCreate files p).1,(fsCreate files p).2)
  | .write p data => (.flag (fsWrite files p data).1,(fsWrite files p data).2)
  | .append p data => (.flag (fsAppend files p data).1,(fsAppend files p data).2)
  | .read p => (.bytes (fsRead files p),files)

noncomputable def FileMap.step (m : FileMap) : FsCall → FsAnswer × FileMap
  | .mkdir p => (.flag (m.mkdir p).1,(m.mkdir p).2)
  | .create p => (.flag (m.create p).1,(m.create p).2)
  | .write p data => (.flag (m.write p data).1,(m.write p data).2)
  | .append p data => (.flag (m.append p data).1,(m.append p data).2)
  | .read p => (.bytes (m.read p),m)

/-- The answers of a sequence of calls and the state after it. -/
def runSteps {σ : Type} (step : σ → FsCall → FsAnswer × σ) (s : σ) : List FsCall → List FsAnswer × σ
  | [] => ([],s)
  | c::calls =>
    let r := step s c
    let rest := runSteps step r.2 calls
    (r.1::rest.1,rest.2)

lemma Represents.step {files : FileTable} {m : FileMap} (h : Represents files m) {c : FsCall}
    (hc : ValidPath c.path) :
    (fsStep files c).1 = (m.step c).1 ∧ Represents (fsStep files c).2 (m.step c).2 := by
  cases c with
  | mkdir p =>
    have := h.add hc true (Eq.refl Node.dir)
    exact ⟨congrArg _ this.1,this.2⟩
  | create p =>
    have := h.add hc false (Eq.refl (Node.file []))
    exact ⟨congrArg _ this.1,this.2⟩
  | write p data =>
    have := h.write hc data
    exact ⟨congrArg _ this.1,this.2⟩
  | append p data =>
    have := h.append hc data
    exact ⟨congrArg _ this.1,this.2⟩
  | read p => exact ⟨congrArg _ (h.read hc),h⟩

lemma Represents.run {files : FileTable} {m : FileMap} (h : Represents files m) (calls : List FsCall)
    (hcalls : ∀ c ∈ calls, ValidPath c.path) :
    (runSteps fsStep files calls).1 = (runSteps FileMap.step m calls).1 ∧
      Represents (runSteps fsStep files calls).2 (runSteps FileMap.step m calls).2 := by
  induction calls generalizing files m with
  | nil => exact ⟨rfl,h⟩
  | cons c calls ih =>
    obtain ⟨hres,hrep⟩ := h.step (hcalls c (by simp))
    obtain ⟨hress,hreps⟩ := ih hrep (fun c hc => hcalls c (by simp [hc]))
    exact ⟨by simp only [runSteps,hres,hress],hreps⟩

lemma represents_empty {files : FileTable} (h : ∀ i, (files i).used = false) :
    Represents files (fun _ => none) := by
  constructor
  · intro i j hi
    simp [h i] at hi
  · intro p node
    simp [h]

lemma fsAdd_failed {files : FileTable} {isDir : Bool} {p : List UInt8} (h : (fsAdd isDir files p).1 = false) :
    (fsAdd isDir files p).2 = files := by
  unfold fsAdd at *
  split
  · rfl
  · cases hi : fsFindFree files with
    | none => rfl
    | some i => simp_all

/-- A missing file that cannot be written could not be created: a created file is found again. -/
lemma Represents.create_failed {files : FileTable} {m : FileMap} (h : Represents files m) {p data : List UInt8}
    (hp : ValidPath p) (hf : fsFind files p = none) (hfail : (fsWrite files p data).1 = false) :
    (fsCreate files p).1 = false := by
  have hm := h.find_none hp.1 hf
  have hwrite : (m.write p data).1 = false := (h.write hp data).1.symm.trans hfail
  have hres : (fsCreate files p).1 = (m.add (.file []) p).1 := (h.add hp false rfl).1
  by_cases hroom : m.size < 48
  · simp [FileMap.write,FileMap.add,hm,hroom] at hwrite
  · rw [hres]
    simp [FileMap.add,hroom]

/-- A call that reports failure leaves the table as it is. -/
lemma fsStep_failed {files : FileTable} {m : FileMap} (h : Represents files m) {c : FsCall}
    (hc : ValidPath c.path) (hfail : (fsStep files c).1 = .flag false) : (fsStep files c).2 = files := by
  cases c with
  | mkdir p => exact fsAdd_failed (FsAnswer.flag.inj hfail)
  | create p => exact fsAdd_failed (FsAnswer.flag.inj hfail)
  | append p data =>
    simp only [fsStep,fsAppend,FsAnswer.flag.injEq] at hfail ⊢
    cases hf : fsFind files p with
    | none => rfl
    | some i => cases hd : (files i).isDir <;> simp_all
  | read p => rfl
  | write p data =>
    cases hf : fsFind files p with
    | some i => cases hd : (files i).isDir <;> simp_all [fsStep,fsWrite]
    | none =>
      have hcreate : (fsCreate files p).1 = false := h.create_failed hc hf (FsAnswer.flag.inj hfail)
      simp only [fsStep]
      rw [fsWrite,hf]
      simp only [dif_neg (ne_true_of_eq_false hcreate)]
      exact fsAdd_failed hcreate

end Runs

/-- Every sequence of calls on an empty table is answered as the finite map answers it; the used
entries have distinct paths and hold exactly the nodes of the map, at most 48 with at most 4096
bytes each, and a call that reports failure changes nothing. -/
theorem fs_refines_map (files : FileTable) (hempty : ∀ i, (files i).used = false) (calls : List FsCall)
    (hcalls : ∀ c ∈ calls, ValidPath c.path) :
    let run := runSteps fsStep files calls
    let spec := runSteps FileMap.step (fun _ => none) calls
    run.1 = spec.1 ∧
    (∀ i j, (run.2 i).used → (run.2 j).used → (run.2 i).name = (run.2 j).name → i = j) ∧
    (∀ p node, spec.2 p = some node ↔
      ∃ i, (run.2 i).used ∧ (run.2 i).name = p ∧ (run.2 i).node = node) ∧
    (Finset.univ.filter fun i => (run.2 i).used = true).card ≤ 48 ∧ (∀ i, (run.2 i).size ≤ 4096) ∧
    ∀ c, ValidPath c.path → (fsStep run.2 c).1 = .flag false → (fsStep run.2 c).2 = run.2 := by
  intro run spec
  obtain ⟨hres,hrep⟩ := (represents_empty hempty).run calls hcalls
  refine ⟨hres,hrep.distinct,hrep.lookup,?_,fun i => (run.2 i).size_le,?_⟩
  · calc
      _ ≤ (Finset.univ : Finset (Fin 48)).card := Finset.card_filter_le _ _
      _ = 48 := by simp
  · intro c hc hfail
    exact fsStep_failed hrep hc hfail

/-- `static mut FILES` before `fs_init`. -/
def blankFiles : FileTable := fun _ =>
  { path := List.Vector.replicate 128 0, data := List.Vector.replicate 4096 0, size := 0, isDir := false,
    used := false, size_le := FileEntry.empty_le }

theorem fs_refines_map_two_calls :
    let calls := [FsCall.mkdir [47,97],FsCall.write [47,97,47,98] [104,105]]
    (runSteps fsStep blankFiles calls).1 = (runSteps FileMap.step (fun _ => none) calls).1 :=
  (fs_refines_map blankFiles (fun _ => rfl) _ (by simp [ValidPath,FsCall.path])).1

end Linuxab.Shell
