import Linuxab.Base.Fold
import Mathlib.Data.List.Nodup
import Mathlib.Data.Option.Basic

/-! `build_os_kernel` of toolchain.py. The object file and the key of the result are made from the last component
of a source path only, so that sources of the same name in different directories fall together. -/
namespace Linuxab.Toolchain
open Linuxab.Base

abbrev Text := List Char

/-! ## Paths -/

/-- A component of a path. -/
structure Name where
  text : Text
  ne_nil : text ≠ []
  slash_notMem : '/' ∉ text
  ne_dot : text ≠ ['.']
  deriving DecidableEq

/-- What a path starts with; two slashes are kept apart from one. -/
inductive Root
  | none
  | slash
  | twoSlashes
  deriving DecidableEq

/-- A path of pathlib. -/
structure Path where
  root : Root
  parts : List Name
  deriving DecidableEq

/-- `rfind` of a text, without its -1. -/
def rfind (c : Char) (s : Text) : Option ℕ := (s.reverse.findIdx? (· = c)).map (s.length-1-·)

/-- Where the suffix of a component starts; one that only has a dot in front or at its end has none. -/
def suffixStart (s : Text) : Option ℕ := (rfind '.' s).filter fun i => 0 < i ∧ i < s.length-1

namespace Name

def suffix (n : Name) : Text :=
  match suffixStart n.text with
  | some i => n.text.drop i
  | none => []

def stem (n : Name) : Text :=
  match suffixStart n.text with
  | some i => n.text.take i
  | none => n.text

/-- What is left of a component, with `.o` behind it. -/
def objectText (n : Name) : Text := n.text.take (n.text.length-n.suffix.length) ++ ['.','o']

theorem objectText_ne_nil (n : Name) : n.objectText ≠ [] := by simp [objectText]

theorem slash_notMem_objectText (n : Name) : '/' ∉ n.objectText := by
  intro h
  rcases List.mem_append.mp h with h | h
  · exact n.slash_notMem (List.mem_of_mem_take h)
  · revert h
    decide

theorem objectText_ne_dot (n : Name) : n.objectText ≠ ['.'] := by
  intro h
  have hlength := congrArg List.length h
  rw [objectText,List.length_append] at hlength
  simp at hlength

/-- The component with the suffix `.o`. -/
def withSuffixO (n : Name) : Name := ⟨n.objectText,n.objectText_ne_nil,n.slash_notMem_objectText,n.objectText_ne_dot⟩

def pyModules : Name := ⟨"py_modules".toList,by decide,by decide,by decide⟩
def ui : Name := ⟨"ui".toList,by decide,by decide,by decide⟩

end Name

namespace Path

def isAbsolute (p : Path) : Bool := p.root ≠ .none

/-- `p / q`. -/
def join (p q : Path) : Path := if q.isAbsolute then q else ⟨p.root,p.parts ++ q.parts⟩

def child (p : Path) (n : Name) : Path := ⟨p.root,p.parts ++ [n]⟩

/-- The last component; `none` is the empty text. -/
def name (p : Path) : Option Name := p.parts.getLast?

theorem child_inj {p : Path} {n n' : Name} (h : p.child n = p.child n') : n = n' := by
  have hparts := congrArg Path.parts h
  exact List.singleton_inj.mp (List.append_cancel_left hparts)

end Path

/-! ## The build -/

inductive Compiler
  | gcc
  | elixir
  | ada
  | c
  | html
  | python
  deriving DecidableEq

def Compiler.text : Compiler → Text
  | gcc => "gcc".toList
  | elixir => "elixir".toList
  | ada => "ada".toList
  | c => "c".toList
  | html => "html".toList
  | python => "python".toList

/-- The calls of the compilers with the arguments they are given. -/
inductive CompileCall
  | compileKernelModule (source output : Path) (arch : Text)
  | compileC (source output : Path) (freestanding : Bool) (arch : Text)
  | compileAda (source output : Path) (mode : Text)
  | compileToOsModule (source output : Path) (module : Text)
  | compileHtml (source output : Path) (minify inlineCss : Bool)
  | compile (source output : Path)

namespace CompileCall

def source : CompileCall → Path
  | compileKernelModule source _ _ | compileC source _ _ _ | compileAda source _ _ | compileToOsModule source _ _ |
    compileHtml source _ _ _ | compile source _ => source

def output : CompileCall → Path
  | compileKernelModule _ output _ | compileC _ output _ _ | compileAda _ output _ | compileToOsModule _ output _ |
    compileHtml _ output _ _ | compile _ output => output

end CompileCall

inductive BuildError
  | unknownCompiler (name : Text)
  | emptyName (path : Path)

/-- The calls so far and the dictionary of results in the order of its keys. -/
structure Build (R : Type) where
  calls : List CompileCall
  results : List (Text × R)

/-- `d[key] = value`. -/
def setItem {R : Type} (d : List (Text × R)) (key : Text) (value : R) : List (Text × R) :=
  if key ∈ d.map Prod.fst then d.map fun e => if e.1 = key then (key,value) else e else d ++ [(key,value)]

def getCompiler (name : Text) : Except BuildError Compiler :=
  match [Compiler.gcc,.elixir,.ada,.c,.html,.python].find? fun compiler => compiler.text = name with
  | some compiler => .ok compiler
  | none => .error (.unknownCompiler name)

def callFor (arch : Text) (outputDir : Path) (src out : Path) (n : Name) : Compiler → CompileCall
  | .gcc => .compileKernelModule src out arch
  | .c => .compileC src out true arch
  | .ada => .compileAda src out "gcc".toList
  | .python => .compileToOsModule src (outputDir.child Name.pyModules) n.stem
  | .html => .compileHtml src ((outputDir.child Name.ui).child n) true true
  | .elixir => .compile src out

section Source
variable {R : Type} (arch : Text) (compile : CompileCall → R) (sourceDir outputDir : Path)

def resolve (src : Path) : Path := if src.isAbsolute then src else sourceDir.join src

/-- One source file; a path without a name has no place for a suffix. -/
def buildFile (compilerName : Text) (compiler : Compiler) (s : Build R) (src : Path) : Except BuildError (Build R) :=
  let src := resolve sourceDir src
  match src.name with
  | none => .error (.emptyName src)
  | some n =>
    let call := callFor arch outputDir src (outputDir.child n.withSuffixO) n compiler
    .ok ⟨s.calls ++ [call],setItem s.results (compilerName ++ ':'::n.text) (compile call)⟩

/-- The items of `sources` in their order; `compile` is what the compilers return. -/
def buildOsKernel (sources : List (Text × List Path)) : Except BuildError (Build R) :=
  sources.foldlM (fun s item => do
    let compiler ← getCompiler item.1
    item.2.foldlM (buildFile arch compile sourceDir outputDir item.1 compiler) s) ⟨[],[]⟩

end Source

/-! ## Objects and results -/

section Jobs
variable (sourceDir : Path)

/-- The source files with their compilers, in the order of the loops. -/
def jobs (sources : List (Text × List Path)) : List (Text × Path) :=
  sources.flatMap fun item => item.2.map fun src => (item.1,src)

/-- The name of the object file; `none` if the source path has no name. -/
def objectOf (job : Text × Path) : Option Name := (resolve sourceDir job.2).name.map Name.withSuffixO

def nameText (p : Path) : Text := (p.name.map Name.text).getD []

def keyOf (job : Text × Path) : Text := job.1 ++ ':'::nameText (resolve sourceDir job.2)

/-- The compilers whose output is the object file. -/
def objectCompilers : List Text := [Compiler.gcc.text,Compiler.c.text,Compiler.ada.text,Compiler.elixir.text]

theorem colon_notMem_objectCompilers : ∀ name ∈ objectCompilers, ':' ∉ name := by decide

/-- The compiler's name ends at the first colon. -/
theorem key_inj {a a' t t' : Text} (ha : ':' ∉ a) (ha' : ':' ∉ a') (h : a ++ ':'::t = a' ++ ':'::t') :
    a = a' ∧ t = t' := by
  induction a generalizing a' with
  | nil =>
    cases a' with
    | nil => exact ⟨rfl,List.tail_eq_of_cons_eq h⟩
    | cons c a' => exact absurd (List.head_eq_of_cons_eq h ▸ List.mem_cons_self) ha'
  | cons c a ih =>
    cases a' with
    | nil => exact absurd (List.head_eq_of_cons_eq h ▸ List.mem_cons_self) ha
    | cons c' a' =>
      obtain ⟨rfl,htail⟩ := List.cons.inj h
      have htail_mem : ':' ∉ a := fun hm => ha (List.mem_cons_of_mem c hm)
      have htail_mem' : ':' ∉ a' := fun hm => ha' (List.mem_cons_of_mem c hm)
      obtain ⟨rfl,rfl⟩ := ih htail_mem htail_mem' htail
      exact ⟨rfl,rfl⟩

end Jobs

section Results
variable {R : Type}

/-- The keys after `d[key] = value`. -/
def addKey (keys : List Text) (key : Text) : List Text := if key ∈ keys then keys else keys ++ [key]

theorem keys_setItem (d : List (Text × R)) (key : Text) (value : R) :
    (setItem d key value).map Prod.fst = addKey (d.map Prod.fst) key := by
  rw [setItem,addKey]
  split
  · rw [List.map_map]
    apply List.map_congr_left
    intro e _
    rw [Function.comp_apply]
    split
    · next heq => exact heq.symm
    · rfl
  · rw [List.map_append,List.map_singleton]

/-- Keys that are all new are put behind the old ones. -/
theorem foldl_addKey {keys new : List Text} (h : (keys ++ new).Nodup) : new.foldl addKey keys = keys ++ new := by
  induction new generalizing keys with
  | nil => rw [List.foldl_nil,List.append_nil]
  | cons key new ih =>
    have hnew : key ∉ keys := fun hm => (List.nodup_append.mp h).2.2 key hm key List.mem_cons_self rfl
    rw [List.foldl_cons,addKey,if_neg hnew,ih,List.append_assoc,List.singleton_append]
    rwa [List.append_assoc,List.singleton_append]

end Results

section Loop
variable {R : Type} (arch : Text) (compile : CompileCall → R) (sourceDir outputDir : Path)

/-- A file with the name of its compiler. -/
def buildJob (s : Build R) (job : Text × Path) : Except BuildError (Build R) := do
  let compiler ← getCompiler job.1
  buildFile arch compile sourceDir outputDir job.1 compiler s job.2

theorem getCompiler_object {name : Text} (h : name ∈ objectCompilers) :
    ∃ compiler, compiler ≠ .python ∧ compiler ≠ .html ∧ getCompiler name = .ok compiler := by
  simp only [objectCompilers,List.mem_cons,List.not_mem_nil,or_false] at h
  obtain rfl | rfl | rfl | rfl := h
  · exact ⟨.gcc,by decide,by decide,rfl⟩
  · exact ⟨.c,by decide,by decide,rfl⟩
  · exact ⟨.ada,by decide,by decide,rfl⟩
  · exact ⟨.elixir,by decide,by decide,rfl⟩

theorem source_callFor (src out : Path) (n : Name) (compiler : Compiler) :
    (callFor arch outputDir src out n compiler).source = src := by
  cases compiler <;> rfl

theorem output_callFor (src out : Path) (n : Name) {compiler : Compiler} (hpython : compiler ≠ .python)
    (hhtml : compiler ≠ .html) : (callFor arch outputDir src out n compiler).output = out := by
  cases compiler with
  | python => exact absurd rfl hpython
  | html => exact absurd rfl hhtml
  | gcc | elixir | ada | c => rfl

/-- The two loops are one loop over the files. -/
theorem buildOsKernel_eq {sources : List (Text × List Path)} (hnames : ∀ item ∈ sources, item.1 ∈ objectCompilers) :
    buildOsKernel arch compile sourceDir outputDir sources =
      (jobs sources).foldlM (buildJob arch compile sourceDir outputDir) ⟨[],[]⟩ := by
  rw [buildOsKernel]
  generalize (⟨[],[]⟩ : Build R) = s
  induction sources generalizing s with
  | nil => rfl
  | cons item sources ih =>
    obtain ⟨hname,hnames⟩ := List.forall_mem_cons.mp hnames
    obtain ⟨compiler,-,-,hcompiler⟩ := getCompiler_object hname
    have hfile : (fun s src => buildJob arch compile sourceDir outputDir s (item.1,src)) =
        buildFile arch compile sourceDir outputDir item.1 compiler := by
      funext s src
      rw [buildJob,hcompiler]
      rfl
    rw [List.foldlM_cons,jobs,List.flatMap_cons,List.foldlM_append,List.foldlM_map,hfile,hcompiler]
    change item.2.foldlM _ s >>= _ = _
    congr 1
    funext t
    exact ih hnames t

/-- What has been built after some files: a call for each of them, and the keys of the results. -/
structure Built (s : Build R) (done : List (Text × Path)) (t : Build R) : Prop where
  sources : t.calls.map CompileCall.source =
    s.calls.map CompileCall.source ++ done.map fun job => resolve sourceDir job.2
  outputs : t.calls.map (some ∘ CompileCall.output) =
    s.calls.map (some ∘ CompileCall.output) ++ done.map fun job => (objectOf sourceDir job).map outputDir.child
  keys : t.results.map Prod.fst = (done.map (keyOf sourceDir)).foldl addKey (s.results.map Prod.fst)

theorem exists_buildJob {job : Text × Path} (hname : job.1 ∈ objectCompilers) {o : Name}
    (ho : objectOf sourceDir job = some o) (s : Build R) :
    ∃ t, buildJob arch compile sourceDir outputDir s job = .ok t ∧ Built sourceDir outputDir s [job] t := by
  obtain ⟨compiler,hpython,hhtml,hcompiler⟩ := getCompiler_object hname
  obtain ⟨n,hn,rfl⟩ := Option.map_eq_some_iff.mp ho
  refine ⟨⟨s.calls ++ [callFor arch outputDir (resolve sourceDir job.2) (outputDir.child n.withSuffixO) n compiler],
    setItem s.results (job.1 ++ ':'::n.text) (compile (callFor arch outputDir (resolve sourceDir job.2)
      (outputDir.child n.withSuffixO) n compiler))⟩,?_,?_,?_,?_⟩
  · rw [buildJob,hcompiler]
    simp only [buildFile,hn]
    rfl
  · rw [List.map_append,List.map_singleton,source_callFor,List.map_singleton]
  · rw [List.map_append,List.map_singleton,Function.comp_apply,output_callFor _ _ _ _ _ hpython hhtml,
      List.map_singleton,ho,Option.map_some]
  · rw [keys_setItem,List.map_singleton,List.foldl_cons,List.foldl_nil,keyOf,nameText,hn]
    rfl

theorem buildJob_error {job : Text × Path} (hname : job.1 ∈ objectCompilers) (ho : objectOf sourceDir job = none)
    (s : Build R) : ∃ e, buildJob arch compile sourceDir outputDir s job = .error e := by
  obtain ⟨compiler,-,-,hcompiler⟩ := getCompiler_object hname
  have hn : (resolve sourceDir job.2).name = none := Option.map_eq_none_iff.mp ho
  refine ⟨.emptyName (resolve sourceDir job.2),?_⟩
  rw [buildJob,hcompiler]
  simp only [buildFile,hn]
  rfl

/-- The build comes to its end exactly if all source paths have names. -/
theorem exists_build {todo : List (Text × Path)} (hnames : ∀ job ∈ todo, job.1 ∈ objectCompilers)
    (hobjects : ∀ job ∈ todo, objectOf sourceDir job ≠ none) (s : Build R) :
    ∃ t, todo.foldlM (buildJob arch compile sourceDir outputDir) s = .ok t ∧ Built sourceDir outputDir s todo t := by
  induction todo generalizing s with
  | nil => exact ⟨s,rfl,by simp,by simp,rfl⟩
  | cons job todo ih =>
    obtain ⟨hname,hnames⟩ := List.forall_mem_cons.mp hnames
    obtain ⟨hobject,hobjects⟩ := List.forall_mem_cons.mp hobjects
    obtain ⟨o,ho⟩ := Option.ne_none_iff_exists'.mp hobject
    obtain ⟨t,ht,hone⟩ := exists_buildJob arch compile sourceDir outputDir hname ho s
    obtain ⟨u,hu,hrest⟩ := ih hnames hobjects t
    refine ⟨u,(foldlM_cons_ok ht todo).trans hu,?_,?_,?_⟩
    · rw [hrest.sources,hone.sources,List.append_assoc]
      rfl
    · rw [hrest.outputs,hone.outputs,List.append_assoc]
      rfl
    · rw [hrest.keys,hone.keys]
      rfl

theorem object_ne_none_of_build {todo : List (Text × Path)} (hnames : ∀ job ∈ todo, job.1 ∈ objectCompilers)
    {s t : Build R} (h : todo.foldlM (buildJob arch compile sourceDir outputDir) s = .ok t) :
    ∀ job ∈ todo, objectOf sourceDir job ≠ none := by
  induction todo generalizing s with
  | nil => exact fun job hjob => absurd hjob List.not_mem_nil
  | cons job todo ih =>
    obtain ⟨hname,hnames⟩ := List.forall_mem_cons.mp hnames
    cases ho : objectOf sourceDir job with
    | none =>
      obtain ⟨e,he⟩ := buildJob_error arch compile sourceDir outputDir hname ho s
      rw [foldlM_cons_error he] at h
      cases h
    | some o =>
      obtain ⟨u,hu,-⟩ := exists_buildJob arch compile sourceDir outputDir hname ho s
      rw [foldlM_cons_ok hu] at h
      exact List.forall_mem_cons.mpr ⟨ho ▸ Option.some_ne_none o,ih hnames h⟩

end Loop

section Objects
variable {R : Type} (sourceDir : Path)

/-- The build is done, with a call and an output path of its own for every file and as many results as files. -/
def KeepsObjects (files : List (Text × Path)) (build : Except BuildError (Build R)) : Prop :=
  ∃ b, build = .ok b ∧ b.calls.map CompileCall.source = (files.map fun job => resolve sourceDir job.2) ∧
    (b.calls.map CompileCall.output).Nodup ∧ b.results.length = files.length

/-- The object file depends on the name only, which the key holds. -/
theorem objectOf_eq_of_key {job job' : Text × Path} (hname : job.1 ∈ objectCompilers)
    (hname' : job'.1 ∈ objectCompilers) (hjob : objectOf sourceDir job ≠ none) (hjob' : objectOf sourceDir job' ≠ none)
    (hkey : keyOf sourceDir job = keyOf sourceDir job') : objectOf sourceDir job = objectOf sourceDir job' := by
  obtain ⟨-,htext⟩ := key_inj (colon_notMem_objectCompilers _ hname) (colon_notMem_objectCompilers _ hname') hkey
  obtain ⟨o,ho⟩ := Option.ne_none_iff_exists'.mp hjob
  obtain ⟨o',ho'⟩ := Option.ne_none_iff_exists'.mp hjob'
  obtain ⟨n,hn,rfl⟩ := Option.map_eq_some_iff.mp ho
  obtain ⟨n',hn',rfl⟩ := Option.map_eq_some_iff.mp ho'
  rw [nameText,nameText,hn,hn'] at htext
  cases n
  cases n'
  cases htext
  rw [ho,ho']

theorem nodup_keys {files : List (Text × Path)} (hnames : ∀ job ∈ files, job.1 ∈ objectCompilers)
    (hobjects : ∀ job ∈ files, objectOf sourceDir job ≠ none) (hnodup : (files.map (objectOf sourceDir)).Nodup) :
    (files.map (keyOf sourceDir)).Nodup := by
  -- equal keys hold equal names, and those make equal objects
  refine List.Nodup.map_on ?_ (List.Nodup.of_map _ hnodup)
  intro job hjob job' hjob' hkey
  apply List.inj_on_of_nodup_map hnodup hjob hjob'
  exact objectOf_eq_of_key sourceDir (hnames job hjob) (hnames job' hjob') (hobjects job hjob) (hobjects job' hjob')
    hkey

/-- Output paths differ exactly if the names of the objects do. -/
theorem nodup_outputs_iff (outputDir : Path) {files : List (Text × Path)} {calls : List CompileCall}
    (h : calls.map (some ∘ CompileCall.output) = files.map fun job => (objectOf sourceDir job).map outputDir.child) :
    (calls.map CompileCall.output).Nodup ↔ (files.map (objectOf sourceDir)).Nodup := by
  have hinj : Function.Injective outputDir.child := fun _ _ => Path.child_inj
  rw [← List.nodup_map_iff (Option.some_injective Path),List.map_map,h,← List.nodup_map_iff (Option.map_injective hinj),
    List.map_map]
  rfl

end Objects

section Main
variable {R : Type} (arch : Text) (compile : CompileCall → R) (sourceDir outputDir : Path)

end Main

/-- The file `x.c` in the directory `a` and in the directory `b`. -/
def dirA : Name := ⟨['a'],by decide,by decide,by decide⟩
def dirB : Name := ⟨['b'],by decide,by decide,by decide⟩
def fileX : Name := ⟨['x','.','c'],by decide,by decide,by decide⟩
def inA : Path := ⟨.none,[dirA,fileX]⟩
def inB : Path := ⟨.none,[dirB,fileX]⟩

end Linuxab.Toolchain
