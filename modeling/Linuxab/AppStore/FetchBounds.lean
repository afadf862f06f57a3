import Linuxab.AppStore.Events

/-!
The array accesses of `fetch_repo`.  Here the reads may fill the buffers they were given, and the document
is scanned in memory: every index that is evaluated is logged, in the order of evaluation.
-/

namespace Linuxab.AppStore
open Linuxab.Base

inductive Buffer where
  | jsonBuf | vbuf | apps | filteredIdx
  deriving DecidableEq, Repr

def Buffer.size : Buffer → ℕ
  | jsonBuf => 4096
  | vbuf => 32
  | apps => 128
  | filteredIdx => 128

/-- An index that is evaluated. -/
structure Access where
  buffer : Buffer
  index : ℕ
  deriving DecidableEq, Repr

def Access.Inside (x : Access) : Prop := x.index < x.buffer.size

/-- A computation with the accesses it makes. -/
structure Logged (α : Type) where
  value : α
  log : List Access

/-- What `net_get`, `sys_read`, `sys_open` and the helpers answer; no read returns more than was asked
for. -/
structure Answers where
  repo : List Char
  versionFile : ℕ → List Char
  sysOpen : ℕ → String → Int64
  jsonFindStr : List Char → String → Bool × String
  jsonFindInt : List Char → String → Int32
  repo_le : repo.length ≤ 4096
  versionFile_le : ∀ k, (versionFile k).length ≤ 32

namespace Answers
variable (a : Answers)

/-- The memory at `g_json_buf` once the terminator is written. -/
def jsonBuf (old : ℕ → Char) : ℕ → Char := Function.update (fun k => a.repo.getD k (old k)) a.repo.length nul

/-- The checks for the installed program and for its version file, with `vbuf[vlen] = 0`. -/
def loadInstalled (k : ℕ) (app : App) : Logged App :=
  if a.sysOpen k ("/apps/" ++ app.name) < 0 then ⟨app,[]⟩
  else
    let app := { app with state := .installed }
    if a.sysOpen k ("/apps/." ++ app.name ++ ".ver") < 0 then ⟨app,[]⟩
    else if a.versionFile k = [] then ⟨app,[]⟩
    else
      let app := { app with installedVersion := String.ofList ((cText (a.versionFile k)).take 15) }
      ⟨if app.version = app.installedVersion then app else { app with state := .updateAvailable },
        [⟨.vbuf,(a.versionFile k).length⟩]⟩

def loadDownloaded (k : ℕ) (app : App) : App :=
  if a.sysOpen k app.dlpath < 0 then app
  else if app.state = .notInstalled then { app with state := .downloaded }
  else app

/-- The `k`-th entry, from the text at `p` on. -/
def loadApp (k : ℕ) (p : List Char) : Logged App :=
  let kind := a.jsonFindStr p "type"
  let app := a.loadInstalled k
    { name := (a.jsonFindStr p "name").2
      desc := (a.jsonFindStr p "description").2
      version := (a.jsonFindStr p "version").2
      url := (a.jsonFindStr p "url").2
      sizeKb := a.jsonFindInt p "size_kb"
      state := .notInstalled
      downloadPct := 0
      installedVersion := ""
      isGame := kind.1 && kind.2 == "game" }
  ⟨a.loadDownloaded k app.value,⟨.apps,k⟩::app.log⟩

end Answers

/-- `p[0] == '"' && p[1] == 'n' && ...`: the comparison ends with the first character that differs. -/
def lookAhead (buf : ℕ → Char) : ℕ → List Char → Logged Bool
  | _, [] => ⟨true,[]⟩
  | p, c::cs =>
    if buf p = c then
      let rest := lookAhead buf (p+1) cs
      ⟨rest.value,⟨.jsonBuf,p⟩::rest.log⟩
    else ⟨false,[⟨.jsonBuf,p⟩]⟩

/-- The text that the helpers are given: from `p` up to the terminator. -/
def textAt (buf : ℕ → Char) (p : ℕ) : List Char := cText ((List.range' p (4097-p)).map buf)

/-- The loop of `fetch_repo`; `none` when it has not ended within the rounds. -/
def scanBuf (a : Answers) (buf : ℕ → Char) : ℕ → ℕ → List App → Option (Logged (List App))
  | 0, _, _ => none
  | rounds+1, p, apps =>
    if buf p = nul then some ⟨apps,[⟨.jsonBuf,p⟩]⟩
    else if apps.length < 128 then
      let found := lookAhead buf p "\"name".toList
      if found.value then
        let app := a.loadApp apps.length (textAt buf p)
        (scanBuf a buf rounds (p+1) (apps ++ [app.value])).map fun rest =>
          ⟨rest.value,⟨.jsonBuf,p⟩::(found.log ++ app.log ++ rest.log)⟩
      else (scanBuf a buf rounds (p+1) apps).map fun rest => ⟨rest.value,⟨.jsonBuf,p⟩::(found.log ++ rest.log)⟩
    else some ⟨apps,[⟨.jsonBuf,p⟩]⟩

/-- A round of `apply_filter`. -/
def filterLogged (ui : Ui) (s : Logged (List ℕ)) (i : ℕ) : Logged (List ℕ) :=
  if ui.passes i then ⟨s.value ++ [i],s.log ++ [⟨.apps,i⟩,⟨.filteredIdx,s.value.length⟩]⟩
  else ⟨s.value,s.log ++ [⟨.apps,i⟩]⟩

def applyFilterLogged (ui : Ui) : Logged Ui :=
  let filtered := (List.range ui.apps.length).foldl (filterLogged ui) ⟨[],[]⟩
  ⟨{ ui with
      filtered := filtered.value
      list :=
        { itemCount := filtered.value.length
          selected := if 0 < filtered.value.length then 0 else -1
          scrollY := 0 } },
    filtered.log⟩

/-- `fetch_repo`, with the entries it has loaded. -/
def fetchLogged (a : Answers) (old : ℕ → Char) (rounds : ℕ) (ui : Ui) : Option (Logged (List App × Ui)) :=
  if a.repo = [] then some ⟨([],{ ui with statusMsg := "Failed to fetch repo!" }),[]⟩
  else (scanBuf a (a.jsonBuf old) rounds 0 []).map fun scan =>
    let filtered := applyFilterLogged
      { ui with apps := scan.value, statusMsg := "Loaded " ++ toString scan.value.length ++ " apps" }
    ⟨(scan.value,filtered.value),⟨.jsonBuf,a.repo.length⟩::(scan.log ++ filtered.log)⟩

/-! ## Texts in memory -/

/-- The text with its terminator stands at `p`. -/
def Spells (buf : ℕ → Char) : ℕ → List Char → Prop
  | p, [] => buf p = nul
  | p, c::t => buf p = c ∧ c ≠ nul ∧ Spells buf (p+1) t

section Texts
variable {buf : ℕ → Char} {p : ℕ} {t : List Char}

theorem cText_cons_of_ne {c : Char} (h : c ≠ nul) (s : List Char) : cText (c::s) = c::cText s := by
  rw [cText,List.takeWhile_cons_of_pos (by simpa using h)]
  rfl

theorem cText_nul_cons (s : List Char) : cText (nul::s) = [] := by
  rw [cText,List.takeWhile_cons_of_neg (by simp)]

theorem spells_cText {s : List Char} (hs : ∀ i (h : i < s.length), buf (p+i) = s[i])
    (hend : buf (p+s.length) = nul) : Spells buf p (cText s) := by
  induction s generalizing p with
  | nil => exact hend
  | cons c s ih =>
    have hc : buf p = c := hs 0 (Nat.succ_pos _)
    by_cases hnul : c = nul
    · subst hnul
      rw [cText_nul_cons]
      exact hc
    · rw [cText_cons_of_ne hnul]
      refine ⟨hc,hnul,ih (fun i h => ?_) ?_⟩
      · rw [Nat.add_right_comm]
        exact hs (i+1) (Nat.succ_lt_succ h)
      · rw [Nat.add_right_comm]
        exact hend

theorem Answers.spells_jsonBuf (a : Answers) (old : ℕ → Char) : Spells (a.jsonBuf old) 0 (cText a.repo) := by
  apply spells_cText
  · intro i h
    rw [Nat.zero_add,Answers.jsonBuf,Function.update_of_ne (Nat.ne_of_lt h)]
    simp [h]
  · rw [Nat.zero_add,Answers.jsonBuf,Function.update_self]

theorem textAt_eq (h : Spells buf p t) (hp : p+t.length ≤ 4096) : textAt buf p = t := by
  induction t generalizing p with
  | nil =>
    obtain ⟨n,hn⟩ : ∃ n, 4097-p = n+1 := ⟨4096-p,by omega⟩
    have hend : buf p = nul := h
    rw [textAt,hn,List.range'_succ,List.map_cons,hend,cText_nul_cons]
  | cons c t ih =>
    obtain ⟨hc,hnul,hrest⟩ := h
    rw [List.length_cons] at hp
    have hn : 4097-p = 4097-(p+1)+1 := by omega
    rw [textAt,hn,List.range'_succ,List.map_cons,hc,cText_cons_of_ne hnul]
    exact congrArg (c::·) (ih hrest (by omega))

/-- The comparison looks no further than the terminator. -/
theorem lookAhead_spec {cs : List Char} (hcs : nul ∉ cs) (h : Spells buf p t) :
    (lookAhead buf p cs).value = cs.isPrefixOf t ∧
      ∀ x ∈ (lookAhead buf p cs).log, x.buffer = .jsonBuf ∧ x.index ≤ p+t.length := by
  induction cs generalizing p t with
  | nil => exact ⟨by simp [lookAhead],by simp [lookAhead]⟩
  | cons c cs ih =>
    obtain ⟨hc,hrestcs⟩ := not_or.mp (mt List.mem_cons.mpr hcs)
    cases t with
    | nil =>
      have hend : buf p = nul := h
      rw [lookAhead,hend,if_neg hc]
      exact ⟨rfl,by simp⟩
    | cons d t =>
      obtain ⟨hd,-,hrest⟩ := h
      rw [lookAhead,hd]
      by_cases hdc : d = c
      · subst hdc
        obtain ⟨hvalue,hlog⟩ := ih hrestcs hrest
        rw [if_pos rfl]
        refine ⟨by simpa using hvalue,List.forall_mem_cons.mpr ⟨⟨rfl,by simp⟩,fun x hx => ?_⟩⟩
        obtain ⟨hbuffer,hindex⟩ := hlog x hx
        rw [List.length_cons]
        exact ⟨hbuffer,by omega⟩
      · rw [if_neg hdc]
        refine ⟨?_,by simp⟩
        rw [List.isPrefixOf,beq_eq_false_iff_ne.mpr (Ne.symm hdc),Bool.false_and]

end Texts

/-! ## The scan -/

/-- Both files of the entry can be opened, and the version file is not empty. -/
def Answers.ReadsVersion (a : Answers) (k : ℕ) (name : String) : Prop :=
  0 ≤ a.sysOpen k ("/apps/" ++ name) ∧ 0 ≤ a.sysOpen k ("/apps/." ++ name ++ ".ver") ∧ a.versionFile k ≠ []

section Scan
variable {a : Answers} {buf : ℕ → Char} {p len : ℕ} {t : List Char} {apps : List App}

theorem loadInstalled_spec (k : ℕ) (app : App) : (a.loadInstalled k app).value.name = app.name ∧
    ∀ x, x ∈ (a.loadInstalled k app).log ↔ a.ReadsVersion k app.name ∧ x = ⟨.vbuf,(a.versionFile k).length⟩ := by
  rw [Answers.loadInstalled]
  dsimp only
  split_ifs with hprogram hversion hempty
  · exact ⟨rfl,fun x => by simp [Answers.ReadsVersion,Int64.not_le.mpr hprogram]⟩
  · exact ⟨rfl,fun x => by simp [Answers.ReadsVersion,Int64.not_le.mpr hversion]⟩
  · exact ⟨rfl,fun x => by simp [Answers.ReadsVersion,hempty]⟩
  all_goals
    refine ⟨rfl,fun x => ?_⟩
    have hreads : a.ReadsVersion k app.name := ⟨Int64.not_lt.mp hprogram,Int64.not_lt.mp hversion,hempty⟩
    simp [hreads]

theorem loadApp_log (k : ℕ) (p : List Char) (x : Access) : x ∈ (a.loadApp k p).log ↔
    x = ⟨.apps,k⟩ ∨ a.ReadsVersion k (a.loadApp k p).value.name ∧ x = ⟨.vbuf,(a.versionFile k).length⟩ := by
  have hname : ∀ app : App, (a.loadDownloaded k app).name = app.name := by
    intro app
    rw [Answers.loadDownloaded]
    split_ifs <;> rfl
  rw [Answers.loadApp]
  dsimp only
  rw [hname,List.mem_cons,(loadInstalled_spec k _).2,(loadInstalled_spec k _).1]

/-- The `k`-th of the loaded entries has its version read. -/
def Answers.ReadsEntry (a : Answers) (loaded : List App) (k : ℕ) : Prop :=
  ∃ app, loaded[k]? = some app ∧ a.ReadsVersion k app.name

/-- What the scan of a text in the first `len` characters does, from a state with `apps` loaded. -/
structure Scanned (a : Answers) (len : ℕ) (apps : List App) (r : Logged (List App)) : Prop where
  grows : apps <+: r.value
  length_le : r.value.length ≤ 128
  log : ∀ x ∈ r.log, (x.buffer = .jsonBuf ∧ x.index ≤ len) ∨ (x.buffer = .apps ∧ x.index < 128) ∨
    ∃ k, a.ReadsEntry r.value k ∧ x = ⟨.vbuf,(a.versionFile k).length⟩
  reads : ∀ k, apps.length ≤ k → a.ReadsEntry r.value k → ⟨.vbuf,(a.versionFile k).length⟩ ∈ r.log

theorem Scanned.stop (hp : p ≤ len) (happs : apps.length ≤ 128) : Scanned a len apps ⟨apps,[⟨.jsonBuf,p⟩]⟩ := by
  refine ⟨List.prefix_refl apps,happs,by simp [hp],?_⟩
  rintro k hk ⟨app,happ,-⟩
  have hlt := (List.getElem?_eq_some_iff.mp happ).1
  exact absurd hlt (Nat.not_lt.mpr hk)

/-- A round that loads nothing. -/
theorem Scanned.skip {r : Logged (List App)} (h : Scanned a len apps r) {log : List Access}
    (hlog : ∀ x ∈ log, x.buffer = .jsonBuf ∧ x.index ≤ len) : Scanned a len apps ⟨r.value,log ++ r.log⟩ := by
  refine ⟨h.grows,h.length_le,fun x hx => ?_,fun k hk hreads => List.mem_append_right _ (h.reads k hk hreads)⟩
  rcases List.mem_append.mp hx with hx | hx
  · exact .inl (hlog x hx)
  · exact h.log x hx

/-- A round that loads an entry. -/
theorem Scanned.load {r : Logged (List App)} {text : List Char}
    (h : Scanned a len (apps ++ [(a.loadApp apps.length text).value]) r) (happs : apps.length < 128) :
    Scanned a len apps ⟨r.value,(a.loadApp apps.length text).log ++ r.log⟩ := by
  have hentry : r.value[apps.length]? = some (a.loadApp apps.length text).value := by
    obtain ⟨rest,hrest⟩ := h.grows
    rw [← hrest]
    simp
  refine ⟨(List.prefix_append apps _).trans h.grows,h.length_le,fun x hx => ?_,fun k hk hreads => ?_⟩
  · rcases List.mem_append.mp hx with hx | hx
    · rcases (loadApp_log _ _ x).mp hx with rfl | ⟨hversion,rfl⟩
      · exact .inr (.inl ⟨rfl,happs⟩)
      · exact .inr (.inr ⟨apps.length,⟨_,hentry,hversion⟩,rfl⟩)
    · exact h.log x hx
  · rcases Nat.eq_or_lt_of_le hk with rfl | hlt
    · obtain ⟨app,happ,hversion⟩ := hreads
      obtain rfl := Option.some.inj (hentry.symm.trans happ)
      exact List.mem_append_left _ ((loadApp_log _ _ _).mpr (.inr ⟨hversion,rfl⟩))
    · exact List.mem_append_right _ (h.reads k (by rw [List.length_append]; exact hlt) hreads)

theorem nul_not_mem_name : nul ∉ "\"name".toList := by decide

/-- The scan ends at the terminator at the latest. -/
theorem scanBuf_spec (h : Spells buf p t) (hlen : p+t.length ≤ len) (happs : apps.length ≤ 128) :
    ∃ r, (∀ rounds, t.length < rounds → scanBuf a buf rounds p apps = some r) ∧ Scanned a len apps r := by
  induction t generalizing p apps with
  | nil =>
    refine ⟨_,fun rounds hr => ?_,.stop (p := p) hlen happs⟩
    obtain ⟨k,rfl⟩ : ∃ k, rounds = k+1 := ⟨rounds-1,by omega⟩
    have hend : buf p = nul := h
    rw [scanBuf,if_pos hend]
  | cons c t ih =>
    rw [List.length_cons] at hlen
    obtain ⟨hvalue,hlog⟩ := lookAhead_spec nul_not_mem_name h
    obtain ⟨hc,hnul,hrest⟩ := h
    have hread : ∀ x ∈ ⟨.jsonBuf,p⟩::(lookAhead buf p "\"name".toList).log,
        x.buffer = .jsonBuf ∧ x.index ≤ len := by
      have hp : p ≤ len := by omega
      refine List.forall_mem_cons.mpr ⟨⟨rfl,hp⟩,fun x hx => ?_⟩
      obtain ⟨hbuffer,hindex⟩ := hlog x hx
      rw [List.length_cons] at hindex
      exact ⟨hbuffer,by omega⟩
    have hround : ∀ rounds, t.length+1 < rounds → ∃ k, rounds = k+1 ∧ t.length < k :=
      fun rounds hr => ⟨rounds-1,by omega,by omega⟩
    by_cases hroom : apps.length < 128
    · cases hfound : (lookAhead buf p "\"name".toList).value with
      | true =>
        obtain ⟨r,hr,hscan⟩ := @ih (p+1) (apps ++ [(a.loadApp apps.length (textAt buf p)).value]) hrest
          (by omega) (by simp; omega)
        refine ⟨_,fun rounds hrounds => ?_,(hscan.load hroom).skip hread⟩
        obtain ⟨k,rfl,hk⟩ := hround rounds hrounds
        rw [scanBuf,hc,if_neg hnul,if_pos hroom]
        simp only [hfound,if_true,hr k hk,Option.map_some,List.append_assoc,List.cons_append]
      | false =>
        obtain ⟨r,hr,hscan⟩ := @ih (p+1) apps hrest (by omega) happs
        refine ⟨_,fun rounds hrounds => ?_,hscan.skip hread⟩
        obtain ⟨k,rfl,hk⟩ := hround rounds hrounds
        rw [scanBuf,hc,if_neg hnul,if_pos hroom]
        simp only [hfound,hr k hk,Option.map_some,List.cons_append]
        rfl
    · refine ⟨_,fun rounds hrounds => ?_,.stop (p := p) (by omega) happs⟩
      obtain ⟨k,rfl,-⟩ := hround rounds hrounds
      rw [scanBuf,hc,if_neg hnul,if_neg hroom]

end Scan

/-! ## The filter -/

/-- The loop of `apply_filter` keeps the entries that pass, and writes no more of them than it has looked
at. -/
theorem foldl_filterLogged (ui : Ui) {n : ℕ} (hn : n ≤ 128) :
    ((List.range n).foldl (filterLogged ui) ⟨[],[]⟩).value = (List.range n).filter ui.passes ∧
      ∀ x ∈ ((List.range n).foldl (filterLogged ui) ⟨[],[]⟩).log, x.Inside := by
  induction n with
  | zero => exact ⟨rfl,by simp⟩
  | succ n ih =>
    obtain ⟨hvalue,hlog⟩ := ih (by omega)
    have hlength : ((List.range n).filter ui.passes).length ≤ n :=
      (List.length_filter_le _ _).trans_eq List.length_range
    have hentry : Access.Inside ⟨.apps,n⟩ := hn
    rw [List.range_succ,List.foldl_append,List.foldl_cons,List.foldl_nil,filterLogged]
    by_cases hpass : ui.passes n = true
    · have hfiltered : Access.Inside ⟨.filteredIdx,((List.range n).filter ui.passes).length⟩ :=
        Nat.lt_of_le_of_lt hlength hn
      rw [if_pos hpass]
      refine ⟨by rw [List.filter_append,hvalue]; simp [hpass],fun x hx => ?_⟩
      rcases List.mem_append.mp hx with hx | hx
      · exact hlog x hx
      · rw [hvalue] at hx
        rcases List.mem_pair.mp hx with rfl | rfl
        · exact hentry
        · exact hfiltered
    · rw [if_neg hpass]
      refine ⟨by rw [List.filter_append,hvalue]; simp [hpass],fun x hx => ?_⟩
      rcases List.mem_append.mp hx with hx | hx
      · exact hlog x hx
      · rw [List.mem_singleton.mp hx]
        exact hentry

theorem applyFilterLogged_inside {ui : Ui} (h : ui.apps.length ≤ 128) :
    ∀ x ∈ (applyFilterLogged ui).log, x.Inside :=
  (foldl_filterLogged ui h).2

theorem applyFilter_eq_logged {ui : Ui} (h : ui.apps.length ≤ 128) :
    applyFilter ui = some (applyFilterLogged ui).value := by
  rw [applyFilter,foldlM_filterStep h,applyFilterLogged,(foldl_filterLogged ui h).1]
  rfl

/-! ## The whole call -/

theorem length_cText_le (s : List Char) : (cText s).length ≤ s.length := (List.takeWhile_prefix _).length_le

theorem scanBuf_repo (a : Answers) (old : ℕ → Char) :
    ∃ r, (∀ rounds, 4097 ≤ rounds → scanBuf a (a.jsonBuf old) rounds 0 [] = some r) ∧
      Scanned a a.repo.length [] r := by
  have htext := length_cText_le a.repo
  have hrepo := a.repo_le
  obtain ⟨r,hr,hspec⟩ := @scanBuf_spec a _ _ a.repo.length _ [] (a.spells_jsonBuf old) (by omega)
    (Nat.zero_le 128)
  exact ⟨r,fun rounds hrounds => hr rounds (by omega),hspec⟩

/-- A document of 4096 characters. -/
def fullDocument : Answers where
  repo := List.replicate 4096 'x'
  versionFile _ := []
  sysOpen _ _ := -1
  jsonFindStr _ _ := (false,"")
  jsonFindInt _ _ := 0
  repo_le := Nat.le_of_eq List.length_replicate
  versionFile_le _ := Nat.zero_le 32

section Catalog
variable {env : Env}

/-- The answers of an environment, whose reads never fill a buffer. -/
def Env.answers (env : Env) : Answers where
  repo := env.repo
  versionFile := env.versionFile
  sysOpen := env.sysOpen
  jsonFindStr := env.jsonFindStr
  jsonFindInt := env.jsonFindInt
  repo_le := Nat.le_of_lt env.repo_lt
  versionFile_le k := Nat.le_of_lt (env.versionFile_lt k)

theorem checkInstalled_eq_logged (k : ℕ) (app : App) :
    checkInstalled env k app = some (env.answers.loadInstalled k app).value := by
  have hvbuf : terminate? 32 (env.versionFile k) = some (cText (env.versionFile k)) := if_pos (env.versionFile_lt k)
  have hopen : env.answers.sysOpen = env.sysOpen := rfl
  have hfile : env.answers.versionFile = env.versionFile := rfl
  simp only [checkInstalled,Answers.loadInstalled,hopen,hfile,hvbuf]
  by_cases happ : env.sysOpen k ("/apps/" ++ app.name) < 0
  · rw [if_pos happ,if_pos happ]
  · rw [if_neg happ,if_neg happ]
    by_cases hver : env.sysOpen k ("/apps/." ++ app.name ++ ".ver") < 0
    · rw [if_pos hver,if_pos hver]
    · rw [if_neg hver,if_neg hver]
      by_cases hread : env.versionFile k = []
      · rw [if_pos hread,if_pos hread]
      · rw [if_neg hread,if_neg hread]
        rfl

theorem readApp_eq_logged (k : ℕ) (p : List Char) : readApp env k p = some (env.answers.loadApp k p).value := by
  rw [readApp,checkInstalled_eq_logged]
  rfl

/-- The scan in memory loads the entries that the scan of the text does. -/
theorem scanRepo_eq_logged {buf : ℕ → Char} {rounds p : ℕ} {t : List Char} {apps : List App}
    {r : Logged (List App)} (h : Spells buf p t) (hp : p+t.length ≤ 4096)
    (hr : scanBuf env.answers buf rounds p apps = some r) : scanRepo env t apps = some r.value := by
  induction t generalizing rounds p apps r with
  | nil =>
    cases rounds with
    | zero => cases hr
    | succ rounds =>
      have hend : buf p = nul := h
      rw [scanBuf,if_pos hend] at hr
      obtain rfl := Option.some.inj hr
      rfl
  | cons c t ih =>
    cases rounds with
    | zero => cases hr
    | succ rounds =>
      have htext := textAt_eq h hp
      obtain ⟨hfound,-⟩ := lookAhead_spec nul_not_mem_name h
      obtain ⟨hc,hnul,hrest⟩ := h
      rw [List.length_cons,← Nat.add_assoc,Nat.add_right_comm] at hp
      rw [scanBuf,hc,if_neg hnul] at hr
      dsimp only at hr
      rw [hfound,htext] at hr
      rw [scanRepo]
      by_cases hroom : apps.length < 128
      · rw [if_pos hroom] at hr ⊢
        by_cases hname : "\"name".toList.isPrefixOf (c::t) = true
        · rw [if_pos hname,Option.map_eq_some_iff] at hr
          obtain ⟨rest,hscan,rfl⟩ := hr
          rw [if_pos hname,readApp_eq_logged]
          exact ih (r := rest) hrest hp hscan
        · rw [if_neg hname,Option.map_eq_some_iff] at hr
          obtain ⟨rest,hscan,rfl⟩ := hr
          rw [if_neg hname]
          exact ih (r := rest) hrest hp hscan
      · rw [if_neg hroom] at hr ⊢
        obtain rfl := Option.some.inj hr
        rfl

/-- Where no read fills its buffer, this is the `fetch_repo` of the catalog. -/
theorem fetchLogged_refines (env : Env) (old : ℕ → Char) (ui : Ui) :
    ∃ r, fetchLogged env.answers old 4097 ui = some r ∧
      fetchRepo env ui = some ⟨r.value.2,decide (env.repo ≠ [])⟩ := by
  have hrepo : env.answers.repo = env.repo := rfl
  by_cases hempty : env.repo = []
  · refine ⟨_,by rw [fetchLogged,if_pos (hrepo.trans hempty)],?_⟩
    rw [fetchRepo,if_pos hempty,decide_eq_false (not_not_intro hempty)]
    rfl
  · obtain ⟨scan,hscan,hspec⟩ := scanBuf_repo env.answers old
    refine ⟨_,by rw [fetchLogged,if_neg (hrepo ▸ hempty),hscan 4097 (Nat.le_refl _)]; rfl,?_⟩
    have hjson : terminate? 4096 env.repo = some (cText env.repo) := if_pos env.repo_lt
    have hbound : 0+(cText env.repo).length ≤ 4096 := by
      have htext := length_cText_le env.repo
      have hlen := env.repo_lt
      omega
    have happs := scanRepo_eq_logged (env.answers.spells_jsonBuf old) hbound (hscan 4097 (Nat.le_refl _))
    rw [fetchRepo,if_neg hempty,hjson,decide_eq_true hempty]
    refine Option.bind_eq_some_iff.mpr ⟨_,rfl,Option.bind_eq_some_iff.mpr ⟨_,happs,?_⟩⟩
    rw [refilter,applyFilter_eq_logged hspec.length_le]
    rfl

end Catalog

end Linuxab.AppStore
