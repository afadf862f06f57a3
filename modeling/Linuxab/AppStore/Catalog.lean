import Linuxab.AppStore.Download
import Linuxab.AppStore.Widgets
import Linuxab.Base.Fold

/-!
The list of the application store: the loaded entries, `apply_filter` with its nested substring search,
and `fetch_repo`, which reads the entries from the repository.  A `char` is a `Char` and a text in an
array is a string; `none` is an access outside an array.
-/

namespace Linuxab.AppStore
open Linuxab.Base

/-- `AppEntry` with the fields that a download does not use. -/
structure App extends AppEntry where
  desc : String
  version : String
  installedVersion : String
  isGame : Bool

/-- `g_tab` -/
inductive Tab where
  | apps | games | installed | downloads
  deriving DecidableEq

/-- Which of the action buttons are visible. -/
structure Buttons where
  download : Bool
  install : Bool
  launch : Bool
  uninstall : Bool
  cancel : Bool

def Buttons.hidden : Buttons := ⟨false,false,false,false,false⟩

/-- The globals: `g_app_count` entries of `g_apps` and `g_filtered_count` entries of `g_filtered_idx`,
the downloads, the status line, the tabs, the widgets and the mouse. -/
structure Ui where
  apps : List App
  filtered : List ℕ
  downloads : Fin 32 → DownloadTask
  statusMsg : String
  tab : Tab
  tabsActive : Tab
  search : InputField
  list : ScrollList
  buttons : Buttons
  mouse : Mouse
  mclick : Bool

/-! ## Search -/

/-- `if (a >= 'A' && a <= 'Z') a += 32` -/
def foldCase (c : Char) : Char := if 65 ≤ c.toNat ∧ c.toNat ≤ 90 then Char.ofNat (c.toNat+32) else c

/-- The inner loop of `str_contains`: the needle stands at offset `i`. -/
def matchesAt (haystack needle : List Char) (i : ℕ) : Bool :=
  (List.range needle.length).all fun j => foldCase (haystack.getD (i+j) nul) == foldCase (needle.getD j nul)

def strContains (haystack needle : List Char) : Bool :=
  needle.isEmpty || (List.range (haystack.length+1-needle.length)).any (matchesAt haystack needle)

/-- The text contains the needle, upper and lower case ASCII letters being the same. -/
def Contains (haystack needle : List Char) : Prop := needle.map foldCase <:+: haystack.map foldCase

theorem matchesAt_iff {haystack needle : List Char} {i : ℕ} (h : i+needle.length ≤ haystack.length) :
    matchesAt haystack needle i = true ↔ needle.map foldCase <+: (haystack.map foldCase).drop i := by
  rw [List.prefix_iff_eq_take,← List.map_drop,← List.map_take,matchesAt,List.all_eq_true]
  constructor
  · intro hall
    apply List.ext_getElem
    · simp
      omega
    · intro j hj _
      have hj : j < needle.length := by simpa using hj
      have hi : i+j < haystack.length := by omega
      have hsame : foldCase haystack[i+j] = foldCase needle[j] := by
        simpa [List.getD_eq_getElem?_getD,List.getElem?_eq_getElem hj,List.getElem?_eq_getElem hi] using
          hall j (List.mem_range.mpr hj)
      simpa using hsame.symm
  · intro heq j hj
    rw [List.mem_range] at hj
    have hi : i+j < haystack.length := by omega
    have hget := congrArg (fun l => l[j]?) heq
    simp [hj,List.getElem?_eq_getElem hi] at hget
    simp [List.getD_eq_getElem?_getD,List.getElem?_eq_getElem hj,List.getElem?_eq_getElem hi,hget]

/-- The two loops find the needle wherever it stands. -/
theorem strContains_iff (haystack needle : List Char) :
    strContains haystack needle = true ↔ Contains haystack needle := by
  rw [strContains,Bool.or_eq_true,List.isEmpty_iff,List.any_eq_true]
  constructor
  · rintro (rfl | ⟨i,hi,hmatch⟩)
    · exact List.nil_infix
    · rw [List.mem_range] at hi
      rw [matchesAt_iff (by omega)] at hmatch
      exact hmatch.isInfix.trans (List.drop_suffix _ _).isInfix
  · intro h
    obtain ⟨pre,post,heq⟩ := h
    have hlen := congrArg List.length heq
    simp only [List.length_append,List.length_map] at hlen
    refine .inr ⟨pre.length,List.mem_range.mpr (by omega),(matchesAt_iff (by omega)).mpr ?_⟩
    rw [← heq,List.append_assoc,List.drop_left' rfl]
    exact List.prefix_append _ _

/-! ## The filter -/

/-- The tab filter: the `continue` statements of the loop. -/
def Tab.skips (tab : Tab) (app : App) : Bool :=
  match tab with
  | .apps => app.isGame
  | .games => !app.isGame
  | .installed => decide (app.state ≠ .installed ∧ app.state ≠ .updateAvailable)
  | .downloads => decide (app.state ≠ .downloading ∧ app.state ≠ .downloaded)

/-- The search filter. -/
def Ui.finds (ui : Ui) (app : App) : Bool :=
  if 0 < ui.search.len then
    strContains app.name.toList (cText ui.search.text.toList) ||
      strContains app.desc.toList (cText ui.search.text.toList)
  else true

/-- One round of the loop; `g_filtered_idx` has 128 elements. -/
def filterStep (ui : Ui) (filtered : List ℕ) (i : ℕ) : Option (List ℕ) := do
  let app ← ui.apps[i]?
  if ui.tab.skips app then some filtered
  else if ui.finds app then fill? 128 filtered [i]
  else some filtered

def applyFilter (ui : Ui) : Option Ui := do
  let filtered ← (List.range ui.apps.length).foldlM (filterStep ui) []
  some { ui with
    filtered := filtered
    list :=
      { itemCount := filtered.length
        selected := if 0 < filtered.length then 0 else -1
        scrollY := 0 } }

/-- What a tab is for. -/
def Tab.Shows (tab : Tab) (app : App) : Prop :=
  match tab with
  | .apps => app.isGame = false
  | .games => app.isGame = true
  | .installed => app.state = .installed ∨ app.state = .updateAvailable
  | .downloads => app.state = .downloading ∨ app.state = .downloaded

theorem Tab.skips_eq_false {tab : Tab} {app : App} : tab.skips app = false ↔ tab.Shows app := by
  cases tab
  · exact Iff.rfl
  · exact Bool.not_eq_false' _ ▸ Iff.rfl
  · rw [skips,decide_eq_false_iff_not,not_and_or,not_not,not_not]
    exact Iff.rfl
  · rw [skips,decide_eq_false_iff_not,not_and_or,not_not,not_not]
    exact Iff.rfl

/-- The entry at the index belongs to the tab, and its name or description contains the search text. -/
def Ui.Wanted (ui : Ui) (i : ℕ) : Prop :=
  ∃ app, ui.apps[i]? = some app ∧ ui.tab.Shows app ∧
    (Contains app.name.toList ui.search.searchText ∨ Contains app.desc.toList ui.search.searchText)

/-- The list shows exactly the entries that are wanted, and its first line is selected. -/
structure FilterExact (ui : Ui) : Prop where
  mem : ∀ i, i ∈ ui.filtered ↔ ui.Wanted i
  selected : ui.list.selected = if ui.filtered = [] then -1 else 0

/-- No index leads to a wrong entry. -/
structure Indexed (ui : Ui) : Prop where
  apps_le : ui.apps.length ≤ 128
  increasing : ui.filtered.Pairwise (· < ·)
  below : ∀ i ∈ ui.filtered, i < ui.apps.length
  itemCount : ui.list.itemCount = ui.filtered.length
  selected : ui.list.selected = -1 ∨ 0 ≤ ui.list.selected ∧ ui.list.selected < ui.filtered.length

section Filter
variable {ui ui' : Ui}

theorem Ui.finds_iff (ui : Ui) (app : App) : ui.finds app = true ↔
    Contains app.name.toList ui.search.searchText ∨ Contains app.desc.toList ui.search.searchText := by
  unfold Ui.finds
  split
  · rw [Bool.or_eq_true,strContains_iff,strContains_iff,ui.search.terminated]
    rfl
  · next hlen =>
    -- an empty search text is contained in every name
    have hempty : ui.search.searchText = [] := by
      rw [InputField.searchText,Nat.eq_zero_of_not_pos hlen,List.take_zero]
    exact iff_of_true rfl (.inl (by rw [hempty]; exact List.nil_infix))

/-- The entry at the index passes both filters. -/
def Ui.passes (ui : Ui) (i : ℕ) : Bool :=
  match ui.apps[i]? with
  | some app => !ui.tab.skips app && ui.finds app
  | none => false

theorem Ui.passes_iff (ui : Ui) (i : ℕ) : ui.passes i = true ↔ ui.Wanted i := by
  unfold Ui.passes Ui.Wanted
  cases ui.apps[i]? with
  | none => simp
  | some app =>
    simp only [Bool.and_eq_true,Bool.not_eq_true',Tab.skips_eq_false,Ui.finds_iff,Option.some.injEq,
      exists_eq_left']

theorem filterStep_eq {i : ℕ} (hi : i < ui.apps.length) (filtered : List ℕ) :
    filterStep ui filtered i = if ui.passes i then fill? 128 filtered [i] else some filtered := by
  have happ : ui.apps[i]? = some ui.apps[i] := List.getElem?_eq_getElem hi
  simp only [filterStep,Ui.passes,happ,Option.bind_eq_bind,Option.bind_some]
  cases ui.tab.skips ui.apps[i] <;> simp

/-- The loop over the entries keeps those that pass. -/
theorem foldlM_filterStep (h : ui.apps.length ≤ 128) :
    (List.range ui.apps.length).foldlM (filterStep ui) [] = some ((List.range ui.apps.length).filter ui.passes) :=
  foldlM_fill?_filter (fun _ hi filtered => filterStep_eq (List.mem_range.mp hi) filtered) (by simpa using h)

/-- `apply_filter` returns, and the list is what it should be. -/
theorem applyFilter_spec (h : ui.apps.length ≤ 128) :
    ∃ ui', applyFilter ui = some ui' ∧ Indexed ui' ∧ FilterExact ui' := by
  have hmem : ∀ i, i ∈ (List.range ui.apps.length).filter ui.passes ↔ ui.Wanted i := by
    intro i
    rw [List.mem_filter,List.mem_range,Ui.passes_iff,and_iff_right_iff_imp]
    rintro ⟨app,happ,-⟩
    exact (List.getElem?_eq_some_iff.mp happ).1
  refine ⟨_,by rw [applyFilter,foldlM_filterStep h]; rfl,?_,?_⟩
  · refine ⟨h,List.pairwise_lt_range.filter _,fun i hi => ?_,rfl,?_⟩
    · exact List.mem_range.mp (List.mem_filter.mp hi).1
    · dsimp only
      split
      · next hpos => exact .inr ⟨Int.le_refl 0,by exact_mod_cast hpos⟩
      · exact .inl rfl
  · refine ⟨hmem,?_⟩
    dsimp only
    simp only [List.length_pos_iff,ite_not]

/-- The list is never longer than the table of entries. -/
theorem Indexed.length_le (h : Indexed ui) : ui.filtered.length ≤ ui.apps.length := by
  have hnodup : ui.filtered.Nodup := h.increasing.imp Nat.ne_of_lt
  have hsub : ui.filtered ⊆ List.range ui.apps.length := fun i hi => List.mem_range.mpr (h.below i hi)
  simpa using (List.subperm_of_subset hnodup hsub).length_le

/-- What the invariant looks at. -/
theorem Indexed.congr (h : Indexed ui) (happs : ui'.apps.length = ui.apps.length)
    (hfiltered : ui'.filtered = ui.filtered) (hlist : ui'.list = ui.list) : Indexed ui' := by
  refine ⟨?_,?_,?_,?_,?_⟩
  · rw [happs]
    exact h.apps_le
  · rw [hfiltered]
    exact h.increasing
  · rw [hfiltered,happs]
    exact h.below
  · rw [hfiltered,hlist]
    exact h.itemCount
  · rw [hfiltered,hlist]
    exact h.selected

end Filter

/-! ## The repository -/

structure InputEvent where
  type : ℕ
  code : ℕ
  x : ℤ
  y : ℤ

/-- What the outside answers while one handler runs: the next event, the characters of the two reads
(none if the call failed), each fewer than were asked for, the other calls, and the helpers of
`common.utils`, which are not in the repository. -/
structure Env where
  event : Option InputEvent
  repo : List Char
  versionFile : ℕ → List Char
  sysOpen : ℕ → String → Int64
  net : NetGet
  jsonFindStr : List Char → String → Bool × String
  jsonFindInt : List Char → String → Int32
  repo_lt : repo.length < 4096
  versionFile_lt : ∀ k, (versionFile k).length < 32
  net_bounded : net.Bounded

/-- `buf[len] = 0` behind the characters read into an array of `cap`, and the text that is in it. -/
def terminate? (cap : ℕ) (read : List Char) : Option (List Char) :=
  if read.length < cap then some (cText read) else none

/-- The checks for the installed program and for its version file. -/
def checkInstalled (env : Env) (k : ℕ) (app : App) : Option App :=
  if env.sysOpen k ("/apps/" ++ app.name) < 0 then some app
  else
    let app := { app with state := .installed }
    if env.sysOpen k ("/apps/." ++ app.name ++ ".ver") < 0 then some app
    else if env.versionFile k = [] then some app
    else do
      let vbuf ← terminate? 32 (env.versionFile k)
      let app := { app with installedVersion := String.ofList (vbuf.take 15) }
      some (if app.version = app.installedVersion then app else { app with state := .updateAvailable })

def checkDownloaded (env : Env) (k : ℕ) (app : App) : App :=
  if env.sysOpen k app.dlpath < 0 then app
  else if app.state = .notInstalled then { app with state := .downloaded }
  else app

/-- The `k`-th entry, from the text at `p` on. -/
def readApp (env : Env) (k : ℕ) (p : List Char) : Option App := do
  let kind := env.jsonFindStr p "type"
  let app ← checkInstalled env k
    { name := (env.jsonFindStr p "name").2
      desc := (env.jsonFindStr p "description").2
      version := (env.jsonFindStr p "version").2
      url := (env.jsonFindStr p "url").2
      sizeKb := env.jsonFindInt p "size_kb"
      state := .notInstalled
      downloadPct := 0
      installedVersion := ""
      isGame := kind.1 && kind.2 == "game" }
  some (checkDownloaded env k app)

/-- The loop over the text; it ends with the text or with 128 entries. -/
def scanRepo (env : Env) : List Char → List App → Option (List App)
  | [],apps => some apps
  | c::rest,apps =>
    if apps.length < 128 then
      if "\"name".toList.isPrefixOf (c::rest) then do
        let app ← readApp env apps.length (c::rest)
        scanRepo env rest (apps ++ [app])
      else scanRepo env rest apps
    else some apps

/-- The globals after a handler, and whether `apply_filter` was the last thing it did to the list. -/
structure Handled where
  ui : Ui
  refiltered : Bool

def Handled.quiet (ui : Ui) : Handled := ⟨ui,false⟩

/-- A handler that ends with `apply_filter`. -/
def refilter (ui : Ui) : Option Handled := (applyFilter ui).map (⟨·,true⟩)

def fetchRepo (env : Env) (ui : Ui) : Option Handled :=
  if env.repo = [] then some (.quiet { ui with statusMsg := "Failed to fetch repo!" })
  else do
    let json ← terminate? 4096 env.repo
    let apps ← scanRepo env json []
    refilter { ui with apps := apps, statusMsg := "Loaded " ++ toString apps.length ++ " apps" }

/-- The invariant holds, and the list is exact if it was filtered last. -/
structure Handled.Sound (r : Handled) : Prop where
  indexed : Indexed r.ui
  exact : r.refiltered = true → FilterExact r.ui

section Fetch
variable {env : Env} {ui : Ui}

theorem sound_quiet (h : Indexed ui) : (Handled.quiet ui).Sound := ⟨h,nofun⟩

theorem refilter_sound (h : ui.apps.length ≤ 128) : ∃ r, refilter ui = some r ∧ r.Sound := by
  obtain ⟨ui',hui',hindexed,hexact⟩ := applyFilter_spec h
  exact ⟨⟨ui',true⟩,by rw [refilter,hui',Option.map_some],hindexed,fun _ => hexact⟩

theorem refilter_apps (h : ui.apps.length ≤ 128) : ∃ r, refilter ui = some r ∧ r.ui.apps = ui.apps :=
  ⟨_,by rw [refilter,applyFilter,foldlM_filterStep h]; rfl,rfl⟩

theorem exists_readApp (env : Env) (k : ℕ) (p : List Char) : ∃ app, readApp env k p = some app := by
  have hcheck : ∀ app, ∃ app', checkInstalled env k app = some app' := by
    intro app
    unfold checkInstalled terminate?
    dsimp only
    rw [if_pos (env.versionFile_lt k)]
    split
    · exact ⟨_,rfl⟩
    · split
      · exact ⟨_,rfl⟩
      · split <;> exact ⟨_,rfl⟩
  obtain ⟨app,happ⟩ := hcheck _
  exact ⟨checkDownloaded env k app,by rw [readApp]; exact Option.bind_eq_some_iff.mpr ⟨app,happ,rfl⟩⟩

theorem scanRepo_le (text : List Char) {apps : List App} (h : apps.length ≤ 128) :
    ∃ apps', scanRepo env text apps = some apps' ∧ apps'.length ≤ 128 := by
  induction text generalizing apps with
  | nil => exact ⟨apps,rfl,h⟩
  | cons c rest ih =>
    unfold scanRepo
    split
    · next hroom =>
      split
      · obtain ⟨app,happ⟩ := exists_readApp env apps.length (c::rest)
        obtain ⟨apps',hrest,hle⟩ := @ih (apps ++ [app]) (by simp; omega)
        exact ⟨apps',Option.bind_eq_some_iff.mpr ⟨app,happ,hrest⟩,hle⟩
      · exact ih h
    · exact ⟨apps,rfl,h⟩

theorem fetchRepo_sound (h : Indexed ui) : ∃ r, fetchRepo env ui = some r ∧ r.Sound := by
  unfold fetchRepo
  split
  · exact ⟨_,rfl,sound_quiet (h.congr rfl rfl rfl)⟩
  · obtain ⟨apps,hscan,hle⟩ := @scanRepo_le env (cText env.repo) [] (by simp)
    obtain ⟨r,hr,hsound⟩ := @refilter_sound
      { ui with apps := apps, statusMsg := "Loaded " ++ toString apps.length ++ " apps" } hle
    refine ⟨r,?_,hsound⟩
    rw [terminate?,if_pos env.repo_lt]
    exact Option.bind_eq_some_iff.mpr ⟨_,rfl,Option.bind_eq_some_iff.mpr ⟨apps,hscan,hr⟩⟩

end Fetch
end Linuxab.AppStore
