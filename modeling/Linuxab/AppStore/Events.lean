import Linuxab.AppStore.Catalog

/-!
The event loop of the application store: every handler of `handle_input`, `draw_ui`, and the main loop as
a machine that runs one handler after the other.  Between any two of them the indices of the list lead to
the entries they were made for.
-/

namespace Linuxab.AppStore
open Linuxab.Base

/-! ## The bounds set by `init_ui` -/

def searchBounds : Rect := ⟨20,70,400,36⟩
def clearBounds : Rect := ⟨430,70,36,36⟩
def tabsBounds : Rect := ⟨20,20,984,40⟩
def listBounds : Rect := ⟨20,120,600,520⟩
def downloadBounds : Rect := ⟨660,120,180,44⟩
def installBounds : Rect := ⟨660,176,180,44⟩
def launchBounds : Rect := ⟨660,232,180,44⟩
def uninstallBounds : Rect := ⟨660,288,180,44⟩
/-- The cancel button lies over the download button. -/
def cancelBounds : Rect := ⟨660,120,180,44⟩
def refreshBounds : Rect := ⟨884,70,120,36⟩

def itemH : ℤ := 70

/-- The labels of the tab bar, in order. -/
def tabs : List Tab := [.apps,.games,.installed,.downloads]

def idleTask : DownloadTask := ⟨false,0,0,0,0,""⟩

/-- The globals after `init_ui`. -/
def initUi : Ui where
  apps := []
  filtered := []
  downloads _ := idleTask
  statusMsg := ""
  tab := .apps
  tabsActive := .apps
  search := .init
  list := ⟨0,0,-1⟩
  buttons := .hidden
  mouse := ⟨0,0,false⟩
  mclick := false

/-! ## Drawing -/

/-- The visibility that `draw_app_details` gives the buttons. -/
def Buttons.of (state : AppState) : Buttons where
  download := decide (state = .notInstalled ∨ state = .updateAvailable)
  install := decide (state = .downloaded)
  launch := decide (state = .installed ∨ state = .updateAvailable)
  uninstall := decide (state = .installed ∨ state = .updateAvailable)
  cancel := decide (state = .downloading)

/-- The selected entry, if the selection is in range. -/
def Ui.selectedIdx (ui : Ui) : Option (Option ℕ) :=
  if 0 ≤ ui.list.selected ∧ ui.list.selected < ui.filtered.length then
    (ui.filtered[ui.list.selected.toNat]?).map some
  else some none

/-- `draw_ui`: every line of the list reads its entry, and `names` and `subtitles` have 128 elements. -/
def drawUi (ui : Ui) : Option Ui := do
  let rows ← ui.filtered.mapM (ui.apps[·]?)
  let _ ← fill? 128 [] rows
  let ui := { ui with list := { ui.list with itemCount := ui.filtered.length } }
  match ← ui.selectedIdx with
  | some idx => do
    let app ← ui.apps[idx]?
    some { ui with buttons := .of app.state }
  | none => some { ui with buttons := .hidden }

/-! ## Actions on an entry -/

def Ui.modifyApp (ui : Ui) (idx : ℕ) (f : App → App) : Ui := { ui with apps := ui.apps.modify idx f }

/-- What a download sees of the globals. -/
def Ui.store (ui : Ui) : Store := ⟨ui.apps.map App.toAppEntry,ui.downloads,ui.statusMsg⟩

/-- The globals with what a download has changed. -/
def Ui.adopt (ui : Ui) (s : Store) : Ui :=
  { ui with
    apps := ui.apps.mapIdx fun i app => { app with toAppEntry := s.apps.getD i app.toAppEntry }
    downloads := s.downloads
    statusMsg := s.statusMsg }

/-- Each round of the download's loop that received something draws the window, with the entry in the
state `Downloading`. -/
def drawProgress (ui : Ui) (idx : ℕ) (gets : List Int64) : Option Ui :=
  if gets.any fun got => decide (0 < got) then
    drawUi (ui.modifyApp idx fun app => { app with state := .downloading })
  else some ui

/-- `start_download` and the `apply_filter` at its end. -/
def downloadApp (env : Env) (ui : Ui) (idx : ℕ) : Option Handled := do
  let o ← startDownload (env.sysOpen 0) env.net (2^31) ui.store (Int32.ofNat idx)
  let drawn ← drawProgress ui idx o.gets
  let ui := { ui.adopt o.store with buttons := drawn.buttons, list := drawn.list }
  if o.ret then refilter ui else some (.quiet ui)

/-- `find_download` and the release of the slot it found. -/
def releaseDownload (downloads : Fin 32 → DownloadTask) (idx : ℕ) : Fin 32 → DownloadTask :=
  match (List.finRange 32).find? fun i => (downloads i).active && (downloads i).appIdx == Int32.ofNat idx with
  | some i => Function.update downloads i { downloads i with active := false }
  | none => downloads

def cancelDownload (ui : Ui) (idx : ℕ) : Option Handled :=
  let ui := { ui with downloads := releaseDownload ui.downloads idx }
  refilter (ui.modifyApp idx fun app => { app with state := .notInstalled, downloadPct := 0 })

/-- `install_app`; the copy of the file and the version file it writes change nothing here. -/
def installApp (env : Env) (ui : Ui) (idx : ℕ) : Option Handled :=
  match ui.apps[idx]? with
  | none => some (.quiet ui)
  | some app =>
    if env.sysOpen 0 app.dlpath < 0 ∨ env.sysOpen 1 ("/apps/" ++ app.name) < 0 then
      some (.quiet { ui with statusMsg := "Install failed!" })
    else
      let ui := ui.modifyApp idx fun app => { app with state := .installed, installedVersion := app.version }
      refilter { ui with statusMsg := "Installed " ++ app.name }

def uninstallApp (ui : Ui) (idx : ℕ) : Option Handled :=
  match ui.apps[idx]? with
  | none => some (.quiet ui)
  | some app =>
    let ui := ui.modifyApp idx fun app => { app with state := .notInstalled, installedVersion := "" }
    refilter { ui with statusMsg := "Uninstalled " ++ app.name }

/-! ## Events -/

/-- A key that goes to the search field. -/
def typeKey (ui : Ui) (ch : Char) : Option Handled :=
  let ui := { ui with search := ui.search.type ch }
  if ui.search.changed then
    (applyFilter ui).map fun ui => ⟨{ ui with search := { ui.search with changed := false } },true⟩
  else some (.quiet ui)

def Ui.select (ui : Ui) (selected : ℤ) : Ui := { ui with list := { ui.list with selected := selected } }

def handleKey (ui : Ui) (code : ℕ) : Option Handled :=
  if code = 103 then
    if 0 < ui.list.selected then some (.quiet (ui.select (ui.list.selected-1))) else some (.quiet ui)
  else if code = 108 then
    if ui.list.selected < ui.filtered.length-1 then some (.quiet (ui.select (ui.list.selected+1)))
    else some (.quiet ui)
  else if code = 14 then typeKey ui (Char.ofNat 8)
  else if 32 ≤ code ∧ code < 127 then typeKey ui (Char.ofNat code)
  else some (.quiet ui)

/-- One round of the loop around `input_poll`. -/
def handleEvent (ui : Ui) (ev : InputEvent) : Option Handled :=
  if ev.type = 1 then some (.quiet { ui with mouse := { ui.mouse with x := ev.x, y := ev.y } })
  else if ev.type = 2 then
    some (.quiet { ui with
      mouse := { ui.mouse with down := decide (ev.code = 1) }
      mclick := decide (ev.code = 0) || ui.mclick })
  else if ev.type = 0 then handleKey ui ev.code
  else some (.quiet ui)

/-- `if (tabbar_click(...)) { g_tab = g_tabs.active; apply_filter(); }` -/
def clickTabs (ui : Ui) : Option Handled :=
  match (tabbarClick tabsBounds 4 ui.mouse).bind fun i => tabs[i.toNat]? with
  | some tab => refilter { ui with tab := tab, tabsActive := tab }
  | none => some (.quiet ui)

/-! ## The main loop -/

/-- The handlers, in the order in which `main` and `handle_input` run them. -/
inductive Task where
  | fetch | frame | poll | searchBar | clearSearch | tabBar | refresh | listClick | actions
  | download (idx : ℕ) | install (idx : ℕ) | launch (idx : ℕ) | uninstall (idx : ℕ) | cancel (idx : ℕ)
  | unclick | draw

/-- The body of `if (g_mclick)`. -/
def clickTasks : List Task := [.searchBar,.clearSearch,.tabBar,.refresh,.listClick,.actions,.unclick]

/-- The buttons for an entry, each looked at when the ones before it are done. -/
def actionTasks (idx : ℕ) : List Task :=
  [.download idx,.install idx,.launch idx,.uninstall idx,.cancel idx]

/-- A handler behind a button. -/
def onButton (ui : Ui) (visible : Bool) (bounds : Rect) (handler : Option Handled) : Option Handled :=
  if buttonUpdate visible bounds ui.mouse then handler else some (.quiet ui)

def Task.run (env : Env) (ui : Ui) : Task → Option Handled
  | .fetch => fetchRepo env ui
  | .frame => some (.quiet ui)
  | .poll =>
    match env.event with
    | some ev => handleEvent ui ev
    | none => some (.quiet ui)
  | .searchBar => some (.quiet { ui with search := ui.search.click searchBounds ui.mouse })
  | .clearSearch => onButton ui true clearBounds (refilter { ui with search := ui.search.clear })
  | .tabBar => clickTabs ui
  | .refresh => onButton ui true refreshBounds (fetchRepo env ui)
  | .listClick => some (.quiet { ui with list := ui.list.click listBounds itemH ui.mouse })
  | .actions => some (.quiet ui)
  | .download idx => onButton ui ui.buttons.download downloadBounds (downloadApp env ui idx)
  | .install idx => onButton ui ui.buttons.install installBounds (installApp env ui idx)
  -- `launch_app` starts the program and changes nothing here
  | .launch _ => onButton ui ui.buttons.launch launchBounds (some (.quiet ui))
  | .uninstall idx => onButton ui ui.buttons.uninstall uninstallBounds (uninstallApp ui idx)
  | .cancel idx => onButton ui ui.buttons.cancel cancelBounds (cancelDownload ui idx)
  | .unclick => some (.quiet { ui with mclick := false })
  | .draw => (drawUi ui).map .quiet

/-- What a task puts in front of the tasks that are waiting; the list is read here for its entry. -/
def Task.next (env : Env) (ui : Ui) : Task → Option (List Task)
  | .frame => some [.poll,.draw,.frame]
  | .poll => some (if env.event.isSome then [.poll] else if ui.mclick then clickTasks else [])
  | .actions => ui.selectedIdx.map fun idx => idx.elim [] actionTasks
  | _ => some []

/-- The globals, the handlers still to run, and whether the last one ended with `apply_filter`. -/
structure Config where
  ui : Ui
  pending : List Task
  refiltered : Bool

/-- `main` behind `init_ui`. -/
def Config.start : Config := ⟨initUi,[.fetch,.frame],false⟩

def Config.step (c : Config) (env : Env) : Option Config :=
  match c.pending with
  | [] => some c
  | task::rest => do
    let next ← task.next env c.ui
    let r ← task.run env c.ui
    some ⟨r.ui,next ++ rest,r.refiltered⟩

/-! ## Every handler keeps the indices -/

section Handlers
variable {env : Env} {ui : Ui}

theorem sound_of_congr {ui' : Ui} (h : Indexed ui) (happs : ui'.apps.length = ui.apps.length)
    (hfiltered : ui'.filtered = ui.filtered) (hlist : ui'.list = ui.list) :
    ∃ r, some (Handled.quiet ui') = some r ∧ r.Sound :=
  ⟨_,rfl,sound_quiet (h.congr happs hfiltered hlist)⟩

theorem selectedIdx_spec (ui : Ui) :
    ∃ sel, ui.selectedIdx = some sel ∧ ∀ idx, sel = some idx → idx ∈ ui.filtered := by
  unfold Ui.selectedIdx
  split
  · next hsel =>
    have hlt : ui.list.selected.toNat < ui.filtered.length := by omega
    refine ⟨some (ui.filtered[ui.list.selected.toNat]),?_,?_⟩
    · rw [List.getElem?_eq_getElem hlt,Option.map_some]
    · rintro idx ⟨⟩
      exact List.getElem_mem hlt
  · exact ⟨none,rfl,nofun⟩

/-- Drawing reads only entries that are there, and leaves the list as it is. -/
theorem drawUi_spec (h : Indexed ui) : ∃ ui', drawUi ui = some ui' ∧ Indexed ui' ∧
    ui'.list = ui.list ∧ ui'.filtered = ui.filtered ∧ ui'.apps = ui.apps := by
  have hread : ∀ i ∈ ui.filtered, ∃ app, ui.apps[i]? = some app := fun i hi =>
    ⟨_,List.getElem?_eq_getElem (h.below i hi)⟩
  obtain ⟨rows,hrows⟩ := exists_mapM hread
  have hfit : ([] : List App).length+rows.length ≤ 128 := by
    have := h.length_le
    have := h.apps_le
    rw [length_of_mapM hrows,List.length_nil]
    omega
  have hlist : { ui.list with itemCount := (ui.filtered.length : ℤ) } = ui.list := by rw [← h.itemCount]
  obtain ⟨sel,hsel,hmem⟩ := selectedIdx_spec ui
  simp only [drawUi,hrows,fill?_of_le hfit,hlist,hsel,Option.bind_eq_bind,Option.bind_some]
  cases sel with
  | none => exact ⟨_,rfl,h.congr rfl rfl rfl,rfl,rfl,rfl⟩
  | some idx =>
    obtain ⟨app,happ⟩ := hread idx (hmem idx rfl)
    simp only [happ,Option.bind_some]
    exact ⟨_,rfl,h.congr rfl rfl rfl,rfl,rfl,rfl⟩

theorem length_modifyApp (ui : Ui) (idx : ℕ) (f : App → App) :
    (ui.modifyApp idx f).apps.length = ui.apps.length := List.length_modify ..

theorem exists_startDownload (env : Env) (s : Store) (appIdx : Int32) :
    ∃ o, startDownload (env.sysOpen 0) env.net (2^31) s appIdx = some o := by
  unfold startDownload
  cases s.app? appIdx with
  | none => exact ⟨_,rfl⟩
  | some app =>
    obtain ⟨t,ht,-⟩ := chunkLoop_start app env.net_bounded (Nat.le_refl (2^31))
    dsimp only
    split_ifs
    · exact ⟨_,rfl⟩
    · exact ⟨_,rfl⟩
    · cases s.allocDownload <;> exact ⟨_,rfl⟩
    · rw [ht]
      cases s.allocDownload <;> exact ⟨_,rfl⟩

theorem drawProgress_list (h : Indexed ui) (idx : ℕ) (gets : List Int64) :
    ∃ drawn, drawProgress ui idx gets = some drawn ∧ drawn.list = ui.list := by
  unfold drawProgress
  split
  · obtain ⟨ui',hui',-,hlist,-⟩ := drawUi_spec
      (h.congr (length_modifyApp ui idx fun app => { app with state := .downloading }) rfl rfl)
    exact ⟨ui',hui',hlist⟩
  · exact ⟨ui,rfl,rfl⟩

theorem downloadApp_sound (h : Indexed ui) (idx : ℕ) : ∃ r, downloadApp env ui idx = some r ∧ r.Sound := by
  obtain ⟨o,ho⟩ := exists_startDownload env ui.store (Int32.ofNat idx)
  obtain ⟨drawn,hdrawn,hlist⟩ := drawProgress_list h idx o.gets
  have hlen : (ui.adopt o.store).apps.length = ui.apps.length := List.length_mapIdx
  simp only [downloadApp,ho,hdrawn,Option.bind_eq_bind,Option.bind_some]
  split
  · exact refilter_sound (hlen.le.trans h.apps_le)
  · exact sound_of_congr h hlen rfl hlist

theorem cancelDownload_sound (h : Indexed ui) (idx : ℕ) : ∃ r, cancelDownload ui idx = some r ∧ r.Sound := by
  apply refilter_sound
  rw [length_modifyApp]
  exact h.apps_le

theorem installApp_sound (h : Indexed ui) (idx : ℕ) : ∃ r, installApp env ui idx = some r ∧ r.Sound := by
  unfold installApp
  split
  · exact ⟨_,rfl,sound_quiet h⟩
  · split
    · exact sound_of_congr h rfl rfl rfl
    · apply refilter_sound
      exact (length_modifyApp ui idx _).le.trans h.apps_le

theorem uninstallApp_sound (h : Indexed ui) (idx : ℕ) : ∃ r, uninstallApp ui idx = some r ∧ r.Sound := by
  unfold uninstallApp
  split
  · exact ⟨_,rfl,sound_quiet h⟩
  · apply refilter_sound
    exact (length_modifyApp ui idx _).le.trans h.apps_le

theorem typeKey_sound (h : Indexed ui) (ch : Char) : ∃ r, typeKey ui ch = some r ∧ r.Sound := by
  unfold typeKey
  dsimp only
  split
  · obtain ⟨ui',hui',hindexed,hexact⟩ := @applyFilter_spec { ui with search := ui.search.type ch } h.apps_le
    refine ⟨_,by rw [hui',Option.map_some],hindexed.congr rfl rfl rfl,fun _ => ?_⟩
    exact ⟨hexact.mem,hexact.selected⟩
  · exact sound_of_congr h rfl rfl rfl

/-- A selection in range keeps the invariant. -/
theorem Indexed.select (h : Indexed ui) {k : ℤ} (h0 : 0 ≤ k) (hk : k < ui.filtered.length) :
    Indexed (ui.select k) :=
  ⟨h.apps_le,h.increasing,h.below,h.itemCount,.inr ⟨h0,hk⟩⟩

theorem handleKey_sound (h : Indexed ui) (code : ℕ) : ∃ r, handleKey ui code = some r ∧ r.Sound := by
  have hsel := h.selected
  unfold handleKey
  split_ifs
  · exact ⟨_,rfl,sound_quiet (h.select (by omega) (by omega))⟩
  · exact ⟨_,rfl,sound_quiet h⟩
  · exact ⟨_,rfl,sound_quiet (h.select (by omega) (by omega))⟩
  · exact ⟨_,rfl,sound_quiet h⟩
  · exact typeKey_sound h _
  · exact typeKey_sound h _
  · exact ⟨_,rfl,sound_quiet h⟩

theorem handleEvent_sound (h : Indexed ui) (ev : InputEvent) : ∃ r, handleEvent ui ev = some r ∧ r.Sound := by
  unfold handleEvent
  split_ifs
  · exact sound_of_congr h rfl rfl rfl
  · exact sound_of_congr h rfl rfl rfl
  · exact handleKey_sound h ev.code
  · exact ⟨_,rfl,sound_quiet h⟩

theorem clickTabs_sound (h : Indexed ui) : ∃ r, clickTabs ui = some r ∧ r.Sound := by
  unfold clickTabs
  split
  · exact refilter_sound h.apps_le
  · exact ⟨_,rfl,sound_quiet h⟩

/-- A click in the list selects one of its lines. -/
theorem listClick_indexed (h : Indexed ui) :
    Indexed { ui with list := ui.list.click listBounds itemH ui.mouse } := by
  have hcount := h.itemCount
  unfold ScrollList.click
  split
  · dsimp only
    split
    · next hidx => exact ⟨h.apps_le,h.increasing,h.below,h.itemCount,.inr ⟨hidx.1,by rw [← hcount]; exact hidx.2⟩⟩
    · exact h.congr rfl rfl rfl
  · exact h.congr rfl rfl rfl

theorem onButton_sound (h : Indexed ui) {visible : Bool} {bounds : Rect} {handler : Option Handled}
    (hrun : ∃ r, handler = some r ∧ r.Sound) : ∃ r, onButton ui visible bounds handler = some r ∧ r.Sound := by
  unfold onButton
  split
  · exact hrun
  · exact ⟨_,rfl,sound_quiet h⟩

/-- Every handler returns and keeps the invariant. -/
theorem Task.run_sound (h : Indexed ui) (task : Task) : ∃ r, task.run env ui = some r ∧ r.Sound := by
  cases task with
  | fetch => exact fetchRepo_sound h
  | poll =>
    change ∃ r, (match env.event with | some ev => handleEvent ui ev | none => some (.quiet ui)) = some r ∧ r.Sound
    cases env.event with
    | some ev => exact handleEvent_sound h ev
    | none => exact ⟨_,rfl,sound_quiet h⟩
  | searchBar => exact sound_of_congr h rfl rfl rfl
  | clearSearch => exact onButton_sound h (refilter_sound h.apps_le)
  | tabBar => exact clickTabs_sound h
  | refresh => exact onButton_sound h (fetchRepo_sound h)
  | listClick => exact ⟨_,rfl,sound_quiet (listClick_indexed h)⟩
  | download idx => exact onButton_sound h (downloadApp_sound h idx)
  | install idx => exact onButton_sound h (installApp_sound h idx)
  | launch idx => exact onButton_sound h ⟨_,rfl,sound_quiet h⟩
  | uninstall idx => exact onButton_sound h (uninstallApp_sound h idx)
  | cancel idx => exact onButton_sound h (cancelDownload_sound h idx)
  | draw =>
    obtain ⟨ui',hui',hindexed,-⟩ := drawUi_spec h
    exact ⟨.quiet ui',by rw [Task.run,hui',Option.map_some],sound_quiet hindexed⟩
  | frame => exact ⟨_,rfl,sound_quiet h⟩
  | actions => exact ⟨_,rfl,sound_quiet h⟩
  | unclick => exact sound_of_congr h rfl rfl rfl

theorem Task.exists_next (env : Env) (ui : Ui) (task : Task) : ∃ tasks, task.next env ui = some tasks := by
  cases task with
  | actions =>
    obtain ⟨sel,hsel,-⟩ := selectedIdx_spec ui
    exact ⟨_,by rw [Task.next,hsel,Option.map_some]⟩
  | _ => exact ⟨_,rfl⟩

end Handlers

/-! ## Runs -/

/-- The main loop is waiting at the end, and the last handler was sound. -/
structure Config.Sound (c : Config) : Prop where
  loops : c.pending.getLast? = some .frame
  indexed : Indexed c.ui
  exact : c.refiltered = true → FilterExact c.ui

theorem Config.start_sound : Config.start.Sound :=
  ⟨rfl,⟨by decide,List.Pairwise.nil,nofun,rfl,.inl rfl⟩,nofun⟩

theorem Config.step_sound (c : Config) (env : Env) (h : c.Sound) :
    ∃ c', c.step env = some c' ∧ c'.Sound := by
  obtain ⟨ui,pending,refiltered⟩ := c
  cases pending with
  | nil => exact absurd h.loops nofun
  | cons task rest =>
    obtain ⟨tasks,hnext⟩ := task.exists_next env ui
    obtain ⟨r,hrun,hr⟩ := @Task.run_sound env ui h.indexed task
    refine ⟨⟨r.ui,tasks ++ rest,r.refiltered⟩,?_,?_,hr.indexed,hr.exact⟩
    · simp only [Config.step,hnext,hrun,Option.bind_eq_bind,Option.bind_some]
    · -- a task that is not the last one leaves the last one where it is; `frame` puts itself back
      cases rest with
      | cons t rest =>
        rw [List.getLast?_append_of_ne_nil _ (List.cons_ne_nil t rest)]
        exact (List.getLast?_cons_cons ▸ h.loops)
      | nil =>
        obtain rfl : task = .frame := Option.some.inj h.loops
        obtain rfl : tasks = [.poll,.draw,.frame] := (Option.some.inj hnext).symm
        rfl

/-- Whatever is typed and clicked and whatever the network and the file system answer, the store goes on,
and between any two handlers the filtered indices are increasing and below the number of entries, of which
there are at most 128, and the selection is in the list or -1.  Right after `apply_filter` the list holds
exactly the entries of the tab that contain the search text, with its first line selected. -/
theorem store_indexes_valid (inputs : List Env) :
    ∃ c, inputs.foldlM Config.step Config.start = some c ∧ c.pending ≠ [] ∧
      c.ui.filtered.length ≤ c.ui.apps.length ∧ c.ui.apps.length ≤ 128 ∧
      c.ui.filtered.Pairwise (· < ·) ∧ (∀ i ∈ c.ui.filtered, i < c.ui.apps.length) ∧
      (c.ui.list.selected = -1 ∨ 0 ≤ c.ui.list.selected ∧ c.ui.list.selected < c.ui.filtered.length) ∧
      (c.refiltered = true → FilterExact c.ui) := by
  obtain ⟨c,hrun,h⟩ := exists_foldlM Config.step_sound inputs Config.start_sound
  refine ⟨c,hrun,?_,h.indexed.length_le,h.indexed.apps_le,h.indexed.increasing,h.indexed.below,
    h.indexed.selected,h.exact⟩
  intro hnil
  have := h.loops
  rw [hnil] at this
  cases this

/-- A repository of two entries, with nothing installed and nothing to download. -/
def smallRepo : Env where
  event := none
  repo := "\"name\"name".toList
  versionFile _ := []
  sysOpen _ _ := -1
  net _ _ _ := ⟨0,fun _ => 0⟩
  jsonFindStr _ key := (true,key)
  jsonFindInt _ _ := 1
  repo_lt := by decide
  versionFile_lt _ := by decide
  net_bounded _ _ n hn := Int64.le_of_lt hn

example : ((Config.start.step smallRepo).map fun c => (c.ui.filtered,c.ui.list.selected,c.refiltered)) =
    some ([0,1],0,true) := by
  decide +kernel

end Linuxab.AppStore
