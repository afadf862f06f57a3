import Linuxab.AppStore.Events

/-!
A mouse click in the event loop.  The widgets are asked when the button has been released, while the
search field and the list look for a button that is down.
-/

namespace Linuxab.AppStore
open Linuxab.Base

/-- The events that a step takes from `input_poll`. -/
def Config.polls (c : Config) (env : Env) : List InputEvent :=
  match c.pending with
  | .poll::_ => env.event.toList
  | _ => []

/-- The events that a run takes, in order. -/
def Config.polled (c : Config) : List Env → List InputEvent
  | [] => []
  | env::envs => c.polls env ++ (match c.step env with
    | some c' => c'.polled envs
    | none => [])

/-- The point is in line `k` of the list. -/
def Ui.InRow (ui : Ui) (x y k : ℤ) : Prop :=
  listBounds.contains ⟨x,y,false⟩ = true ∧ k = (y-listBounds.y+ui.list.scrollY).tdiv itemH ∧
    0 ≤ k ∧ k < ui.list.itemCount

/-! ## No click is left over -/

section Leftover
variable {env : Env} {ui : Ui} {r : Handled}

theorem run_poll_of_none (h : env.event = none) : Task.poll.run env ui = some (.quiet ui) := by rw [Task.run,h]

theorem run_poll_of_some {ev : InputEvent} (h : env.event = some ev) : Task.poll.run env ui = handleEvent ui ev := by
  rw [Task.run,h]

theorem refilter_mclick {ui' : Ui} (h : refilter ui' = some r) (hui : ui'.mclick = ui.mclick) :
    r.ui.mclick = ui.mclick := by
  obtain ⟨ui'',hfilter,rfl⟩ := Option.map_eq_some_iff.mp h
  obtain ⟨filtered,-,hset⟩ := Option.bind_eq_some_iff.mp hfilter
  obtain rfl := Option.some.inj hset
  exact hui

theorem fetchRepo_mclick (h : fetchRepo env ui = some r) : r.ui.mclick = ui.mclick := by
  rw [fetchRepo] at h
  split_ifs at h
  · obtain rfl := Option.some.inj h
    rfl
  · obtain ⟨json,-,h⟩ := Option.bind_eq_some_iff.mp h
    obtain ⟨apps,-,h⟩ := Option.bind_eq_some_iff.mp h
    exact refilter_mclick h rfl

theorem drawUi_frame {ui' : Ui} (h : drawUi ui = some ui') : ui'.mclick = ui.mclick ∧ ui'.mouse = ui.mouse ∧
    ui'.search = ui.search ∧ ui'.list.selected = ui.list.selected := by
  obtain ⟨rows,-,h⟩ := Option.bind_eq_some_iff.mp h
  obtain ⟨names,-,h⟩ := Option.bind_eq_some_iff.mp h
  obtain ⟨sel,-,h⟩ := Option.bind_eq_some_iff.mp h
  cases sel with
  | none =>
    obtain rfl := Option.some.inj h
    exact ⟨rfl,rfl,rfl,rfl⟩
  | some idx =>
    obtain ⟨app,-,h⟩ := Option.bind_eq_some_iff.mp h
    obtain rfl := Option.some.inj h
    exact ⟨rfl,rfl,rfl,rfl⟩

theorem downloadApp_mclick {idx : ℕ} (h : downloadApp env ui idx = some r) : r.ui.mclick = ui.mclick := by
  obtain ⟨o,-,h⟩ := Option.bind_eq_some_iff.mp h
  obtain ⟨drawn,-,h⟩ := Option.bind_eq_some_iff.mp h
  dsimp only at h
  split_ifs at h
  · exact refilter_mclick h rfl
  · obtain rfl := Option.some.inj h
    rfl

theorem installApp_mclick {idx : ℕ} (h : installApp env ui idx = some r) : r.ui.mclick = ui.mclick := by
  rw [installApp] at h
  split at h
  · obtain rfl := Option.some.inj h
    rfl
  · split_ifs at h
    · obtain rfl := Option.some.inj h
      rfl
    · exact refilter_mclick h rfl

theorem uninstallApp_mclick {idx : ℕ} (h : uninstallApp ui idx = some r) : r.ui.mclick = ui.mclick := by
  rw [uninstallApp] at h
  split at h
  · obtain rfl := Option.some.inj h
    rfl
  · exact refilter_mclick h rfl

theorem onButton_mclick {visible : Bool} {bounds : Rect} {handler : Option Handled}
    (h : onButton ui visible bounds handler = some r) (hhandler : handler = some r → r.ui.mclick = ui.mclick) :
    r.ui.mclick = ui.mclick := by
  rw [onButton] at h
  split_ifs at h
  · exact hhandler h
  · obtain rfl := Option.some.inj h
    rfl

/-- Only an event makes a click, and only the end of `handle_input` takes it back. -/
theorem Task.run_mclick {task : Task} (hpoll : task ≠ .poll) (hunclick : task ≠ .unclick)
    (h : task.run env ui = some r) : r.ui.mclick = ui.mclick := by
  cases task with
  | poll => exact absurd rfl hpoll
  | unclick => exact absurd rfl hunclick
  | fetch => exact fetchRepo_mclick h
  | frame | searchBar | listClick | actions =>
    obtain rfl := Option.some.inj h
    rfl
  | clearSearch => exact onButton_mclick h fun h => refilter_mclick h rfl
  | tabBar =>
    change clickTabs ui = some r at h
    rw [clickTabs] at h
    split at h
    · exact refilter_mclick h rfl
    · obtain rfl := Option.some.inj h
      rfl
  | refresh => exact onButton_mclick h fetchRepo_mclick
  | download idx => exact onButton_mclick h downloadApp_mclick
  | install idx => exact onButton_mclick h installApp_mclick
  | launch idx =>
    apply onButton_mclick h
    intro hquiet
    obtain rfl := Option.some.inj hquiet
    rfl
  | uninstall idx => exact onButton_mclick h uninstallApp_mclick
  | cancel idx => exact onButton_mclick h fun h => refilter_mclick h rfl
  | draw =>
    obtain ⟨ui',hui',rfl⟩ := Option.map_eq_some_iff.mp h
    exact (drawUi_frame hui').1

/-- A click is noticed while there are events to poll, or until it has been dealt with. -/
def Config.ClickPending (c : Config) : Prop := c.ui.mclick = true → .poll ∈ c.pending ∨ .unclick ∈ c.pending

theorem Config.step_eq_some {c c' : Config} {task : Task} {rest : List Task} (hpending : c.pending = task::rest)
    (h : c.step env = some c') :
    ∃ next r, task.next env c.ui = some next ∧ task.run env c.ui = some r ∧ c' = ⟨r.ui,next ++ rest,r.refiltered⟩ := by
  rw [Config.step,hpending] at h
  obtain ⟨next,hnext,h⟩ := Option.bind_eq_some_iff.mp h
  obtain ⟨r,hr,h⟩ := Option.bind_eq_some_iff.mp h
  exact ⟨next,r,hnext,hr,(Option.some.inj h).symm⟩

theorem Config.ClickPending.step {c c' : Config} (h : c.ClickPending) (hs : c.step env = some c') :
    c'.ClickPending := by
  intro hclick
  cases hpending : c.pending with
  | nil =>
    rw [Config.step,hpending] at hs
    obtain rfl := Option.some.inj hs
    exact h hclick
  | cons task rest =>
    obtain ⟨next,r,hnext,hr,rfl⟩ := Config.step_eq_some hpending hs
    rw [Config.ClickPending,hpending] at h
    by_cases hpoll : task = .poll
    · subst hpoll
      obtain rfl := Option.some.inj hnext
      cases hev : env.event with
      | some ev => exact .inl (by simp)
      | none =>
        rw [run_poll_of_none hev] at hr
        obtain rfl := Option.some.inj hr
        have hnow : c.ui.mclick = true := hclick
        exact .inr (by simp [hnow,clickTasks])
    · by_cases hunclick : task = .unclick
      · subst hunclick
        obtain rfl := Option.some.inj hr
        cases hclick
      · have hbefore := h ((Task.run_mclick hpoll hunclick hr).symm.trans hclick)
        rcases hbefore with hmem | hmem
        · have hrest := (List.mem_cons.mp hmem).resolve_left (Ne.symm hpoll)
          exact .inl (List.mem_append_right next hrest)
        · have hrest := (List.mem_cons.mp hmem).resolve_left (Ne.symm hunclick)
          exact .inr (List.mem_append_right next hrest)

theorem Config.ClickPending.run {c c' : Config} (h : c.ClickPending) {envs : List Env}
    (hrun : envs.foldlM Config.step c = some c') : c'.ClickPending := by
  induction envs generalizing c with
  | nil =>
    obtain rfl := Option.some.inj hrun
    exact h
  | cons env envs ih =>
    obtain ⟨c₁,hstep,hrest⟩ := foldlM_cons_eq_some.mp hrun
    exact ih (h.step hstep) hrest

/-- Between two calls of `handle_input` there is no click. -/
theorem mclick_of_frame {inputs : List Env} {c : Config} (hc : inputs.foldlM Config.step Config.start = some c)
    (hframe : c.pending = [.frame]) : c.ui.mclick = false := by
  have hstart : Config.start.ClickPending := by
    intro h
    cases h
  have hpending := hstart.run hc
  cases hclick : c.ui.mclick with
  | false => rfl
  | true =>
    have hmem := hpending hclick
    rw [hframe] at hmem
    simp at hmem

end Leftover

/-! ## Move, press and release -/

/-- The point is on none of the buttons. -/
structure OffButtons (m : Mouse) : Prop where
  clear : clearBounds.contains m = false
  refresh : refreshBounds.contains m = false
  download : downloadBounds.contains m = false
  install : installBounds.contains m = false
  launch : launchBounds.contains m = false
  uninstall : uninstallBounds.contains m = false
  cancel : cancelBounds.contains m = false

theorem Rect.contains_iff (r : Rect) (m : Mouse) :
    r.contains m = true ↔ r.x ≤ m.x ∧ m.x < r.x+r.w ∧ r.y ≤ m.y ∧ m.y < r.y+r.h := by
  rw [Rect.contains,decide_eq_true_iff]

theorem offButtons_of_widget {m : Mouse} (h : listBounds.contains m = true ∨ searchBounds.contains m = true) :
    OffButtons m := by
  rw [Rect.contains_iff,Rect.contains_iff] at h
  dsimp only [listBounds,searchBounds] at h
  constructor <;> rw [← Bool.not_eq_true,Rect.contains_iff] <;> dsimp only [clearBounds,refreshBounds,
    downloadBounds,installBounds,launchBounds,uninstallBounds,cancelBounds] <;> omega

theorem onButton_of_off {ui : Ui} {bounds : Rect} (h : bounds.contains ui.mouse = false) (visible : Bool)
    (handler : Option Handled) : onButton ui visible bounds handler = some (.quiet ui) := by
  rw [onButton,buttonUpdate,h]
  simp

/-- What a run does before the button is released. -/
def Task.Idle : Task → Prop
  | .frame | .poll | .draw => True
  | _ => False

/-- The run after `n` of the three events, for a point off the buttons: nothing has been selected and the
search field is as it was. -/
structure Config.Clicking (x y sel : ℤ) (act : Bool) (n : ℕ) (c : Config) : Prop where
  selected : c.ui.list.selected = sel
  active : c.ui.search.active = act
  tasks : ∀ task ∈ c.pending, task.Idle ∨ n = 3 ∧ task ≠ .fetch
  moved : 1 ≤ n → c.ui.mouse.x = x ∧ c.ui.mouse.y = y
  unclicked : n < 3 → c.ui.mclick = false
  released : n = 3 → c.ui.mouse.down = false

section Click
variable {x y sel : ℤ} {act : Bool} {n : ℕ} {env : Env} {c c' : Config} {ui : Ui} {r : Handled}

/-- With the button up and off the buttons, no task of a click does anything. -/
theorem Task.run_released {task : Task} (hfetch : task ≠ .fetch) (hevent : task = .poll → env.event = none)
    (hoff : OffButtons ui.mouse) (hup : ui.mouse.down = false) (h : task.run env ui = some r) :
    r.ui.list.selected = ui.list.selected ∧ r.ui.search.active = ui.search.active ∧ r.ui.mouse = ui.mouse := by
  have hquiet : ∀ {ui' : Ui}, some (Handled.quiet ui') = some r → ui'.list.selected = ui.list.selected →
      ui'.search.active = ui.search.active → ui'.mouse = ui.mouse →
      r.ui.list.selected = ui.list.selected ∧ r.ui.search.active = ui.search.active ∧ r.ui.mouse = ui.mouse := by
    rintro ui' hr hsel hact hmouse
    obtain rfl := Option.some.inj hr
    exact ⟨hsel,hact,hmouse⟩
  have hbutton : ∀ {visible : Bool} {bounds : Rect} {handler : Option Handled},
      onButton ui visible bounds handler = some r → bounds.contains ui.mouse = false →
      r.ui.list.selected = ui.list.selected ∧ r.ui.search.active = ui.search.active ∧ r.ui.mouse = ui.mouse := by
    intro visible bounds handler hr hoff
    rw [onButton_of_off hoff] at hr
    exact hquiet hr rfl rfl rfl
  cases task with
  | fetch => exact absurd rfl hfetch
  | frame | actions | unclick => exact hquiet h rfl rfl rfl
  | poll =>
    rw [run_poll_of_none (hevent rfl)] at h
    exact hquiet h rfl rfl rfl
  | searchBar => exact hquiet h rfl (by rw [InputField.click,hup]; rfl) rfl
  | listClick => exact hquiet h (by rw [ScrollList.click,hup]; rfl) rfl rfl
  | tabBar =>
    have hnone : tabbarClick tabsBounds 4 ui.mouse = none := by rw [tabbarClick,hup]; rfl
    change clickTabs ui = some r at h
    rw [clickTabs,hnone] at h
    exact hquiet h rfl rfl rfl
  | clearSearch => exact hbutton h hoff.clear
  | refresh => exact hbutton h hoff.refresh
  | download idx => exact hbutton h hoff.download
  | install idx => exact hbutton h hoff.install
  | launch idx => exact hbutton h hoff.launch
  | uninstall idx => exact hbutton h hoff.uninstall
  | cancel idx => exact hbutton h hoff.cancel
  | draw =>
    obtain ⟨ui',hui',rfl⟩ := Option.map_eq_some_iff.mp h
    obtain ⟨-,hmouse,hsearch,hsel⟩ := drawUi_frame hui'
    exact ⟨hsel,by change ui'.search.active = _; rw [hsearch],hmouse⟩

theorem Task.next_ne_fetch {task : Task} {next : List Task} (h : task.next env ui = some next) :
    ∀ t ∈ next, t ≠ .fetch := by
  have hnext : next = [] ∨ next = [.poll,.draw,.frame] ∨ next = [.poll] ∨ next = clickTasks ∨
      ∃ idx, next = actionTasks idx := by
    cases task with
    | frame => exact .inr (.inl (Option.some.inj h).symm)
    | poll =>
      obtain rfl := Option.some.inj h
      split_ifs
      · exact .inr (.inr (.inl rfl))
      · exact .inr (.inr (.inr (.inl rfl)))
      · exact .inl rfl
    | actions =>
      obtain ⟨sel,-,rfl⟩ := Option.map_eq_some_iff.mp h
      cases sel with
      | none => exact .inl rfl
      | some idx => exact .inr (.inr (.inr (.inr ⟨idx,rfl⟩)))
    | _ => exact .inl (Option.some.inj h).symm
  obtain rfl | rfl | rfl | rfl | ⟨idx,rfl⟩ := hnext <;> simp [clickTasks,actionTasks]

/-- Before the button is released, a step without an event changes nothing either. -/
theorem Task.run_idle {task : Task} {next : List Task} (hidle : task.Idle)
    (hevent : task = .poll → env.event = none) (hclick : ui.mclick = false) (hnext : task.next env ui = some next)
    (h : task.run env ui = some r) :
    r.ui.list.selected = ui.list.selected ∧ r.ui.search.active = ui.search.active ∧ r.ui.mouse = ui.mouse ∧
      r.ui.mclick = false ∧ ∀ t ∈ next, t.Idle := by
  cases task with
  | frame =>
    obtain rfl := Option.some.inj h
    obtain rfl := Option.some.inj hnext
    exact ⟨rfl,rfl,rfl,hclick,by simp [Task.Idle]⟩
  | poll =>
    rw [run_poll_of_none (hevent rfl)] at h
    rw [Task.next,hevent rfl,hclick] at hnext
    obtain rfl := Option.some.inj h
    obtain rfl := Option.some.inj hnext
    exact ⟨rfl,rfl,rfl,hclick,by simp⟩
  | draw =>
    obtain ⟨ui',hui',rfl⟩ := Option.map_eq_some_iff.mp h
    obtain ⟨hmclick,hmouse,hsearch,hsel⟩ := drawUi_frame hui'
    obtain rfl := Option.some.inj hnext
    exact ⟨hsel,by change ui'.search.active = _; rw [hsearch],hmouse,hmclick.trans hclick,by simp⟩
  | _ => exact hidle.elim

theorem Config.event_of_polls_nil {task : Task} {rest : List Task} (hpending : c.pending = task::rest)
    (h : c.polls env = []) : task = .poll → env.event = none := by
  rintro rfl
  rw [Config.polls,hpending] at h
  cases hev : env.event with
  | none => rfl
  | some ev =>
    rw [hev] at h
    cases h

theorem Config.Clicking.step_quiet (hoff : ∀ down, OffButtons ⟨x,y,down⟩) (h : c.Clicking x y sel act n)
    (hn : n ≤ 3) (hpolls : c.polls env = []) (hs : c.step env = some c') : c'.Clicking x y sel act n := by
  cases hpending : c.pending with
  | nil =>
    rw [Config.step,hpending] at hs
    obtain rfl := Option.some.inj hs
    exact h
  | cons task rest =>
    obtain ⟨next,r,hnext,hr,rfl⟩ := Config.step_eq_some hpending hs
    have hevent := Config.event_of_polls_nil hpending hpolls
    have htasks := h.tasks
    rw [hpending] at htasks
    obtain ⟨htask,hrest⟩ := List.forall_mem_cons.mp htasks
    rcases Nat.lt_or_eq_of_le hn with hlt | heq
    · have hidle : task.Idle := htask.resolve_right fun hthree => by omega
      obtain ⟨hsel,hact,hmouse,hclick,hidles⟩ := Task.run_idle hidle hevent (h.unclicked hlt) hnext hr
      refine ⟨hsel.trans h.selected,hact.trans h.active,?_,?_,fun _ => hclick,fun hthree => by omega⟩
      · intro t ht
        rcases List.mem_append.mp ht with ht | ht
        · exact .inl (hidles t ht)
        · exact hrest t ht
      · intro hmoved
        rw [hmouse]
        exact h.moved hmoved
    · subst heq
      have hfetch : task ≠ .fetch := by
        rcases htask with hidle | ⟨-,hne⟩
        · rintro rfl
          exact hidle
        · exact hne
      obtain ⟨hx,hy⟩ := h.moved (by decide)
      have hoff : OffButtons c.ui.mouse := by
        have hhere := hoff c.ui.mouse.down
        rw [← hx,← hy] at hhere
        exact hhere
      obtain ⟨hsel,hact,hmouse⟩ := Task.run_released hfetch hevent hoff (h.released rfl) hr
      refine ⟨hsel.trans h.selected,hact.trans h.active,?_,?_,fun hlt => absurd hlt (Nat.lt_irrefl 3),?_⟩
      · intro t ht
        rcases List.mem_append.mp ht with ht | ht
        · exact .inr ⟨rfl,Task.next_ne_fetch hnext t ht⟩
        · exact hrest t ht
      · intro hmoved
        rw [hmouse]
        exact h.moved hmoved
      · intro hthree
        rw [hmouse]
        exact h.released hthree

theorem Config.polls_cases (c : Config) (env : Env) :
    c.polls env = [] ∨ ∃ ev rest, c.polls env = [ev] ∧ c.pending = .poll::rest ∧ env.event = some ev := by
  rw [Config.polls]
  split
  · next rest hpending =>
    cases hev : env.event with
    | none => exact .inl rfl
    | some ev => exact .inr ⟨ev,rest,rfl,hpending,rfl⟩
  · exact .inl rfl

/-- A step that takes an event leaves the tasks as they were. -/
theorem Config.step_of_event {rest : List Task} {ev : InputEvent} (hpending : c.pending = .poll::rest)
    (hev : env.event = some ev) (hs : c.step env = some c') :
    ∃ r, handleEvent c.ui ev = some r ∧ c'.ui = r.ui ∧ c'.pending = .poll::rest := by
  obtain ⟨next,r,hnext,hr,rfl⟩ := Config.step_eq_some hpending hs
  rw [Task.next,hev] at hnext
  rw [run_poll_of_some hev] at hr
  obtain rfl := Option.some.inj hnext
  exact ⟨r,hr,rfl,rfl⟩

/-- The three events of a click at `(x, y)`. -/
structure ClickEvents (x y : ℤ) (move press release : InputEvent) : Prop where
  move : move.type = 1 ∧ move.x = x ∧ move.y = y
  press : press.type = 2 ∧ press.code = 1
  release : release.type = 2 ∧ release.code = 0

section Events
variable {move press release : InputEvent} (hevents : ClickEvents x y move press release)
include hevents

theorem Config.Clicking.step_event (h : c.Clicking x y sel act n) {ev : InputEvent} {rest : List Task}
    (hpending : c.pending = .poll::rest) (hev : env.event = some ev) (hs : c.step env = some c')
    (hnth : [move,press,release][n]? = some ev) : c'.Clicking x y sel act (n+1) := by
  obtain ⟨r,hr,hui,hpending'⟩ := Config.step_of_event hpending hev hs
  have hn : n < 3 := (List.getElem?_eq_some_iff.mp hnth).1
  have htasks : ∀ task ∈ c'.pending, task.Idle ∨ n+1 = 3 ∧ task ≠ .fetch := by
    rw [hpending',← hpending]
    intro task hmem
    exact .inl ((h.tasks task hmem).resolve_right fun hthree => by omega)
  have hclick := h.unclicked hn
  match n, hn with
  | 0, _ =>
    obtain rfl := Option.some.inj hnth
    obtain ⟨htype,hx,hy⟩ := hevents.move
    rw [handleEvent,if_pos htype] at hr
    obtain rfl := Option.some.inj hr
    exact ⟨by rw [hui]; exact h.selected,by rw [hui]; exact h.active,htasks,fun _ => by rw [hui]; exact ⟨hx,hy⟩,
      fun _ => by rw [hui]; exact hclick,fun h => absurd h (by decide)⟩
  | 1, _ =>
    obtain rfl := Option.some.inj hnth
    obtain ⟨htype,hcode⟩ := hevents.press
    rw [handleEvent,if_neg (by omega),if_pos htype,hcode] at hr
    obtain rfl := Option.some.inj hr
    refine ⟨by rw [hui]; exact h.selected,by rw [hui]; exact h.active,htasks,
      fun _ => by rw [hui]; exact h.moved (by decide),fun _ => by rw [hui]; exact hclick,
      fun h => absurd h (by decide)⟩
  | 2, _ =>
    obtain rfl := Option.some.inj hnth
    obtain ⟨htype,hcode⟩ := hevents.release
    rw [handleEvent,if_neg (by omega),if_pos htype,hcode] at hr
    obtain rfl := Option.some.inj hr
    exact ⟨by rw [hui]; exact h.selected,by rw [hui]; exact h.active,htasks,
      fun _ => by rw [hui]; exact h.moved (by decide),fun h => absurd h (by decide),fun _ => by rw [hui]; rfl⟩

theorem Config.Clicking.run (hoff : ∀ down, OffButtons ⟨x,y,down⟩) (h : c.Clicking x y sel act n) (hn : n ≤ 3)
    {envs : List Env} (hrun : envs.foldlM Config.step c = some c')
    (hpolled : c.polled envs = [move,press,release].drop n) : c'.Clicking x y sel act 3 := by
  induction envs generalizing c n with
  | nil =>
    obtain rfl := Option.some.inj hrun
    have hlength := congrArg List.length hpolled
    obtain rfl : n = 3 := by
      simp [Config.polled] at hlength
      omega
    exact h
  | cons env envs ih =>
    obtain ⟨c₁,hstep,hrest⟩ := foldlM_cons_eq_some.mp hrun
    rw [Config.polled,hstep] at hpolled
    obtain hnone | ⟨ev,rest,hone,hpending,hev⟩ := c.polls_cases env
    · rw [hnone] at hpolled
      exact ih (h.step_quiet hoff hn hnone hstep) hn hrest hpolled
    · rw [hone] at hpolled
      have hnth : [move,press,release][n]? = some ev := by
        rw [← List.head?_drop,← hpolled]
        rfl
      have hlt : n < 3 := (List.getElem?_eq_some_iff.mp hnth).1
      refine ih (h.step_event hevents hpending hev hstep hnth) hlt hrest ?_
      rw [← List.tail_drop,← hpolled]
      rfl

end Events
end Click

/-- A click on a line of the list or on the search field changes neither the selection nor whether the
field is active: the line is selected afterwards only if it was before, and the field is active only if it
was before. -/
theorem click_reaches_iff {inputs envs : List Env} {c c' : Config} {x y : ℤ} {move press release : InputEvent}
    (hc : inputs.foldlM Config.step Config.start = some c) (hcalls : c.pending = [.frame])
    (hrun : envs.foldlM Config.step c = some c') (hpolled : c.polled envs = [move,press,release])
    (hevents : ClickEvents x y move press release) :
    (∀ k, c.ui.InRow x y k → (c'.ui.list.selected = k ↔ c.ui.list.selected = k)) ∧
    (searchBounds.contains ⟨x,y,false⟩ = true → (c'.ui.search.active = true ↔ c.ui.search.active = true)) := by
  have hstart : c.Clicking x y c.ui.list.selected c.ui.search.active 0 := by
    refine ⟨rfl,rfl,?_,fun h => absurd h (by decide),fun _ => mclick_of_frame hc hcalls,fun h => absurd h (by decide)⟩
    rw [hcalls]
    simp [Task.Idle]
  have hend : (listBounds.contains ⟨x,y,false⟩ = true ∨ searchBounds.contains ⟨x,y,false⟩ = true) →
      c'.Clicking x y c.ui.list.selected c.ui.search.active 3 := by
    intro hwidget
    exact hstart.run hevents (fun down => offButtons_of_widget hwidget) (Nat.zero_le 3) hrun hpolled
  constructor
  · intro k hk
    rw [(hend (.inl hk.1)).selected]
  · intro hin
    rw [(hend (.inr hin)).active]

deriving instance DecidableEq for Task, InputEvent

/-- One call of `handle_input` with a click at the point, and the drawing behind it. -/
def clickAt (x y : ℤ) : List Env :=
  [smallRepo,{ smallRepo with event := some ⟨1,0,x,y⟩ },{ smallRepo with event := some ⟨2,1,0,0⟩ },
    { smallRepo with event := some ⟨2,0,0,0⟩ }] ++ List.replicate 14 smallRepo

theorem clickEvents_at (x y : ℤ) : ClickEvents x y ⟨1,0,x,y⟩ ⟨2,1,0,0⟩ ⟨2,0,0,0⟩ :=
  ⟨⟨rfl,rfl,rfl⟩,⟨rfl,rfl⟩,⟨rfl,rfl⟩⟩

/-- The two entries of the repository are shown, the first one is selected. -/
theorem exists_loaded : ∃ c, [smallRepo].foldlM Config.step Config.start = some c ∧ c.pending = [.frame] ∧
    c.ui.list.selected = 0 ∧ c.ui.list.scrollY = 0 ∧ c.ui.list.itemCount = 2 ∧
    ∃ c', (clickAt 100 200).foldlM Config.step c = some c' ∧ c'.pending = [.frame] ∧ c'.ui.list.selected = 0 ∧
      c.polled (clickAt 100 200) = [⟨1,0,100,200⟩,⟨2,1,0,0⟩,⟨2,0,0,0⟩] := by
  have hlist : ([smallRepo].foldlM Config.step Config.start).map (fun c => (c.pending,c.ui.list.selected,
      c.ui.list.scrollY,c.ui.list.itemCount)) = some ([.frame],0,0,2) := by
    decide +kernel
  have hpolled : ([smallRepo].foldlM Config.step Config.start).map (fun c => c.polled (clickAt 100 200))
      = some [⟨1,0,100,200⟩,⟨2,1,0,0⟩,⟨2,0,0,0⟩] := by
    decide +kernel
  have hrun : (([smallRepo].foldlM Config.step Config.start).bind fun c => (clickAt 100 200).foldlM Config.step c).map
      (fun c' => (c'.pending,c'.ui.list.selected)) = some ([.frame],0) := by
    decide +kernel
  obtain ⟨c,hc,heq⟩ := Option.map_eq_some_iff.mp hlist
  rw [hc] at hpolled hrun
  obtain ⟨c',hc',heq'⟩ := Option.map_eq_some_iff.mp hrun
  simp only [Prod.mk.injEq] at heq heq'
  obtain ⟨hpending,hsel,hscroll,hcount⟩ := heq
  exact ⟨c,hc,hpending,hsel,hscroll,hcount,c',hc',heq'.1,heq'.2,Option.some.inj hpolled⟩

theorem click_reaches_first : ∃ c c', [smallRepo].foldlM Config.step Config.start = some c ∧
    (clickAt 100 200).foldlM Config.step c = some c' ∧
    ∀ k, c.ui.InRow 100 200 k → (c'.ui.list.selected = k ↔ c.ui.list.selected = k) := by
  obtain ⟨c,hc,hpending,-,-,-,c',hc',-,-,hpolled⟩ := exists_loaded
  exact ⟨c,c',hc,hc',(click_reaches_iff hc hpending hc' hpolled (clickEvents_at 100 200)).1⟩

/-- A click on the second line leaves the first one selected. -/
theorem click_missed : ∃ c c', [smallRepo].foldlM Config.step Config.start = some c ∧ c.pending = [.frame] ∧
    (clickAt 100 200).foldlM Config.step c = some c' ∧ c'.pending = [.frame] ∧
    c.polled (clickAt 100 200) = [⟨1,0,100,200⟩,⟨2,1,0,0⟩,⟨2,0,0,0⟩] ∧
    c.ui.InRow 100 200 1 ∧ c'.ui.list.selected = 0 := by
  obtain ⟨c,hc,hpending,-,hscroll,hcount,c',hc',hpending',hsel,hpolled⟩ := exists_loaded
  refine ⟨c,c',hc,hpending,hc',hpending',hpolled,⟨by decide,?_,by decide,?_⟩,hsel⟩
  · rw [hscroll]
    decide
  · rw [hcount]
    decide

end Linuxab.AppStore
