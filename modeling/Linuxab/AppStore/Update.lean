import Linuxab.AppStore.Events

/-!
Downloads of an update: what the failing branches of `start_download` and what `cancel_download` leave of
an entry that was `UpdateAvailable`.
-/

namespace Linuxab.AppStore
open Linuxab.Base

/-- The entry is up for its update, and no slot is active for it. -/
structure Store.Restored (s : Store) (appIdx : Int32) : Prop where
  state : (s.app? appIdx).map AppEntry.state = some .updateAvailable
  released : ∀ i, (s.downloads i).active = true → (s.downloads i).appIdx ≠ appIdx

/-- Whatever the network does, a download that does not succeed restores the entry. -/
def RestoresFailed (sysOpen : String → Int64) (s : Store) (appIdx : Int32) : Prop :=
  ∀ net rounds o, startDownload sysOpen net rounds s appIdx = some o → o.stateOf appIdx ≠ some .downloaded →
    o.store.Restored appIdx

section Start
variable {sysOpen : String → Int64} {s : Store} {appIdx : Int32} {app : AppEntry} {didx : Fin 32}

theorem startDownload_of_full (happ : s.app? appIdx = some app) (hstate : app.state = .updateAvailable)
    (hslot : s.allocDownload = none) (net : NetGet) (rounds : ℕ) :
    startDownload sysOpen net rounds s appIdx = some (.refused (s.status "Too many downloads!")) := by
  simp [startDownload,happ,hstate,hslot]

theorem startDownload_of_slot (happ : s.app? appIdx = some app) (hstate : app.state = .updateAvailable)
    (hslot : s.allocDownload = some didx) (net : NetGet) (rounds : ℕ) :
    startDownload sysOpen net rounds s appIdx
      = if sysOpen app.dlpath < 0 then some (.refused ((s.begin appIdx app didx).openFailed appIdx didx))
        else (chunkLoop net app rounds .start).map (.finished (s.begin appIdx app didx) appIdx app didx) := by
  simp [startDownload,happ,hstate,hslot]

theorem app?_begin (happ : s.app? appIdx = some app) (didx : Fin 32) :
    (s.begin appIdx app didx).app? appIdx = some { app with state := .downloading, downloadPct := 0 } := by
  simp [Store.begin,happ]

/-- A file that cannot be created leaves the entry not installed. -/
theorem stateOf_openFailed (happ : s.app? appIdx = some app) (didx : Fin 32) :
    (Outcome.refused ((s.begin appIdx app didx).openFailed appIdx didx)).stateOf appIdx = some .notInstalled := by
  simp [Outcome.stateOf,Outcome.refused,Store.openFailed,app?_begin happ]

/-- With a file of no bytes the loop is not entered. -/
theorem chunkLoop_of_empty {net : NetGet} {rounds : ℕ} {t : Transfer} (hlimit : app.limit ≤ 0)
    (h : chunkLoop net app rounds .start = some t) : t = .start := by
  cases rounds with
  | zero => cases h
  | succ rounds =>
    have hdone : ¬Transfer.start.total < app.limit := Int64.not_lt.mpr hlimit
    rw [chunkLoop,if_neg hdone] at h
    exact (Option.some.inj h).symm

theorem not_restored_of_state {s : Store} (h : (s.app? appIdx).map AppEntry.state = some .notInstalled) :
    ¬s.Restored appIdx := by
  intro hr
  have := h.symm.trans hr.state
  cases this

/-- A refused call changes nothing but the status line. -/
theorem restoresFailed_iff_of_full (happ : s.app? appIdx = some app) (hstate : app.state = .updateAvailable)
    (hslot : s.allocDownload = none) : RestoresFailed sysOpen s appIdx ↔
      ∀ i, (s.downloads i).active = true → (s.downloads i).appIdx ≠ appIdx := by
  have hrun := @startDownload_of_full sysOpen _ _ _ happ hstate hslot
  have hkept : (s.app? appIdx).map AppEntry.state = some .updateAvailable := by rw [happ,Option.map_some,hstate]
  constructor
  · intro h
    have hne : (Outcome.refused (s.status "Too many downloads!")).stateOf appIdx ≠ some .downloaded := by
      intro hd
      cases hkept.symm.trans hd
    exact (h deadNet 0 _ (hrun deadNet 0) hne).released
  · intro hfree net rounds o ho _
    rw [hrun] at ho
    obtain rfl := Option.some.inj ho
    exact ⟨hkept,hfree⟩

theorem not_restoresFailed {net : NetGet} {rounds : ℕ} {o : Outcome}
    (ho : startDownload sysOpen net rounds s appIdx = some o) (hstate : o.stateOf appIdx = some .notInstalled) :
    ¬RestoresFailed sysOpen s appIdx := by
  intro h
  refine not_restored_of_state hstate (h net rounds o ho ?_)
  rw [hstate]
  decide

/-- Once the file is created, only a download of no bytes cannot fail. -/
theorem restoresFailed_iff_of_open (happ : s.app? appIdx = some app) (hstate : app.state = .updateAvailable)
    (hslot : s.allocDownload = some didx) (hopen : ¬sysOpen app.dlpath < 0) :
    RestoresFailed sysOpen s appIdx ↔ app.limit ≤ 0 := by
  have hbegin := app?_begin happ didx
  have hrun : ∀ net rounds, startDownload sysOpen net rounds s appIdx
      = (chunkLoop net app rounds .start).map (.finished (s.begin appIdx app didx) appIdx app didx) := by
    intro net rounds
    rw [startDownload_of_slot happ hstate hslot,if_neg hopen]
  constructor
  · intro h
    by_contra hlimit
    -- a network that delivers nothing
    have hloop : chunkLoop deadNet app 1 .start = some ⟨0,0,[],[-1]⟩ := if_pos (Int64.not_le.mp hlimit)
    have hfail : (Outcome.finished (s.begin appIdx app didx) appIdx app didx ⟨0,0,[],[-1]⟩).stateOf appIdx
        = some .notInstalled := by
      rw [stateOf_finished hbegin,if_neg hlimit]
    exact not_restoresFailed (by rw [hrun,hloop]; rfl) hfail h
  · intro hlimit net rounds o ho hne
    rw [hrun] at ho
    obtain ⟨t,ht,rfl⟩ := Option.map_eq_some_iff.mp ho
    refine absurd ?_ hne
    rw [chunkLoop_of_empty hlimit ht,stateOf_finished hbegin]
    exact congrArg some (if_pos hlimit)

theorem restoresFailed_iff (happ : s.app? appIdx = some app) (hstate : app.state = .updateAvailable) :
    RestoresFailed sysOpen s appIdx ↔
      (s.allocDownload = none ∧ ∀ i, (s.downloads i).active = true → (s.downloads i).appIdx ≠ appIdx) ∨
      (s.allocDownload ≠ none ∧ 0 ≤ sysOpen app.dlpath ∧ app.limit ≤ 0) := by
  cases hslot : s.allocDownload with
  | none => simp [restoresFailed_iff_of_full happ hstate hslot]
  | some didx =>
    by_cases hopen : sysOpen app.dlpath < 0
    · have hfail : ¬RestoresFailed sysOpen s appIdx := by
        refine @not_restoresFailed sysOpen s appIdx deadNet 0 _ ?_ (stateOf_openFailed happ didx)
        rw [startDownload_of_slot happ hstate hslot,if_pos hopen]
      simp [hfail,Int64.not_le.mpr hopen]
    · simp [restoresFailed_iff_of_open happ hstate hslot hopen,Int64.not_lt.mp hopen]

end Start

/-! ## Cancelling -/

theorem cancelDownload_state {ui : Ui} (h : ui.apps.length ≤ 128) {idx : ℕ} (hidx : idx < ui.apps.length) :
    ∃ r, cancelDownload ui idx = some r ∧ (r.ui.apps[idx]?).map (·.state) = some .notInstalled := by
  obtain ⟨r,hr,happs⟩ := @refilter_apps ({ ui with downloads := releaseDownload ui.downloads idx }.modifyApp idx
    fun app => { app with state := .notInstalled, downloadPct := 0 }) (by rw [length_modifyApp]; exact h)
  refine ⟨r,hr,?_⟩
  rw [happs]
  simp [Ui.modifyApp,hidx]

/-! ## Updates -/

/-- A store with one entry that has an update, and no download under way. -/
def oneUpdate (sizeKb : Int32) : Ui :=
  { initUi with
    apps := [⟨⟨"Doom","http://repo.linuxab.local/doom.bin",sizeKb,.updateAvailable,0⟩,"","2.0","1.0",true⟩] }

end Linuxab.AppStore
