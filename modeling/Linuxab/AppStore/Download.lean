import Mathlib.Algebra.Group.Int.Defs
import Mathlib.Algebra.Group.Nat.Defs
import Mathlib.Data.List.FinRange
import Mathlib.Tactic.SplitIfs

/-!
The download of the application store: `alloc_download` and `start_download`.  The chunk loop
compares a 64-bit running total with the 32-bit product `size_kb*1024`, computed anew each time it
is read; the answers of `sys_open` and `net_get` are parameters.
-/

namespace Linuxab.AppStore

inductive AppState where
  | notInstalled | downloading | downloaded | installed | updateAvailable
  deriving DecidableEq, Repr

/-- The fields of `AppEntry` that a download reads or writes. -/
structure AppEntry where
  name : String
  url : String
  sizeKb : Int32
  state : AppState
  downloadPct : Int32

structure DownloadTask where
  active : Bool
  appIdx : Int32
  downloaded : Int64
  total : Int64
  pct : Int32
  name : String

/-- The globals of the store: the `g_app_count` loaded entries of `g_apps`, the download table and
the status line. -/
structure Store where
  apps : List AppEntry
  downloads : Fin 32 → DownloadTask
  statusMsg : String

/-- One answer of `net_get(url, buf, count)`: the value returned and the buffer afterwards. -/
structure Answer where
  got : Int64
  buf : ℕ → UInt8

/-- The network: what the `k`-th call of `net_get` answers to an address and a requested count. -/
abbrev NetGet := ℕ → String → Int64 → Answer

/-- Asked for a positive count, `net_get` never returns more. -/
def NetGet.Bounded (net : NetGet) : Prop := ∀ k url n, 0<n → (net k url n).got ≤ n

namespace AppEntry
variable (app : AppEntry)

/-- The expression `app.size_kb * 1024`: an `int`, so it wraps. -/
def sizeBytes : Int32 := app.sizeKb*1024

/-- The same expression where it meets a `long`. -/
def limit : Int64 := app.sizeBytes.toInt64

/-- The text in `dlpath`. -/
def dlpath : String := "/downloads/"++app.name++".bin"

end AppEntry

/-- The locals of the chunk loop, with the bytes it has passed to `sys_write` and the values
`net_get` has returned to it. -/
structure Transfer where
  total : Int64
  pct : Int32
  written : List UInt8
  gets : List Int64

/-- The transfer when the loop is entered. -/
def Transfer.start : Transfer := ⟨0,0,[],[]⟩

/-- The count the loop asks for: a chunk, or what is left of the file. -/
def toRead (app : AppEntry) (t : Transfer) : Int64 :=
  if app.limit-t.total<4096 then app.limit-t.total else 4096

/-- The first `got` bytes of the buffer, as `sys_write(fd, g_net_buf.ptr, got)` takes them. -/
def Answer.bytes (a : Answer) : List UInt8 := (List.range a.got.toInt.toNat).map a.buf

/-- One completed round of the loop, after an answer with `got > 0`. -/
def Transfer.receive (app : AppEntry) (t : Transfer) (a : Answer) : Transfer :=
  { total := t.total+a.got
    pct := ((t.total+a.got)*100/app.limit).toInt32
    written := t.written++a.bytes
    gets := t.gets++[a.got] }

/-- The chunk loop of `start_download`; `none` when it has not ended within the given rounds. -/
def chunkLoop (net : NetGet) (app : AppEntry) : ℕ → Transfer → Option Transfer
  | 0, _ => none
  | rounds+1, t =>
    if t.total<app.limit then
      let a := net t.gets.length app.url (toRead app t)
      if a.got ≤ 0 then some { t with gets := t.gets++[a.got] }
      else chunkLoop net app rounds (t.receive app a)
    else some t

namespace Store

/-- `alloc_download`: the first slot that is not active. -/
def allocDownload (s : Store) : Option (Fin 32) :=
  (List.finRange 32).find? fun i => !(s.downloads i).active

/-- `&g_apps[app_idx]`, for an index that passes the range check. -/
def app? (s : Store) (appIdx : Int32) : Option AppEntry :=
  if appIdx<0 then none else s.apps[appIdx.toInt.toNat]?

def modifyApp (s : Store) (appIdx : Int32) (f : AppEntry → AppEntry) : Store :=
  { s with apps := s.apps.modify appIdx.toInt.toNat f }

def modifyTask (s : Store) (didx : Fin 32) (f : DownloadTask → DownloadTask) : Store :=
  { s with downloads := fun i => if i=didx then f (s.downloads i) else s.downloads i }

/-- Copy a text to `g_status_msg`. -/
def status (s : Store) (msg : String) : Store := { s with statusMsg := msg }

/-- What `start_download` writes before it opens the file. -/
def begin (s : Store) (appIdx : Int32) (app : AppEntry) (didx : Fin 32) : Store :=
  ((s.modifyApp appIdx fun a => { a with state := .downloading, downloadPct := 0 }).modifyTask didx
    fun _ => ⟨true,appIdx,0,app.limit,0,app.name⟩).status ("Downloading "++app.name)

/-- The branch for `fd < 0`. -/
def openFailed (s : Store) (appIdx : Int32) (didx : Fin 32) : Store :=
  ((s.modifyApp appIdx fun a => { a with state := .notInstalled }).modifyTask didx
    fun d => { d with active := false }).status "Failed to create download file!"

/-- The progress the loop has written to the entry and to its slot, and the slot's release. -/
def progress (s : Store) (appIdx : Int32) (didx : Fin 32) (t : Transfer) : Store :=
  (s.modifyApp appIdx fun a => { a with downloadPct := t.pct }).modifyTask didx
    fun d => { d with downloaded := t.total, pct := t.pct, active := false }

/-- The verdict on the transfer. -/
def conclude (s : Store) (appIdx : Int32) (app : AppEntry) (t : Transfer) : Store :=
  if app.limit ≤ t.total then
    (s.modifyApp appIdx fun a => { a with state := .downloaded, downloadPct := 100 }).status
      ("Downloaded "++app.name)
  else
    (s.modifyApp appIdx fun a => { a with state := .notInstalled, downloadPct := 0 }).status
      ("Download failed: "++app.name)

end Store

/-- What a call leaves behind: the value returned, the globals, and the traffic of its loop. -/
structure Outcome where
  ret : Bool
  store : Store
  written : List UInt8
  gets : List Int64

/-- A call that returns `false`, without having entered its loop. -/
def Outcome.refused (s : Store) : Outcome := ⟨false,s,[],[]⟩

/-- A call whose loop has ended with the transfer `t`; the store is the one it began with. -/
def Outcome.finished (s : Store) (appIdx : Int32) (app : AppEntry) (didx : Fin 32) (t : Transfer) : Outcome :=
  ⟨true,(s.progress appIdx didx t).conclude appIdx app t,t.written,t.gets⟩

/-- `start_download`, its loop given the number of rounds it may take. -/
def startDownload (sysOpen : String → Int64) (net : NetGet) (rounds : ℕ) (s : Store) (appIdx : Int32) :
    Option Outcome :=
  match s.app? appIdx with
  | none => some (.refused s)
  | some app =>
    if app.state=.downloading then some (.refused s)
    else if app.state=.installed then some (.refused s)
    else match s.allocDownload with
      | none => some (.refused (s.status "Too many downloads!"))
      | some didx =>
        if sysOpen app.dlpath<0 then some (.refused ((s.begin appIdx app didx).openFailed appIdx didx))
        else (chunkLoop net app rounds .start).map (.finished (s.begin appIdx app didx) appIdx app didx)

/-! ## The loop -/

section Loop
variable {app : AppEntry} {net : NetGet} {t : Transfer}

theorem limit_toInt : app.limit.toInt=app.sizeBytes.toInt := by
  simp [AppEntry.limit]

theorem limit_lt : app.limit.toInt<2^31 := by
  rw [limit_toInt]
  exact app.sizeBytes.toInt_lt

/-- What holds of the transfer whenever the loop condition is evaluated: every byte counted has been
written, and the total never passes the product. -/
structure Transfer.Counted (app : AppEntry) (t : Transfer) : Prop where
  length : (t.written.length : ℤ)=t.total.toInt
  le_limit : t.total.toInt ≤ max app.limit.toInt 0

theorem counted_start : Transfer.Counted app .start where
  length := by simp [Transfer.start]
  le_limit := by simp [Transfer.start]

namespace Transfer.Counted

theorem nonneg (h : t.Counted app) : 0 ≤ t.total.toInt := by
  rw [← h.length]
  exact Int.natCast_nonneg _

/-- Inside the loop the request is positive and stays within what is left of the product: the
subtraction of the running total does not leave the range of a `long`. -/
theorem toRead_bounds (h : t.Counted app) (hlt : t.total<app.limit) :
    0<(toRead app t).toInt ∧ t.total.toInt+(toRead app t).toInt ≤ app.limit.toInt := by
  have hlt := Int64.lt_iff_toInt_lt.mp hlt
  have h0 := h.nonneg
  have hl : app.limit.toInt<2^31 := limit_lt
  have hsub : (app.limit-t.total).toInt=app.limit.toInt-t.total.toInt := by
    rw [Int64.toInt_sub]
    exact Int.bmod_eq_of_le (by omega) (by omega)
  unfold toRead
  split_ifs with hc
  · omega
  · rw [Int64.lt_iff_toInt_lt,hsub] at hc
    have h4096 : (4096 : Int64).toInt=4096 := rfl
    omega

/-- An answer within the request adds to the total without overflow. -/
theorem receive_total (h : t.Counted app) (hlt : t.total<app.limit) {a : Answer}
    (hpos : ¬ a.got ≤ 0) (hle : a.got ≤ toRead app t) :
    0<a.got.toInt ∧ (t.receive app a).total.toInt=t.total.toInt+a.got.toInt ∧
      t.total.toInt+a.got.toInt ≤ app.limit.toInt := by
  have hb := h.toRead_bounds hlt
  have h0 := h.nonneg
  have hl : app.limit.toInt<2^31 := limit_lt
  have hpos : ¬ a.got.toInt ≤ 0 := fun hn => hpos (Int64.le_iff_toInt_le.mpr hn)
  have hle := Int64.le_iff_toInt_le.mp hle
  refine ⟨by omega,?_,by omega⟩
  change (t.total+a.got).toInt=_
  rw [Int64.toInt_add]
  exact Int.bmod_eq_of_le (by omega) (by omega)

theorem receive (h : t.Counted app) (hlt : t.total<app.limit) {a : Answer}
    (hpos : ¬ a.got ≤ 0) (hle : a.got ≤ toRead app t) : (t.receive app a).Counted app := by
  obtain ⟨hgot,htotal,hlimit⟩ := h.receive_total hlt hpos hle
  constructor
  · rw [htotal,← h.length]
    simp only [Transfer.receive,Answer.bytes,List.length_append,List.length_map,List.length_range]
    omega
  · rw [htotal]
    omega

end Transfer.Counted

/-- The loop ends, since a round that does not break adds at least one byte.  It has written what it
has counted, and stops short of the product only on an answer of zero or less. -/
theorem chunkLoop_spec (hnet : net.Bounded) (rounds : ℕ) (t : Transfer) (h : t.Counted app)
    (h0 : 0<rounds) (hr : app.limit.toInt-t.total.toInt<rounds) :
    ∃ t', chunkLoop net app rounds t=some t' ∧ t'.Counted app ∧
      (t'.total<app.limit → ∃ k n, 0<n ∧ (net k app.url n).got ≤ 0) := by
  induction rounds generalizing t with
  | zero => omega
  | succ rounds ih =>
    rw [chunkLoop]
    by_cases hlt : t.total<app.limit
    · rw [if_pos hlt]
      have hpos : 0<toRead app t := Int64.lt_iff_toInt_lt.mpr (h.toRead_bounds hlt).1
      by_cases hgot : (net t.gets.length app.url (toRead app t)).got ≤ 0
      · simp only [if_pos hgot]
        exact ⟨_,rfl,⟨h.length,h.le_limit⟩,fun _ => ⟨_,_,hpos,hgot⟩⟩
      · simp only [if_neg hgot]
        have hle := hnet t.gets.length app.url _ hpos
        obtain ⟨hg,htotal,hlimit⟩ := h.receive_total hlt hgot hle
        apply ih _ (h.receive hlt hgot hle)
        · omega
        · rw [htotal]
          omega
    · rw [if_neg hlt]
      exact ⟨t,rfl,h,fun hlt' => absurd hlt' hlt⟩

/-- The rounds the loop needs, whatever the network does: the product is an `int`. -/
theorem chunkLoop_start (app : AppEntry) (hnet : net.Bounded) {rounds : ℕ} (hr : 2^31 ≤ rounds) :
    ∃ t, chunkLoop net app rounds .start=some t ∧ t.Counted app ∧
      (t.total<app.limit → ∃ k n, 0<n ∧ (net k app.url n).got ≤ 0) := by
  have hl : app.limit.toInt<2^31 := limit_lt
  apply chunkLoop_spec hnet rounds _ counted_start
  · omega
  · change app.limit.toInt-0<_
    omega

end Loop

/-! ## The file a download leaves -/

namespace Store
variable (s : Store) (appIdx : Int32) (didx : Fin 32)

@[simp] theorem app?_modifyApp (f : AppEntry → AppEntry) :
    (s.modifyApp appIdx f).app? appIdx=(s.app? appIdx).map f := by
  unfold app?
  split_ifs
  · rfl
  · simp [modifyApp]

@[simp] theorem app?_modifyTask (f : DownloadTask → DownloadTask) :
    (s.modifyTask didx f).app? appIdx=s.app? appIdx := rfl

@[simp] theorem app?_status (msg : String) : (s.status msg).app? appIdx=s.app? appIdx := rfl

end Store

/-- The entry's state when the call has returned. -/
def Outcome.stateOf (o : Outcome) (appIdx : Int32) : Option AppState :=
  (o.store.app? appIdx).map AppEntry.state

/-- An outcome is complete when a downloaded application has its whole file, and no application is
downloaded whose transfer `net_get` cut short. -/
structure Outcome.Complete (appIdx : Int32) (app : AppEntry) (o : Outcome) : Prop where
  whole : o.stateOf appIdx=some .downloaded → (o.written.length : ℤ)=1024*app.sizeKb.toInt
  interrupted : (∃ g ∈ o.gets, g ≤ 0) → (o.written.length : ℤ)<1024*app.sizeKb.toInt →
    o.stateOf appIdx≠some .downloaded

/-- The call returns, and what it leaves is complete. -/
def CompletesDownload (sysOpen : String → Int64) (net : NetGet) (s : Store) (appIdx : Int32)
    (app : AppEntry) : Prop :=
  ∀ rounds, 2^31 ≤ rounds → ∃ o, startDownload sysOpen net rounds s appIdx=some o ∧ o.Complete appIdx app

section File
variable {appIdx : Int32} {app : AppEntry}

/-- The second half of completeness is the contrapositive of the first. -/
theorem complete_iff {o : Outcome} : o.Complete appIdx app ↔
    (o.stateOf appIdx=some .downloaded → (o.written.length : ℤ)=1024*app.sizeKb.toInt) := by
  constructor
  · exact Outcome.Complete.whole
  · intro h
    refine ⟨h,fun _ hlt hd => ?_⟩
    have := h hd
    omega

/-- The product is the size of the file exactly while it fits an `int`. -/
theorem limit_eq (h0 : 0 ≤ app.sizeKb.toInt) (h : app.sizeKb.toInt<2^21) :
    app.limit.toInt=1024*app.sizeKb.toInt := by
  have h1024 : (1024 : Int32).toInt=1024 := rfl
  rw [limit_toInt,AppEntry.sizeBytes,Int32.toInt_mul,h1024,Int.mul_comm]
  exact Int.bmod_eq_of_le (by omega) (by omega)

/-- An entry that does not end up downloaded is complete whatever was written. -/
theorem complete_of_state {o : Outcome} (st : AppState) (h : o.stateOf appIdx=some st) (hst : st≠.downloaded) :
    o.Complete appIdx app := by
  rw [complete_iff,h]
  intro hd
  exact absurd (Option.some.inj hd) hst

/-- The state a finished transfer leaves is decided by the product. -/
theorem stateOf_finished {s : Store} {a : AppEntry} (hs : s.app? appIdx=some a) (didx : Fin 32) (t : Transfer) :
    (Outcome.finished s appIdx app didx t).stateOf appIdx=
      some (if app.limit ≤ t.total then .downloaded else .notInstalled) := by
  unfold Outcome.stateOf Outcome.finished Store.conclude
  split_ifs <;> simp [Store.progress,hs]

theorem finished_complete_iff {s : Store} {a : AppEntry} (hs : s.app? appIdx=some a) (didx : Fin 32) (t : Transfer) :
    (Outcome.finished s appIdx app didx t).Complete appIdx app ↔
      (app.limit ≤ t.total → (t.written.length : ℤ)=1024*app.sizeKb.toInt) := by
  rw [complete_iff,stateOf_finished hs]
  by_cases hdone : app.limit ≤ t.total <;> simp [hdone,Outcome.finished]

/-- The network that always delivers what is asked for. -/
def fullNet : NetGet := fun _ _ n => ⟨n,fun _ => 0⟩

theorem fullNet_bounded : fullNet.Bounded := fun _ _ n _ => Int64.le_refl n

/-- A transfer from the loop's start leaves a complete outcome over every network exactly when the
product has not wrapped: with all bytes delivered, as many are written as the product says. -/
theorem transfers_complete_iff (h0 : 0 ≤ app.sizeKb.toInt) :
    (∀ net : NetGet, net.Bounded → ∀ rounds, 2^31 ≤ rounds → ∃ t, chunkLoop net app rounds .start=some t ∧
      (app.limit ≤ t.total → (t.written.length : ℤ)=1024*app.sizeKb.toInt)) ↔ app.sizeKb.toInt<2^21 := by
  constructor
  · intro h
    obtain ⟨t,ht,hwhole⟩ := h fullNet fullNet_bounded (2^31) (Nat.le_refl _)
    obtain ⟨t',ht',hc,hshort⟩ := chunkLoop_start app fullNet_bounded (Nat.le_refl (2^31))
    obtain rfl : t=t' := Option.some.inj (ht.symm.trans ht')
    have hdone : app.limit ≤ t.total := by
      by_contra hn
      obtain ⟨k,n,hn,hgot⟩ := hshort (Int64.not_le.mp hn)
      exact Int64.not_le.mpr hn hgot
    have hl : app.limit.toInt<2^31 := limit_lt
    have := hwhole hdone
    have := hc.length
    have := hc.le_limit
    omega
  · intro h net hnet rounds hr
    obtain ⟨t,ht,hc,-⟩ := chunkLoop_start app hnet hr
    refine ⟨t,ht,fun hdone => ?_⟩
    have := limit_eq h0 h
    have := Int64.le_iff_toInt_le.mp hdone
    have := hc.length
    have := hc.le_limit
    omega

section Call
variable {sysOpen : String → Int64} {net : NetGet} {s : Store}

/-- A call that is refused completes a download when the entry it leaves does. -/
theorem completes_of_refused {s' : Store}
    (h : ∀ rounds, startDownload sysOpen net rounds s appIdx=some (.refused s')) :
    CompletesDownload sysOpen net s appIdx app ↔ (Outcome.refused s').Complete appIdx app := by
  constructor
  · intro hc
    obtain ⟨o,ho,hco⟩ := hc (2^31) (Nat.le_refl _)
    rw [h] at ho
    rwa [Option.some.inj ho]
  · intro hc rounds _
    exact ⟨_,h rounds,hc⟩

theorem completes_of_busy (happ : s.app? appIdx=some app) (hbusy : app.state=.downloading ∨ app.state=.installed) :
    CompletesDownload sysOpen net s appIdx app := by
  have h : ∀ rounds, startDownload sysOpen net rounds s appIdx=some (.refused s) := by
    intro rounds
    rcases hbusy with hst | hst <;> simp [startDownload,happ,hst]
  have hstate : (Outcome.refused s).stateOf appIdx=some app.state := by
    simp [Outcome.stateOf,Outcome.refused,happ]
  refine (completes_of_refused h).mpr (complete_of_state app.state hstate ?_)
  rcases hbusy with hst | hst <;> simp [hst]

/-- With all slots active the entry keeps its state and nothing is written. -/
theorem completes_of_full (happ : s.app? appIdx=some app) (hidle : ¬ (app.state=.downloading ∨ app.state=.installed))
    (hslot : s.allocDownload=none) :
    CompletesDownload sysOpen net s appIdx app ↔ (app.state=.downloaded → app.sizeKb.toInt=0) := by
  rw [not_or] at hidle
  have h : ∀ rounds, startDownload sysOpen net rounds s appIdx=
      some (.refused (s.status "Too many downloads!")) := by
    intro rounds
    simp [startDownload,happ,hidle,hslot]
  have hstate : (Outcome.refused (s.status "Too many downloads!")).stateOf appIdx=some app.state := by
    simp [Outcome.stateOf,Outcome.refused,happ]
  rw [completes_of_refused h,complete_iff,hstate,Option.some_inj]
  have hempty : ((Outcome.refused (s.status "Too many downloads!")).written.length : ℤ)=0 := rfl
  rw [hempty]
  exact imp_congr_right fun _ => by omega

theorem completes_of_openFailed {didx : Fin 32} (happ : s.app? appIdx=some app)
    (hidle : ¬ (app.state=.downloading ∨ app.state=.installed)) (hslot : s.allocDownload=some didx)
    (hopen : sysOpen app.dlpath<0) : CompletesDownload sysOpen net s appIdx app := by
  rw [not_or] at hidle
  have h : ∀ rounds, startDownload sysOpen net rounds s appIdx=
      some (.refused ((s.begin appIdx app didx).openFailed appIdx didx)) := by
    intro rounds
    simp [startDownload,happ,hidle,hslot,hopen]
  refine (completes_of_refused h).mpr (complete_of_state .notInstalled ?_ nofun)
  simp [Outcome.stateOf,Outcome.refused,Store.begin,Store.openFailed,happ]

/-- A call that gets to its loop completes a download when the transfer has the file's length each
time it has reached the product. -/
theorem completes_of_loop {didx : Fin 32} (happ : s.app? appIdx=some app)
    (hidle : ¬ (app.state=.downloading ∨ app.state=.installed)) (hslot : s.allocDownload=some didx)
    (hopen : ¬ sysOpen app.dlpath<0) :
    CompletesDownload sysOpen net s appIdx app ↔
      ∀ rounds, 2^31 ≤ rounds → ∃ t, chunkLoop net app rounds .start=some t ∧
        (app.limit ≤ t.total → (t.written.length : ℤ)=1024*app.sizeKb.toInt) := by
  rw [not_or] at hidle
  have hbegin : (s.begin appIdx app didx).app? appIdx=some { app with state := .downloading, downloadPct := 0 } := by
    simp [Store.begin,happ]
  refine forall_congr' fun rounds => forall_congr' fun _ => ?_
  have hcall : startDownload sysOpen net rounds s appIdx=
      (chunkLoop net app rounds .start).map (.finished (s.begin appIdx app didx) appIdx app didx) := by
    simp [startDownload,happ,hidle,hslot,hopen]
  simp only [hcall,Option.map_eq_some_iff,exists_exists_and_eq_and,finished_complete_iff hbegin]

end Call

/-- Downloads are complete files, for every bounded network, exactly when the call does not get to
its loop or the size in bytes fits an `int`.  A call that finds no free slot leaves the entry as it
was, so an entry downloaded earlier stays so although nothing is written. -/
theorem download_complete_iff (sysOpen : String → Int64) (s : Store) (appIdx : Int32) (app : AppEntry)
    (happ : s.app? appIdx=some app) (h0 : 0 ≤ app.sizeKb.toInt) :
    (∀ net : NetGet, net.Bounded → CompletesDownload sysOpen net s appIdx app) ↔
      (app.state=.downloading ∨ app.state=.installed) ∨
      (s.allocDownload=none ∧ (app.state=.downloaded → app.sizeKb.toInt=0)) ∨
      (s.allocDownload≠none ∧ (sysOpen app.dlpath<0 ∨ app.sizeKb.toInt<2^21)) := by
  by_cases hbusy : app.state=.downloading ∨ app.state=.installed
  · exact iff_of_true (fun _ _ => completes_of_busy happ hbusy) (.inl hbusy)
  cases hslot : s.allocDownload with
  | none =>
    have hfull : ∀ net : NetGet, CompletesDownload sysOpen net s appIdx app ↔
        (app.state=.downloaded → app.sizeKb.toInt=0) := fun _ => completes_of_full happ hbusy hslot
    simp only [hfull,hbusy,false_or,true_and,ne_eq,not_true,false_and,or_false]
    exact ⟨fun h => h fullNet fullNet_bounded,fun h _ _ => h⟩
  | some didx =>
    simp only [hbusy,false_or,reduceCtorEq,false_and,ne_eq,not_false_eq_true,true_and]
    by_cases hopen : sysOpen app.dlpath<0
    · exact iff_of_true (fun _ _ => completes_of_openFailed happ hbusy hslot hopen) (.inl hopen)
    · rw [or_iff_right hopen,← transfers_complete_iff h0]
      exact forall_congr' fun _ => forall_congr' fun _ => completes_of_loop happ hbusy hslot hopen

/-- A store with one application that is not installed and no download under way. -/
def oneApp (sizeKb : Int32) : Store where
  apps := [⟨"Doom","http://repo.linuxab.local/doom.bin",sizeKb,.notInstalled,0⟩]
  downloads := fun _ => ⟨false,0,0,0,0,""⟩
  statusMsg := ""

theorem download_complete_iff_small : ∃ app, (oneApp 300).app? 0=some app ∧ app.sizeKb.toInt=300 ∧
    ∀ net : NetGet, net.Bounded → CompletesDownload (fun _ => 3) net (oneApp 300) 0 app := by
  refine ⟨_,rfl,rfl,?_⟩
  rw [download_complete_iff (fun _ => 3) (oneApp 300) 0 _ rfl (by decide)]
  exact .inr (.inr ⟨by decide,.inr (by decide)⟩)

/-- A network that is down. -/
def deadNet : NetGet := fun _ _ _ => ⟨-1,fun _ => 0⟩

/-- A file of 2 GiB: the product is negative, the loop is over before its first round, and the
application is reported as downloaded although nothing was received. -/
theorem downloaded_without_bytes : deadNet.Bounded ∧ ∃ app, (oneApp 2097152).app? 0=some app ∧
    app.sizeKb.toInt=2097152 ∧ ∀ rounds, ∃ o,
      startDownload (fun _ => 3) deadNet (rounds+1) (oneApp 2097152) 0=some o ∧
        o.stateOf 0=some .downloaded ∧ o.written=[] ∧ ¬ o.Complete 0 app := by
  have hdead : deadNet.Bounded := fun _ _ _ h =>
    Int64.le_of_lt (Int64.lt_trans (show (-1 : Int64)<0 by decide) h)
  refine ⟨hdead,_,rfl,rfl,fun rounds => ⟨_,rfl,rfl,rfl,fun hc => ?_⟩⟩
  have hwhole := hc.whole rfl
  exact absurd hwhole (by decide)

end File

end Linuxab.AppStore
