import Linuxab.Base.Integers
import Mathlib.Data.List.FinRange
import Mathlib.Tactic.SplitIfs

/-!
The notification banners of `notifications.d`: sixteen slots that are pushed, dismissed, clicked and
moved one step by each `notif_update`.  The answer of `sys_time_ms` is an argument of the calls that
ask for it, and so is the copying of texts, which the repository does not contain.
-/

namespace Linuxab.Graphics
open Linuxab.Base

inductive NotifType where
  | info | success | warning | error | download
  deriving DecidableEq, Repr

structure Notification where
  active : Bool
  title : String
  message : String
  type : NotifType
  createdMs : Int64
  dismissMs : Int64
  x : Int32
  y : Int32
  targetY : Int32
  dismissed : Bool

/-- The array `g_notifs`. -/
abbrev Notifs := Fin 16 → Notification

/-- `SCREEN_W - NOTIF_WIDTH - NOTIF_MARGIN`. -/
def targetX : Int32 := 1024-340-16

/-- `NOTIF_MARGIN + stack * (NOTIF_HEIGHT + 8)`. -/
def stackY (stack : ℕ) : Int32 := 16+Int32.ofNat stack*(64+8)

namespace Notification
variable (n : Notification) (now : Int64)

/-- Active and not dismissed: the banners that are stacked. -/
def shown : Bool := n.active && !n.dismissed

def autoDismiss : Notification := if n.dismissMs < now ∧ n.dismissed = false then { n with dismissed := true } else n

def slideIn : Notification :=
  if targetX < n.x then
    if n.x-8 < targetX then { n with x := targetX } else { n with x := n.x-8 }
  else n

def slideOut : Notification :=
  if n.dismissed then
    if 1024 < n.x+12 then { n with x := n.x+12, active := false } else { n with x := n.x+12 }
  else n

def lower : Notification := if n.y < n.targetY then { n with y := n.y+4 } else n
def lift : Notification := if n.targetY < n.y then { n with y := n.y-4 } else n

/-- The body of the first loop of `notif_update`. -/
def animate : Notification := if n.active then (n.autoDismiss now).slideIn.slideOut.lower.lift else n

/-- The test of `notif_click`. -/
def hit (mx my : Int32) : Bool :=
  decide (targetX ≤ mx ∧ mx < targetX+340 ∧ n.y ≤ my ∧ my < n.y+64)

end Notification

/-! ## The calls -/

def notifInit (s : Notifs) : Notifs := fun i => { s i with active := false }

/-- The slot with the least `created_ms`, the first of them. -/
def oldest (s : Notifs) : Fin 16 :=
  (List.finRange 16).tail.foldl (fun slot i => if (s i).createdMs < (s slot).createdMs then i else slot) 0

/-- The slot that `notif_push` writes. -/
def pushSlot (s : Notifs) : Fin 16 :=
  match (List.finRange 16).find? fun i => !(s i).active with
  | some i => i
  | none => oldest s

/-- The number of other banners, as `notif_push` counts them. -/
def stackAround (s : Notifs) (slot : Fin 16) : ℕ := (List.finRange 16).countP fun i => i ≠ slot && (s i).shown

def notifPush (strCopy : String → ℕ → String) (now : Int64) (title msg : String) (type : NotifType)
    (s : Notifs) : Notifs :=
  Function.update s (pushSlot s)
    { active := true
      dismissed := false
      title := strCopy title 128
      message := strCopy msg 256
      type := type
      createdMs := now
      dismissMs := now+4000
      targetY := stackY (stackAround s (pushSlot s))
      x := 1024
      y := stackY (stackAround s (pushSlot s)) }

def notifDismiss (idx : Int32) (s : Notifs) : Notifs :=
  if 0 ≤ idx ∧ idx < 16 then fun i => if idx.toInt = i.val then { s i with dismissed := true } else s i
  else s

def notifDismissAll (s : Notifs) : Notifs := fun i => { s i with active := false }

def notifClick (mx my : Int32) (s : Notifs) : Bool × Notifs :=
  match (List.finRange 16).find? fun i => (s i).shown && (s i).hit mx my with
  | some i => (true,notifDismiss (Int32.ofNat i.val) s)
  | none => (false,s)

/-- A round of the second loop of `notif_update`: the table and `stack`. -/
def restackStep (t : Notifs × ℕ) (i : Fin 16) : Notifs × ℕ :=
  if (t.1 i).shown then (Function.update t.1 i { t.1 i with targetY := stackY t.2 },t.2+1) else t

def notifUpdate (now : Int64) (s : Notifs) : Notifs :=
  ((List.finRange 16).foldl restackStep (fun i => (s i).animate now,0)).1

inductive Call where
  | push (title msg : String) (type : NotifType)
  | dismiss (idx : Int32)
  | dismissAll
  | click (mx my : Int32)
  | update
  deriving DecidableEq, Repr

/-- One call at the time `now`. -/
def Call.run (strCopy : String → ℕ → String) (s : Notifs) (now : Int64) : Call → Notifs
  | push title msg type => notifPush strCopy now title msg type s
  | dismiss idx => notifDismiss idx s
  | dismissAll => notifDismissAll s
  | click mx my => (notifClick mx my s).2
  | update => notifUpdate now s

def runCalls (strCopy : String → ℕ → String) (s : Notifs) (calls : List (Int64 × Call)) : Notifs :=
  calls.foldl (fun s c => c.2.run strCopy s c.1) s

/-! ## The stack -/

section Restack
variable {l : List (Fin 16)} (t : Notifs × ℕ)

theorem restackStep_of_ne {i j : Fin 16} (h : j ≠ i) : (restackStep t i).1 j = t.1 j := by
  rw [restackStep]
  split_ifs
  · exact Function.update_of_ne h _ _
  · rfl

theorem restack_of_not_mem {j : Fin 16} (h : j ∉ l) : (l.foldl restackStep t).1 j = t.1 j := by
  induction l generalizing t with
  | nil => rfl
  | cons i l ih =>
    obtain ⟨hne,hl⟩ := not_or.mp (mt List.mem_cons.mpr h)
    rw [List.foldl_cons,ih _ hl,restackStep_of_ne t hne]

/-- Each slot of the loop keeps everything but its place, which it gets from the stack if it is shown. -/
theorem restack_slot (hl : l.Nodup) {j : Fin 16} (hj : j ∈ l) :
    ∃ k, t.2 ≤ k ∧ k < t.2+l.length ∧ (l.foldl restackStep t).1 j
      = if (t.1 j).shown then { t.1 j with targetY := stackY k } else t.1 j := by
  induction l generalizing t with
  | nil => cases hj
  | cons i l ih =>
    obtain ⟨hi,hl⟩ := List.nodup_cons.mp hl
    have hstack : t.2 ≤ (restackStep t i).2 ∧ (restackStep t i).2 ≤ t.2+1 := by
      rw [restackStep]
      split_ifs <;> simp
    rw [List.foldl_cons,List.length_cons]
    rcases List.mem_cons.mp hj with rfl | hmem
    · refine ⟨t.2,Nat.le_refl _,by omega,?_⟩
      rw [restack_of_not_mem _ hi,restackStep]
      split_ifs
      · exact Function.update_self _ _ _
      · rfl
    · obtain ⟨k,hle,hlt,heq⟩ := ih (restackStep t i) hl hmem
      have hne : j ≠ i := by
        rintro rfl
        exact hi hmem
      rw [restackStep_of_ne t hne] at heq
      exact ⟨k,by omega,by omega,heq⟩

/-- The places that the loop gives out follow each other without gaps. -/
theorem restack_targets (hl : l.Nodup) :
    (l.filter fun i => (t.1 i).shown).map (fun i => ((l.foldl restackStep t).1 i).targetY)
      = (List.range' t.2 (l.countP fun i => (t.1 i).shown)).map stackY := by
  induction l generalizing t with
  | nil => rfl
  | cons i l ih =>
    obtain ⟨hi,hl⟩ := List.nodup_cons.mp hl
    have hrest : ∀ j ∈ l, ((restackStep t i).1 j).shown = (t.1 j).shown := by
      intro j hj
      have hne : j ≠ i := by
        rintro rfl
        exact hi hj
      rw [restackStep_of_ne t hne]
    have htail := ih (restackStep t i) hl
    rw [List.filter_congr hrest,List.countP_congr fun j hj => by rw [hrest j hj]] at htail
    rw [List.foldl_cons]
    by_cases hs : (t.1 i).shown = true
    · have hhead : (l.foldl restackStep (restackStep t i)).1 i = { t.1 i with targetY := stackY t.2 } := by
        rw [restack_of_not_mem _ hi,restackStep,if_pos hs]
        exact Function.update_self _ _ _
      have hnext : (restackStep t i).2 = t.2+1 := by rw [restackStep,if_pos hs]
      rw [List.filter_cons_of_pos (by exact hs),List.countP_cons_of_pos (by exact hs),List.map_cons,htail,hnext,
        hhead,List.range'_succ,List.map_cons]
    · have hsame : restackStep t i = t := by rw [restackStep,if_neg hs]
      rw [hsame] at htail ⊢
      rw [List.filter_cons_of_neg (by exact hs),List.countP_cons_of_neg (by exact hs),htail]

end Restack

theorem notifUpdate_slot (now : Int64) (s : Notifs) (i : Fin 16) :
    ∃ k < 16, notifUpdate now s i = if ((s i).animate now).shown then { (s i).animate now with targetY := stackY k }
      else (s i).animate now := by
  obtain ⟨k,-,hlt,heq⟩ := restack_slot (fun i => (s i).animate now,0) (List.nodup_finRange 16) (List.mem_finRange i)
  exact ⟨k,by simpa using hlt,heq⟩

theorem notifUpdate_shown (now : Int64) (s : Notifs) (i : Fin 16) :
    (notifUpdate now s i).shown = ((s i).animate now).shown := by
  obtain ⟨k,-,heq⟩ := notifUpdate_slot now s i
  rw [heq]
  split_ifs <;> rfl

theorem toInt_stackY {k : ℕ} (hk : k < 16) : (stackY k).toInt = 16+72*k := by
  have hcount : (Int32.ofNat k).toInt = k := Int32.toInt_ofNat_of_lt (by omega)
  have hheight : (64+8 : Int32).toInt = 72 := by decide
  have hmargin : (16 : Int32).toInt = 16 := by decide
  have hmul : (Int32.ofNat k*(64+8)).toInt = k*72 := by
    rw [toInt_mul_of_le] <;> rw [hcount,hheight] <;> omega
  rw [stackY,toInt_add_of_le] <;> rw [hmul,hmargin] <;> omega

/-! ## One banner -/

/-- The places an active banner can be at. -/
structure Notification.Placed (n : Notification) : Prop where
  y_dvd : 4 ∣ n.y.toInt
  targetY_dvd : 4 ∣ n.targetY.toInt
  y_mem : 16 ≤ n.y.toInt ∧ n.y.toInt ≤ 1096
  targetY_mem : 16 ≤ n.targetY.toInt ∧ n.targetY.toInt ≤ 1096
  x_mem : 668 ≤ n.x.toInt ∧ n.x.toInt ≤ 1024

/-- From `y` to `y'` exactly four closer to `target`, or at rest there. -/
def Approaches (target y y' : ℤ) : Prop :=
  (y = target ∧ y' = target) ∨ (y' = y+4 ∧ y' ≤ target) ∨ (y' = y-4 ∧ target ≤ y')

namespace Notification
variable {n : Notification} {now : Int64}

@[simp] theorem toInt_targetX : targetX.toInt = 668 := by decide

section Stages
variable (n) (now)

@[simp] theorem autoDismiss_x : (n.autoDismiss now).x = n.x := by rw [autoDismiss]; split_ifs <;> rfl
@[simp] theorem autoDismiss_y : (n.autoDismiss now).y = n.y := by rw [autoDismiss]; split_ifs <;> rfl
@[simp] theorem autoDismiss_targetY : (n.autoDismiss now).targetY = n.targetY := by rw [autoDismiss]; split_ifs <;> rfl
@[simp] theorem slideIn_y : n.slideIn.y = n.y := by rw [slideIn]; split_ifs <;> rfl
@[simp] theorem slideIn_targetY : n.slideIn.targetY = n.targetY := by rw [slideIn]; split_ifs <;> rfl
@[simp] theorem slideIn_dismissed : n.slideIn.dismissed = n.dismissed := by rw [slideIn]; split_ifs <;> rfl
@[simp] theorem slideOut_y : n.slideOut.y = n.y := by rw [slideOut]; split_ifs <;> rfl
@[simp] theorem slideOut_targetY : n.slideOut.targetY = n.targetY := by rw [slideOut]; split_ifs <;> rfl
@[simp] theorem slideOut_dismissed : n.slideOut.dismissed = n.dismissed := by rw [slideOut]; split_ifs <;> rfl
@[simp] theorem lower_x : n.lower.x = n.x := by rw [lower]; split_ifs <;> rfl
@[simp] theorem lower_active : n.lower.active = n.active := by rw [lower]; split_ifs <;> rfl
@[simp] theorem lower_dismissed : n.lower.dismissed = n.dismissed := by rw [lower]; split_ifs <;> rfl
@[simp] theorem lower_targetY : n.lower.targetY = n.targetY := by rw [lower]; split_ifs <;> rfl
@[simp] theorem lift_x : n.lift.x = n.x := by rw [lift]; split_ifs <;> rfl
@[simp] theorem lift_active : n.lift.active = n.active := by rw [lift]; split_ifs <;> rfl
@[simp] theorem lift_dismissed : n.lift.dismissed = n.dismissed := by rw [lift]; split_ifs <;> rfl
@[simp] theorem lift_targetY : n.lift.targetY = n.targetY := by rw [lift]; split_ifs <;> rfl

theorem autoDismiss_dismissed (h : n.dismissed = true) : (n.autoDismiss now).dismissed = true := by
  rw [autoDismiss]
  split_ifs
  · rfl
  · exact h

end Stages

theorem toInt_slideIn_x (h : 668 ≤ n.x.toInt ∧ n.x.toInt ≤ 1024) : n.slideIn.x.toInt = max 668 (n.x.toInt-8) := by
  have height : (8 : Int32).toInt = 8 := by decide
  have hsub : (n.x-8).toInt = n.x.toInt-8 := by
    rw [toInt_sub_of_le] <;> rw [height] <;> omega
  rw [slideIn]
  split_ifs with hright hover <;> simp only [Int32.lt_iff_toInt_lt,toInt_targetX,hsub] at * <;> omega

/-- A dismissed banner is moved to the right, and closed when it has left the screen. -/
theorem slideOut_of_dismissed (hd : n.dismissed = true) (h : 668 ≤ n.x.toInt ∧ n.x.toInt ≤ 1024) :
    n.slideOut.x.toInt = n.x.toInt+12 ∧ (n.slideOut.active = true → n.x.toInt+12 ≤ 1024) := by
  have htwelve : (12 : Int32).toInt = 12 := by decide
  have hscreen : (1024 : Int32).toInt = 1024 := by decide
  have hadd : (n.x+12).toInt = n.x.toInt+12 := by
    rw [toInt_add_of_le] <;> rw [htwelve] <;> omega
  rw [slideOut,if_pos hd]
  split_ifs with hout
  · exact ⟨hadd,by simp⟩
  · rw [Int32.lt_iff_toInt_lt,hadd,hscreen] at hout
    exact ⟨hadd,fun _ => by omega⟩

theorem slideOut_of_not_dismissed (hd : n.dismissed = false) : n.slideOut = n := by rw [slideOut,hd]; rfl

/-- As both places are multiples of four, `lift` does not undo what `lower` did. -/
theorem approaches_lift_lower (hy : 4 ∣ n.y.toInt) (ht : 4 ∣ n.targetY.toInt)
    (hb : 16 ≤ n.y.toInt ∧ n.y.toInt ≤ 1096) :
    Approaches n.targetY.toInt n.y.toInt n.lower.lift.y.toInt := by
  have hfour : (4 : Int32).toInt = 4 := by decide
  have hadd : (n.y+4).toInt = n.y.toInt+4 := by
    rw [toInt_add_of_le] <;> rw [hfour] <;> omega
  have hsub : (n.y-4).toInt = n.y.toInt-4 := by
    rw [toInt_sub_of_le] <;> rw [hfour] <;> omega
  rw [Approaches]
  rcases lt_trichotomy n.y.toInt n.targetY.toInt with hlt | heq | hgt
  · have hlower : n.lower = { n with y := n.y+4 } := if_pos (Int32.lt_iff_toInt_lt.mpr hlt)
    have hlift : n.lower.lift = n.lower := by
      rw [lift,if_neg]
      rw [hlower,Int32.lt_iff_toInt_lt,hadd]
      change ¬n.targetY.toInt < n.y.toInt+4
      omega
    rw [hlift,hlower,hadd]
    omega
  · have hlower : n.lower = n := if_neg (by rw [Int32.lt_iff_toInt_lt]; omega)
    have hlift : n.lift = n := if_neg (by rw [Int32.lt_iff_toInt_lt]; omega)
    rw [hlower,hlift]
    exact Or.inl ⟨heq,heq⟩
  · have hlower : n.lower = n := if_neg (by rw [Int32.lt_iff_toInt_lt]; omega)
    have hlift : n.lift = { n with y := n.y-4 } := if_pos (Int32.lt_iff_toInt_lt.mpr hgt)
    rw [hlower,hlift,hsub]
    omega

section Animate
variable (hactive : n.active = true) (hn : n.Placed)
include hactive

theorem animate_eq (now : Int64) : n.animate now = (n.autoDismiss now).slideIn.slideOut.lower.lift := if_pos hactive

@[simp] theorem animate_targetY (now : Int64) : (n.animate now).targetY = n.targetY := by simp [animate_eq hactive]

theorem animate_dismissed (now : Int64) (hd : n.dismissed = true) : (n.animate now).dismissed = true := by
  simpa [animate_eq hactive] using autoDismiss_dismissed n now hd

include hn

theorem animate_approaches (now : Int64) : Approaches n.targetY.toInt n.y.toInt (n.animate now).y.toInt := by
  rw [animate_eq hactive]
  have h := approaches_lift_lower (n := (n.autoDismiss now).slideIn.slideOut) (by simpa using hn.y_dvd)
    (by simpa using hn.targetY_dvd) (by simpa using hn.y_mem)
  simpa using h

/-- The two rules for `x` together: a banner that stays goes to `targetX`, a dismissed one gains at
least four on its way out. -/
theorem animate_x (now : Int64) (hstays : (n.animate now).active = true) :
    668 ≤ (n.animate now).x.toInt ∧ (n.animate now).x.toInt ≤ 1024 ∧
      (n.dismissed = true → 680 ≤ (n.animate now).x.toInt ∧ n.x.toInt+4 ≤ (n.animate now).x.toInt) := by
  obtain ⟨hlow,hhigh⟩ := hn.x_mem
  rw [animate_eq hactive] at hstays ⊢
  simp only [lift_x,lower_x,lift_active,lower_active] at hstays ⊢
  have hin : ((n.autoDismiss now).slideIn).x.toInt = max 668 (n.x.toInt-8) := by
    simpa using toInt_slideIn_x (n := n.autoDismiss now) (by simpa using hn.x_mem)
  cases hd : ((n.autoDismiss now).slideIn).dismissed with
  | false =>
    have hnot : n.dismissed ≠ true := by
      intro h
      simp [autoDismiss_dismissed n now h] at hd
    rw [slideOut_of_not_dismissed hd,hin]
    exact ⟨by omega,by omega,fun h => absurd h hnot⟩
  | true =>
    obtain ⟨hx,hout⟩ := slideOut_of_dismissed hd (by omega)
    have hle := hout hstays
    rw [hx]
    rw [hin] at hle ⊢
    exact ⟨by omega,hle,fun _ => by omega⟩

theorem animate_placed (now : Int64) (hstays : (n.animate now).active = true) : (n.animate now).Placed := by
  obtain ⟨hlow,hhigh,-⟩ := animate_x hactive hn now hstays
  have hy := animate_approaches hactive hn now
  have htd := hn.targetY_dvd
  have htm := hn.targetY_mem
  have hyd := hn.y_dvd
  have hym := hn.y_mem
  rw [Approaches] at hy
  refine ⟨by omega,?_,by omega,?_,hlow,hhigh⟩
  · rw [animate_targetY hactive now]
    exact htd
  · rw [animate_targetY hactive now]
    exact htm

end Animate
end Notification

/-! ## Runs -/

section Runs
variable (strCopy : String → ℕ → String)

/-- What a call can do to one slot. -/
inductive SlotChange (now : Int64) (n : Notification) : Notification → Prop
  | kept : SlotChange now n n
  | dismissed : SlotChange now n { n with dismissed := true }
  | closed : SlotChange now n { n with active := false }
  | moved : SlotChange now n (n.animate now)
  | restacked (k : ℕ) (hk : k < 16) : SlotChange now n { n.animate now with targetY := stackY k }

theorem slotChange_dismiss (now : Int64) (idx : Int32) (s : Notifs) (i : Fin 16) :
    SlotChange now (s i) (notifDismiss idx s i) := by
  rw [notifDismiss]
  split_ifs
  · dsimp only
    split_ifs
    · exact .dismissed
    · exact .kept
  · exact .kept

theorem slotChange_click (now : Int64) (mx my : Int32) (s : Notifs) (i : Fin 16) :
    SlotChange now (s i) ((notifClick mx my s).2 i) := by
  rw [notifClick]
  split
  · exact slotChange_dismiss now _ s i
  · exact .kept

theorem slotChange_update (now : Int64) (s : Notifs) (i : Fin 16) : SlotChange now (s i) (notifUpdate now s i) := by
  obtain ⟨k,hk,heq⟩ := notifUpdate_slot now s i
  rw [heq]
  split_ifs
  · exact .restacked k hk
  · exact .moved

/-- A call that does not push a banner into the slot. -/
def Call.Spares (c : Call) (s : Notifs) (i : Fin 16) : Prop :=
  ∀ title msg type, c = .push title msg type → pushSlot s ≠ i

theorem slotChange_run {c : Call} {s : Notifs} {i : Fin 16} (h : c.Spares s i) (now : Int64) :
    SlotChange now (s i) (c.run strCopy s now i) := by
  cases c with
  | push title msg type =>
    rw [Call.run,notifPush,Function.update_of_ne (h title msg type rfl).symm]
    exact .kept
  | dismiss idx => exact slotChange_dismiss now idx s i
  | dismissAll => exact .closed
  | click mx my => exact slotChange_click now mx my s i
  | update => exact slotChange_update now s i

/-! ### Where the banners are -/

theorem Notification.Placed.retarget {n : Notification} (h : n.Placed) {k : ℕ} (hk : k < 16) :
    { n with targetY := stackY k }.Placed := by
  refine ⟨h.y_dvd,?_,h.y_mem,?_,h.x_mem⟩
  · rw [toInt_stackY hk]
    omega
  · rw [toInt_stackY hk]
    omega

theorem SlotChange.placed {now : Int64} {n n' : Notification} (h : SlotChange now n n')
    (hn : n.active = true → n.Placed) (hactive : n'.active = true) : n'.Placed := by
  have hanimate : (n.animate now).active = true → (n.animate now).Placed := by
    intro hstays
    cases ha : n.active with
    | false =>
      rw [Notification.animate,ha,if_neg Bool.false_ne_true,ha] at hstays
      cases hstays
    | true => exact n.animate_placed ha (hn ha) now hstays
  cases h with
  | kept => exact hn hactive
  | dismissed => exact ⟨(hn hactive).1,(hn hactive).2,(hn hactive).3,(hn hactive).4,(hn hactive).5⟩
  | closed => cases hactive
  | moved => exact hanimate hactive
  | restacked k hk => exact (hanimate hactive).retarget hk

theorem stackAround_lt (s : Notifs) (slot : Fin 16) : stackAround s slot < 16 := by
  have hle : stackAround s slot ≤ 16 := List.countP_le_length.trans_eq (List.length_finRange)
  refine Nat.lt_of_le_of_ne hle fun heq => ?_
  rw [stackAround] at heq
  have hall := List.countP_eq_length.mp (heq.trans List.length_finRange.symm) slot (List.mem_finRange slot)
  simp at hall

def AllPlaced (s : Notifs) : Prop := ∀ i, (s i).active = true → (s i).Placed

theorem AllPlaced.run {s : Notifs} (h : AllPlaced s) (now : Int64) (c : Call) : AllPlaced (c.run strCopy s now) := by
  intro i
  by_cases hspares : c.Spares s i
  · exact (slotChange_run strCopy hspares now).placed (h i)
  · intro _
    simp only [Call.Spares,not_forall,not_not] at hspares
    obtain ⟨title,msg,type,rfl,rfl⟩ := hspares
    rw [Call.run,notifPush,Function.update_self]
    have hy := toInt_stackY (stackAround_lt s (pushSlot s))
    have hlt := stackAround_lt s (pushSlot s)
    have hscreen : (1024 : Int32).toInt = 1024 := by decide
    constructor <;> simp only [hy,hscreen] <;> omega

theorem AllPlaced.runCalls {s : Notifs} (h : AllPlaced s) (calls : List (Int64 × Call)) :
    AllPlaced (runCalls strCopy s calls) := by
  induction calls generalizing s with
  | nil => exact h
  | cons c calls ih => exact ih (h.run strCopy c.1 c.2)

theorem allPlaced_init (s : Notifs) : AllPlaced (notifInit s) := by
  intro i h
  cases h

/-! ### The way out -/

/-- A dismissed banner after `k` updates: it is gone, or has moved on by four in each of them. -/
def Leaving (k : ℕ) (n : Notification) : Prop :=
  n.active = true → n.dismissed = true ∧ n.Placed ∧ (0 < k → 676+4*(k : ℤ) ≤ n.x.toInt)

theorem Leaving.animate {k : ℕ} {n : Notification} (h : Leaving k n) (now : Int64) : Leaving (k+1) (n.animate now) := by
  intro hstays
  cases ha : n.active with
  | false =>
    rw [Notification.animate,ha,if_neg Bool.false_ne_true,ha] at hstays
    cases hstays
  | true =>
    obtain ⟨hd,hplaced,hx⟩ := h ha
    obtain ⟨-,-,hout⟩ := n.animate_x ha hplaced now hstays
    refine ⟨n.animate_dismissed ha now hd,n.animate_placed ha hplaced now hstays,fun _ => ?_⟩
    have hmoved := hout hd
    rcases Nat.eq_zero_or_pos k with rfl | hk
    · push_cast
      omega
    · have hbefore := hx hk
      push_cast
      omega

theorem Leaving.of_succ {k : ℕ} {n : Notification} (h : Leaving (k+1) n) : Leaving k n := by
  intro ha
  obtain ⟨hd,hplaced,hx⟩ := h ha
  refine ⟨hd,hplaced,fun _ => ?_⟩
  have hahead := hx (Nat.succ_pos k)
  push_cast at hahead
  omega

theorem Leaving.retarget {k : ℕ} {n : Notification} (h : Leaving k n) {j : ℕ} (hj : j < 16) :
    Leaving k { n with targetY := stackY j } := by
  intro ha
  obtain ⟨hd,hplaced,hx⟩ := h ha
  exact ⟨hd,hplaced.retarget hj,hx⟩

theorem Leaving.change {k : ℕ} {now : Int64} {n n' : Notification} (h : Leaving k n) (hc : SlotChange now n n') :
    Leaving k n' := by
  cases hc with
  | kept => exact h
  | dismissed =>
    intro ha
    obtain ⟨-,hplaced,hx⟩ := h ha
    exact ⟨rfl,⟨hplaced.1,hplaced.2,hplaced.3,hplaced.4,hplaced.5⟩,hx⟩
  | closed =>
    intro ha
    cases ha
  | moved => exact (h.animate now).of_succ
  | restacked j hj => exact ((h.animate now).retarget hj).of_succ

theorem Leaving.update {k : ℕ} {s : Notifs} {i : Fin 16} (h : Leaving k (s i)) (now : Int64) :
    Leaving (k+1) (notifUpdate now s i) := by
  obtain ⟨j,hj,heq⟩ := notifUpdate_slot now s i
  rw [heq]
  split_ifs
  · exact (h.animate now).retarget hj
  · exact h.animate now

/-- No call of the run pushes a banner into the slot. -/
def Spared (i : Fin 16) : Notifs → List (Int64 × Call) → Prop
  | _, [] => True
  | s, c::calls => c.2.Spares s i ∧ Spared i (c.2.run strCopy s c.1) calls

def updates (calls : List (Int64 × Call)) : ℕ := calls.countP fun c => c.2 = .update

theorem Leaving.runCalls {k : ℕ} {s : Notifs} {i : Fin 16} {calls : List (Int64 × Call)} (h : Leaving k (s i))
    (hspared : Spared strCopy i s calls) : Leaving (k+updates calls) (runCalls strCopy s calls i) := by
  induction calls generalizing k s with
  | nil => exact h
  | cons c calls ih =>
    obtain ⟨hc,hspared⟩ := hspared
    rw [updates,List.countP_cons,← updates]
    by_cases hu : c.2 = .update
    · have hnext : Leaving (k+1) (c.2.run strCopy s c.1 i) := by
        rw [hu]
        exact h.update c.1
      have hrest := ih hnext hspared
      rw [if_pos (by simpa using hu),Nat.add_comm (updates calls),← Nat.add_assoc]
      exact hrest
    · have hrest := ih (h.change (slotChange_run strCopy hc c.1)) hspared
      rw [if_neg (by simpa using hu)]
      exact hrest

/-- Dismissed banners reach the edge of the screen within 88 updates. -/
theorem Leaving.inactive {k : ℕ} {n : Notification} (h : Leaving k n) (hk : 88 ≤ k) : n.active = false := by
  cases ha : n.active with
  | false => rfl
  | true =>
    obtain ⟨-,hplaced,hx⟩ := h ha
    have hright := hplaced.x_mem
    have hleft := hx (by omega)
    omega

/-- What is seen of the banners from a state on. -/
structure Settles (s : Notifs) : Prop where
  aligned : ∀ i, (s i).active = true → 4 ∣ (s i).y.toInt ∧ 4 ∣ (s i).targetY.toInt
  stacked : ∀ now, ∃ m, ((List.finRange 16).filter fun i => (notifUpdate now s i).shown).map
    (fun i => (notifUpdate now s i).targetY.toInt) = (List.range m).map fun k : ℕ => 16+72*(k : ℤ)
  approaches : ∀ now i, (s i).active = true →
    Approaches (s i).targetY.toInt (s i).y.toInt (notifUpdate now s i).y.toInt
  leaves : ∀ i calls, (s i).active = true → (s i).dismissed = true → Spared strCopy i s calls →
    90 ≤ updates calls → (runCalls strCopy s calls i).active = false

theorem notifUpdate_targets (now : Int64) (s : Notifs) :
    ∃ m, ((List.finRange 16).filter fun i => (notifUpdate now s i).shown).map
      (fun i => (notifUpdate now s i).targetY.toInt) = (List.range m).map fun k : ℕ => 16+72*(k : ℤ) := by
  have hcount := List.countP_le_length (p := fun i => ((s i).animate now).shown) (l := List.finRange 16)
  rw [List.length_finRange] at hcount
  have hplaces : ((List.finRange 16).filter fun i => ((s i).animate now).shown).map
      (fun i => (notifUpdate now s i).targetY)
        = (List.range ((List.finRange 16).countP fun i => ((s i).animate now).shown)).map stackY := by
    rw [List.range_eq_range']
    exact restack_targets (fun i => (s i).animate now,0) (List.nodup_finRange 16)
  have htargets := congrArg (List.map Int32.toInt) hplaces
  rw [List.map_map,List.map_map] at htargets
  simp only [notifUpdate_shown]
  refine ⟨(List.finRange 16).countP fun i => ((s i).animate now).shown,htargets.trans ?_⟩
  apply List.map_congr_left
  intro k hk
  have hlt := List.mem_range.mp hk
  exact toInt_stackY (by omega)

theorem AllPlaced.settles {s : Notifs} (h : AllPlaced s) : Settles strCopy s where
  aligned i ha := ⟨(h i ha).y_dvd,(h i ha).targetY_dvd⟩
  stacked now := notifUpdate_targets now s
  approaches now i ha := by
    obtain ⟨k,-,heq⟩ := notifUpdate_slot now s i
    have hy : (notifUpdate now s i).y = ((s i).animate now).y := by
      rw [heq]
      split_ifs <;> rfl
    rw [hy]
    exact (s i).animate_approaches ha (h i ha) now
  leaves i calls ha hd hspared hcalls := by
    have hstart : Leaving 0 (s i) := fun _ => ⟨hd,h i ha,fun h => absurd h (Nat.lt_irrefl 0)⟩
    exact (hstart.runCalls strCopy hspared).inactive (by omega)

/-- After any calls the banners settle, whatever the array held before `notif_init` and whatever the
times are. -/
theorem notifications_settle (s : Notifs) (calls : List (Int64 × Call)) :
    Settles strCopy (runCalls strCopy (notifInit s) calls) :=
  ((allPlaced_init s).runCalls strCopy calls).settles strCopy

end Runs
end Linuxab.Graphics
