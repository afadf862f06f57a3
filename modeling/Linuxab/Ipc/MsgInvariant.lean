import Mathlib
import Linuxab.Base.KeyedQueue
import Linuxab.Ipc.MsgLoops

/-! What holds of a message queue of msg.c and the tasks at it whenever the lock is free, and that every part of
msgsnd, msgrcv and msgctl that runs under the lock keeps it. -/
namespace Linuxab.Ipc
open Linuxab.Base
variable {τ μ : Type}

/-- The messages that a run took, those that left the queue, those that a task was handed and those that msgrcv
returned to it, each in their order. -/
def accepted (es : List (Event τ μ)) : List (Msg μ) :=
  es.filterMap fun | .accept m => some m | _ => none

def leaving (es : List (Event τ μ)) : List (Msg μ) :=
  es.filterMap fun | .hand _ m => some m | .drop m => some m | _ => none

section Projections
variable [DecidableEq τ] (t : τ)

def handedTo (es : List (Event τ μ)) : List (Msg μ) :=
  es.filterMap fun | .hand u m => if u = t then some m else none | _ => none

def gotBy (es : List (Event τ μ)) : List (Msg μ) :=
  es.filterMap fun | .ret u (.got m _) => if u = t then some m else none | _ => none

end Projections

/-- The message that waits in `r_msg` of a task. -/
def pending (s : MsgSystem τ μ) (t : τ) : List (Msg μ) :=
  match s.task t,s.rMsg t with
  | .rcv _ _,.ok m => [m]
  | _,_ => []

/-- The answer of the security module depends on the type of a message only. -/
def Alike (deny : τ → Msg μ → Bool) : Prop := ∀ t x y, x.mType = y.mType → deny t x = deny t y

section Invariant
variable (deny : τ → Msg μ → Bool)

/-- The counters and lists of a queue that is not deleted. -/
structure MsgSystem.Live (s : MsgSystem τ μ) : Prop where
  qnum : s.queue.qQnum = s.queue.qMessages.length
  cbytes : s.queue.qCbytes = (s.queue.qMessages.map Msg.mTs).sum
  receivers : (s.queue.qReceivers.map Receiver.rTsk).Nodup
  receiver : ∀ r ∈ s.queue.qReceivers, ∃ w a, s.task r.rTsk = .rcv w a ∧ r = a.receiver r.rTsk ∧
    isEagain (s.rMsg r.rTsk) = true
  listed : ∀ t w a, s.task t = .rcv w a → isEagain (s.rMsg t) = true → t ∈ s.queue.qReceivers.map Receiver.rTsk
  senders : (s.queue.qSenders.map Sender.tsk).Nodup
  sender : ∀ x ∈ s.queue.qSenders, ∃ m, s.task x.tsk = .snd m ∧ x.msgsz = m.mTs
  queued : ∀ t m, s.task t = .snd m → t ∈ s.queue.qSenders.map Sender.tsk
  unsuited : ∀ r ∈ s.queue.qReceivers, ∀ m ∈ s.queue.qMessages, suits deny m r.rTsk r.rMsgtype r.rMode = false

structure MsgSystem.Sound (s : MsgSystem τ μ) : Prop where
  args : ∀ t a, (s.task t = .again a ∨ ∃ w, s.task t = .rcv w a) → a.mode ≠ .number ∧ a.flags.copy = false
  answered : ∀ t w a, s.task t = .rcv w a → isEagain (s.rMsg t) = false → s.woken t = true
  empty : s.queue.deleted = true → s.queue.qMessages = []
  goneRcv : s.queue.deleted = true → ∀ t w a, s.task t = .rcv w a → isEagain (s.rMsg t) = false
  goneSnd : s.queue.deleted = true → ∀ t m, s.task t = .snd m → s.woken t = true
  live : s.queue.deleted = false → s.Live deny
  types : ∀ m ∈ s.queue.qMessages, 1 ≤ m.mType
  sndTypes : ∀ t m, s.task t = .snd m → 1 ≤ m.mType

/-- What holds whenever the lock is free: also no sender that was not woken has a message that fits. -/
structure MsgSystem.Inv (s : MsgSystem τ μ) : Prop extends s.Sound deny where
  full : s.queue.deleted = false → ∀ x ∈ s.queue.qSenders, s.woken x.tsk = false →
    msgFitsInqueue s.queue x.msgsz = false

end Invariant

/-- Less fits into a queue that holds more. -/
theorem msgFitsInqueue_mono (q q' : MsgQueue τ μ) (hbytes : q.qCbytes ≤ q'.qCbytes) (hnum : q.qQnum ≤ q'.qQnum)
    (hmax : q'.qQbytes = q.qQbytes) {n : ℕ} (h : msgFitsInqueue q n = false) : msgFitsInqueue q' n = false := by
  simp only [msgFitsInqueue,Bool.and_eq_false_iff,decide_eq_false_iff_not,hmax] at h ⊢
  omega

section Fields
variable {deny : τ → Msg μ → Bool} {s : MsgSystem τ μ} {t : τ}

theorem MsgSystem.Inv.enqueue (h : s.Inv deny) (hdel : s.queue.deleted = false) {m : Msg μ} (hpos : 1 ≤ m.mType)
    (hm : ∀ r ∈ s.queue.qReceivers, suits deny m r.rTsk r.rMsgtype r.rMode = false) : (enqueue m s).Inv deny := by
  have hlive := h.live hdel
  refine ⟨⟨h.args,h.answered,fun hd => absurd (hdel.symm.trans hd) nofun,h.goneRcv,h.goneSnd,fun _ => ?_,
    fun x hx => ?_,h.sndTypes⟩,fun _ x hx hw => ?_⟩
  · refine ⟨?_,?_,hlive.receivers,hlive.receiver,hlive.listed,hlive.senders,hlive.sender,hlive.queued,
      fun r hr x hx => ?_⟩
    · change s.queue.qQnum + 1 = (s.queue.qMessages ++ [m]).length
      rw [hlive.qnum,List.length_append,List.length_singleton]
    · change s.queue.qCbytes + m.mTs = ((s.queue.qMessages ++ [m]).map Msg.mTs).sum
      rw [hlive.cbytes,List.map_append,List.sum_append,List.map_singleton,List.sum_singleton]
    · rcases List.mem_append.mp hx with hx | hx
      · exact hlive.unsuited r hr x hx
      · rw [List.mem_singleton.mp hx]
        exact hm r hr
  · rcases List.mem_append.mp hx with hx | hx
    · exact h.types x hx
    · rwa [List.mem_singleton.mp hx]
  · exact msgFitsInqueue_mono s.queue (Ipc.enqueue m s).queue (Nat.le_add_right ..) (Nat.le_add_right ..) rfl
      (h.full hdel x hx hw)

theorem MsgSystem.Inv.dequeue (h : s.Inv deny) (hdel : s.queue.deleted = false) {pre post : List (Msg μ)} {m : Msg μ}
    (hsplit : s.queue.qMessages = pre ++ m::post) :
    (dequeue pre.length m s).queue.qMessages = pre ++ post ∧ (dequeue pre.length m s).Sound deny := by
  have hlive := h.live hdel
  have hmessages : (Ipc.dequeue pre.length m s).queue.qMessages = pre ++ post := by
    change s.queue.qMessages.eraseIdx pre.length = pre ++ post
    rw [hsplit,List.eraseIdx_append_of_length_le (Nat.le_refl _),Nat.sub_self,List.eraseIdx_cons_zero]
  have hsub : ∀ x ∈ (Ipc.dequeue pre.length m s).queue.qMessages, x ∈ s.queue.qMessages := fun x hx =>
    (List.eraseIdx_sublist ..).subset hx
  refine ⟨hmessages,h.args,h.answered,fun hd => absurd (hdel.symm.trans hd) nofun,h.goneRcv,h.goneSnd,fun _ => ?_,
    fun x hx => h.types x (hsub x hx),h.sndTypes⟩
  refine ⟨?_,?_,hlive.receivers,hlive.receiver,hlive.listed,hlive.senders,hlive.sender,hlive.queued,
    fun r hr x hx => ?_⟩
  · rw [hmessages]
    change s.queue.qQnum - 1 = _
    rw [hlive.qnum,hsplit]
    simp
  · rw [hmessages]
    change s.queue.qCbytes - m.mTs = _
    rw [hlive.cbytes,hsplit]
    simp
    omega
  · exact hlive.unsuited r hr x (hsub x hx)

/-- A change of tasks that are not asleep, or awake without the lock. -/
theorem MsgSystem.Inv.retask (h : s.Inv deny) {f : τ → Task μ}
    (hrcv : ∀ u w a, f u = .rcv w a → ∃ v, s.task u = .rcv v a)
    (hrcv' : ∀ u w a, s.task u = .rcv w a → ∃ v, f u = .rcv v a) (hsnd : ∀ u m, f u = .snd m ↔ s.task u = .snd m)
    (hagain : ∀ u a, f u = .again a → a.mode ≠ .number ∧ a.flags.copy = false) :
    ({ s with task := f } : MsgSystem τ μ).Inv deny := by
  refine ⟨⟨fun u b hu => ?_,fun u v b hu he => ?_,h.empty,fun hd u v b hu => ?_,
    fun hd u m hu => h.goneSnd hd u m ((hsnd u m).mp hu),fun hdel => ?_,h.types,
    fun u m hu => h.sndTypes u m ((hsnd u m).mp hu)⟩,h.full⟩
  · obtain hu | ⟨v,hu⟩ := hu
    · exact hagain u b hu
    · exact h.args u b (.inr (hrcv u v b hu))
  · obtain ⟨v',hu⟩ := hrcv u v b hu
    exact h.answered u v' b hu he
  · obtain ⟨v',hu⟩ := hrcv u v b hu
    exact h.goneRcv hd u v' b hu
  · have hlive := h.live hdel
    refine ⟨hlive.qnum,hlive.cbytes,hlive.receivers,fun r hr => ?_,fun u v b hu he => ?_,hlive.senders,fun x hx => ?_,
      fun u m hu => hlive.queued u m ((hsnd u m).mp hu),hlive.unsuited⟩
    · obtain ⟨v,b,hb,hrb,he⟩ := hlive.receiver r hr
      obtain ⟨v',hb⟩ := hrcv' _ v b hb
      exact ⟨v',b,hb,hrb,he⟩
    · obtain ⟨v',hu⟩ := hrcv u v b hu
      exact hlive.listed u v' b hu he
    · obtain ⟨m,hm,hsz⟩ := hlive.sender x hx
      exact ⟨m,(hsnd _ m).mpr hm,hsz⟩

theorem MsgSystem.Live.not_sender (h : s.Live deny) (ht : ∀ m, s.task t ≠ .snd m) :
    t ∉ s.queue.qSenders.map Sender.tsk := by
  intro hin
  obtain ⟨x,hx,rfl⟩ := List.mem_map.mp hin
  obtain ⟨m,hm,-⟩ := h.sender x hx
  exact ht m hm

theorem MsgSystem.Live.not_receiver (h : s.Live deny)
    (ht : ∀ w a, s.task t = .rcv w a → isEagain (s.rMsg t) = false) : t ∉ s.queue.qReceivers.map Receiver.rTsk := by
  intro hin
  obtain ⟨r,hr,rfl⟩ := List.mem_map.mp hin
  obtain ⟨w,a,ha,-,he⟩ := h.receiver r hr
  exact absurd ((ht w a ha).symm.trans he) nofun

/-- A queue as `newque` makes it, that no task has come to. -/
structure MsgSystem.Fresh (s : MsgSystem τ μ) : Prop where
  qnum : s.queue.qQnum = 0
  cbytes : s.queue.qCbytes = 0
  messages : s.queue.qMessages = []
  receivers : s.queue.qReceivers = []
  senders : s.queue.qSenders = []
  deleted : s.queue.deleted = false
  task : ∀ t, s.task t = .idle

theorem MsgSystem.Fresh.inv (h : s.Fresh) : s.Inv deny := by
  have hidle : ∀ {u} {k : Task μ}, k ≠ .idle → s.task u ≠ k := fun hk hu => hk (hu.symm.trans (h.task _))
  refine ⟨⟨fun u a hu => ?_,fun u w a hu => absurd hu (hidle nofun),fun _ => h.messages,
    fun _ u w a hu => absurd hu (hidle nofun),fun _ u m hu => absurd hu (hidle nofun),fun _ => ?_,
    by rw [h.messages]; exact fun m hm => absurd hm List.not_mem_nil,fun u m hu => absurd hu (hidle nofun)⟩,
    fun _ x hx => ?_⟩
  · obtain hu | ⟨w,hu⟩ := hu
    · exact absurd hu (hidle nofun)
    · exact absurd hu (hidle nofun)
  · refine ⟨by rw [h.qnum,h.messages]; rfl,by rw [h.cbytes,h.messages]; rfl,by rw [h.receivers]; exact List.nodup_nil,
      ?_,fun u w a hu => absurd hu (hidle nofun),by rw [h.senders]; exact List.nodup_nil,?_,
      fun u m hu => absurd hu (hidle nofun),?_⟩
    · rw [h.receivers]
      exact fun r hr => absurd hr List.not_mem_nil
    · rw [h.senders]
      exact fun x hx => absurd hx List.not_mem_nil
    · rw [h.receivers]
      exact fun r hr => absurd hr List.not_mem_nil
  · rw [h.senders] at hx
    exact absurd hx List.not_mem_nil

end Fields

section Steps
variable [DecidableEq τ] {deny : τ → Msg μ → Bool} {s : MsgSystem τ μ} {t : τ}

/-- A step: the invariant, the move of the queue, and what becomes of every message that was handed to a task. -/
structure Stepped (deny : τ → Msg μ → Bool) (s c : MsgSystem τ μ) (ev : List (Event τ μ)) : Prop where
  inv : c.Inv deny
  move : QueueMove Msg.mType (Alike deny) s.queue.qMessages (accepted ev) (leaving ev) c.queue.qMessages
  pend : ∀ u, pending s u ++ handedTo u ev = gotBy u ev ++ pending c u

theorem finish_self (s : MsgSystem τ μ) (t : τ) : (s.finish t).task t = .idle := Function.update_self ..

theorem finish_of_ne {u : τ} (h : u ≠ t) : (s.finish t).task u = s.task u := Function.update_of_ne h _ _

/-- A task that is not idle has not just finished. -/
theorem finish_eq {u : τ} {k : Task μ} (hu : (s.finish t).task u = k) (hk : k ≠ .idle) : u ≠ t ∧ s.task u = k := by
  have hut : u ≠ t := by
    rintro rfl
    exact hk ((finish_self s u).symm.trans hu).symm
  exact ⟨hut,(finish_of_ne hut).symm.trans hu⟩

theorem finish_eq_self (h : s.task t = .idle) : s.finish t = s := by
  rw [MsgSystem.finish,← h,Function.update_eq_self]

theorem pending_finish (s : MsgSystem τ μ) (t : τ) : pending (s.finish t) t = [] := by
  rw [pending,finish_self]

theorem pending_finish_of_ne {u : τ} (h : u ≠ t) : pending (s.finish t) u = pending s u := by
  rw [pending,finish_of_ne h]
  rfl

/-- A call that returns without a message. -/
theorem stepped_err (h : (s.finish t).Inv deny) (e : Errno) :
    Stepped deny (s.finish t) (s.finish t) [.ret t (.err e)] :=
  ⟨h,.stay _,fun u => by simp [handedTo,gotBy]⟩

/-- A step that begins with the task leaving its place. -/
theorem Stepped.of_finish {s' c : MsgSystem τ μ} {ev : List (Event τ μ)} (h : Stepped deny (s'.finish t) c ev)
    (hmessages : s'.queue.qMessages = s.queue.qMessages) (htask : s'.task = s.task) (hmsg : s'.rMsg = s.rMsg)
    (hpending : pending s t = []) : Stepped deny s c ev := by
  refine ⟨h.inv,hmessages ▸ h.move,fun u => ?_⟩
  have hu : pending s u = pending (s'.finish t) u := by
    by_cases hut : u = t
    · rw [hut,hpending,pending_finish]
    · rw [pending_finish_of_ne hut,pending,pending,htask,hmsg]
  rw [hu]
  exact h.pend u

section Send

/-- The receivers after `pipelined_send`. -/
theorem MsgSystem.Inv.piped {m : Msg μ} {rs : List (Receiver τ)} {r : Option τ} {c : MsgSystem τ μ}
    (h : (s.finish t).Inv deny) (hdel : s.queue.deleted = false)
    (hp : PipedAll deny m s.queue.qReceivers rs r s c) : ((c.setReceivers rs).finish t).Inv deny := by
  have hlive := h.live hdel
  have htask : ((c.setReceivers rs).finish t).task = (s.finish t).task := by
    change Function.update c.task t .idle = Function.update s.task t .idle
    rw [hp.task]
  have hqueue : ((c.setReceivers rs).finish t).queue = { s.queue with qReceivers := rs } := by
    change { c.queue with qReceivers := rs } = _
    rw [hp.queue]
  refine ⟨⟨?_,fun u w a hu he => ?_,?_,?_,?_,fun _ => ?_,by rw [hqueue]; exact h.types,by rw [htask]; exact h.sndTypes⟩,
    fun _ x hx hw => ?_⟩
  · rw [htask]
    exact h.args
  · rw [htask] at hu
    cases hp.each u with
    | same hr hmsg hwoken hlisted => exact hwoken.trans (h.answered u w a hu (hmsg ▸ he))
    | tooBig hr hmsg hwoken hlisted hgone => exact hwoken
    | handed hr hmsg hwoken hlisted hgone => exact hwoken
  · rw [hqueue]
    exact fun hd => absurd (hdel.symm.trans hd) nofun
  · rw [hqueue]
    exact fun hd => absurd (hdel.symm.trans hd) nofun
  · rw [hqueue]
    exact fun hd => absurd (hdel.symm.trans hd) nofun
  · refine ⟨?_,?_,?_,fun x hx => ?_,fun u w a hu he => ?_,?_,?_,?_,?_⟩
    · rw [hqueue]
      exact hlive.qnum
    · rw [hqueue]
      exact hlive.cbytes
    · rw [hqueue]
      exact hlive.receivers.sublist (hp.sublist.map Receiver.rTsk)
    · rw [hqueue] at hx
      obtain ⟨w,a,ha,hxa,he⟩ := hlive.receiver x (hp.sublist.subset hx)
      refine ⟨w,a,by rw [htask]; exact ha,hxa,?_⟩
      cases hp.each x.rTsk with
      | same hr hmsg hwoken hlisted => exact (congrArg isEagain hmsg).trans he
      | tooBig hr hmsg hwoken hlisted hgone => exact absurd (List.mem_map_of_mem hx) hgone
      | handed hr hmsg hwoken hlisted hgone => exact absurd (List.mem_map_of_mem hx) hgone
    · rw [htask] at hu
      rw [hqueue]
      cases hp.each u with
      | same hr hmsg hwoken hlisted =>
        exact hlisted.mpr (hlive.listed u w a hu ((congrArg isEagain hmsg).symm.trans he))
      | tooBig hr hmsg hwoken hlisted hgone => exact absurd ((congrArg isEagain hmsg).symm.trans he) nofun
      | handed hr hmsg hwoken hlisted hgone => exact absurd ((congrArg isEagain hmsg).symm.trans he) nofun
    · rw [hqueue]
      exact hlive.senders
    · rw [hqueue,htask]
      exact hlive.sender
    · rw [hqueue,htask]
      exact hlive.queued
    · rw [hqueue]
      exact fun x hx => hlive.unsuited x (hp.sublist.subset hx)
  · rw [hqueue] at hx ⊢
    refine h.full hdel x hx ?_
    cases hp.each x.tsk with
    | same hr hmsg hwoken hlisted => exact hwoken.symm.trans hw
    | tooBig hr hmsg hwoken hlisted hgone => exact absurd (hwoken.symm.trans hw) nofun
    | handed hr hmsg hwoken hlisted hgone => exact absurd (hwoken.symm.trans hw) nofun

/-- What `pipelined_send` leaves in `r_msg` of a task. -/
theorem pending_piped {m : Msg μ} {rs : List (Receiver τ)} {r : Option τ} {c : MsgSystem τ μ}
    (h : (s.finish t).Inv deny) (hdel : s.queue.deleted = false)
    (hp : PipedAll deny m s.queue.qReceivers rs r s c) (u : τ) :
    pending ((c.setReceivers rs).finish t) u =
      pending (s.finish t) u ++ if r = some u then [m] else [] := by
  have hlive := h.live hdel
  have htask : ((c.setReceivers rs).finish t).task u = (s.finish t).task u := by
    change Function.update c.task t .idle u = Function.update s.task t .idle u
    rw [hp.task]
  -- a receiver on the list is asleep and has nothing in `r_msg`
  have hwaits : u ∈ s.queue.qReceivers.map Receiver.rTsk →
      ∃ w a, (s.finish t).task u = .rcv w a ∧ isEagain (s.rMsg u) = true := by
    rintro hu
    obtain ⟨x,hx,rfl⟩ := List.mem_map.mp hu
    obtain ⟨w,a,ha,-,he⟩ := hlive.receiver x hx
    exact ⟨w,a,ha,he⟩
  have hnil : isEagain (s.rMsg u) = true → pending (s.finish t) u = [] := by
    intro he
    rw [pending]
    split
    · next hm =>
      change s.rMsg u = _ at hm
      rw [hm] at he
      cases he
    · rfl
  cases hp.each u with
  | same hr hmsg hwoken hlisted =>
    rw [if_neg hr,List.append_nil,pending,pending,htask]
    change (match (s.finish t).task u,c.rMsg u with | .rcv _ _,.ok m => [m] | _,_ => []) = _
    rw [hmsg]
    rfl
  | tooBig hr hmsg hwoken hlisted hgone =>
    obtain ⟨w,a,ha,he⟩ := hwaits hlisted
    rw [if_neg hr,List.append_nil,hnil he,pending,htask,ha]
    change (match (Task.rcv w a : Task μ),c.rMsg u with | .rcv _ _,.ok m => [m] | _,_ => []) = _
    rw [hmsg]
  | handed hr hmsg hwoken hlisted hgone =>
    obtain ⟨w,a,ha,he⟩ := hwaits hlisted
    rw [if_pos hr,hnil he,List.nil_append,pending,htask,ha]
    change (match (Task.rcv w a : Task μ),c.rMsg u with | .rcv _ _,.ok m => [m] | _,_ => []) = _
    rw [hmsg]

theorem deliver_stepped {m : Msg μ} (hpos : 1 ≤ m.mType) (h : (s.finish t).Inv deny) (hdel : s.queue.deleted = false) :
    Stepped deny (s.finish t) (deliver deny t m s).1 (deliver deny t m s).2 := by
  have hp := pipelinedSend_spec deny m (h.live hdel).receivers s
  rw [deliver]
  change PipedAll deny m s.queue.qReceivers _ _ s _ at hp
  rcases hpipe : pipelinedSend deny m s.queue.qReceivers s with ⟨rs,r,c⟩
  have hp' : PipedAll deny m s.queue.qReceivers rs r s c := by
    have hrs : (pipelinedSend deny m (s.finish t).queue.qReceivers s) = (rs,r,c) := hpipe
    rw [hrs] at hp
    exact hp
  have hmessages : c.queue.qMessages = s.queue.qMessages := congrArg MsgQueue.qMessages hp'.queue
  have hinv := h.piped hdel hp'
  cases r with
  | some u =>
    refine ⟨hinv,?_,fun x => ?_⟩
    · change QueueMove Msg.mType (Alike deny) s.queue.qMessages [m] [m] c.queue.qMessages
      rw [hmessages]
      refine .pass s.queue.qMessages m fun halike x hx htype => ?_
      -- a message of this type would have suited the receiver before
      obtain ⟨r,hr,hru,hsuits⟩ := hp'.suited u rfl
      have hno := (h.live hdel).unsuited r hr x hx
      rw [hru,suits_congr htype (halike u x m htype),hsuits] at hno
      cases hno
    · rw [pending_piped h hdel hp' x]
      by_cases hux : u = x <;> simp [handedTo,gotBy,hux]
  | none =>
    have hdel' : ((c.setReceivers rs).finish t).queue.deleted = false :=
      (congrArg MsgQueue.deleted hp'.queue).trans hdel
    refine ⟨hinv.enqueue hdel' hpos (hp'.unsuited rfl),?_,fun x => ?_⟩
    · change QueueMove Msg.mType (Alike deny) s.queue.qMessages [m] [] (c.queue.qMessages ++ [m])
      rw [hmessages]
      exact .put s.queue.qMessages m
    · have hx := pending_piped h hdel hp' x
      simp only [reduceCtorEq,if_false,List.append_nil] at hx
      simp only [handedTo,gotBy,List.filterMap_cons,List.filterMap_nil,List.append_nil,List.nil_append]
      exact hx.symm

/-- A sender goes to sleep because its message does not fit. -/
theorem sleepSnd_stepped {m : Msg μ} (hpos : 1 ≤ m.mType) (h : (s.finish t).Inv deny) (hdel : s.queue.deleted = false)
    (hfit : msgFitsInqueue s.queue m.mTs = false) :
    Stepped deny (s.finish t) ((s.setSenders (s.queue.qSenders ++ [Sender.mk t m.mTs])).sleep t (.snd m)) [] := by
  have hlive := h.live hdel
  have hself : ((s.setSenders (s.queue.qSenders ++ [Sender.mk t m.mTs])).sleep t (.snd m)).task t = .snd m :=
    Function.update_self ..
  have hother : ∀ {u}, u ≠ t → ((s.setSenders (s.queue.qSenders ++ [Sender.mk t m.mTs])).sleep t (.snd m)).task u =
      (s.finish t).task u := fun hu => (Function.update_of_ne hu _ _).trans (finish_of_ne hu).symm
  have hwoken : ∀ {u}, u ≠ t → ((s.setSenders (s.queue.qSenders ++ [Sender.mk t m.mTs])).sleep t (.snd m)).woken u =
      s.woken u := fun hu => Function.update_of_ne hu _ _
  have hrcv : ∀ {u w a}, ((s.setSenders (s.queue.qSenders ++ [Sender.mk t m.mTs])).sleep t (.snd m)).task u = .rcv w a →
      u ≠ t ∧ (s.finish t).task u = .rcv w a := by
    intro u w a hu
    have hut : u ≠ t := by
      rintro rfl
      exact absurd (hself.symm.trans hu) nofun
    exact ⟨hut,(hother hut).symm.trans hu⟩
  have hnot : ∀ x ∈ s.queue.qSenders, x.tsk ≠ t := by
    intro x hx hxt
    obtain ⟨m',hm',-⟩ := hlive.sender x hx
    rw [hxt,finish_self] at hm'
    cases hm'
  refine ⟨⟨⟨fun u a hu => ?_,fun u w a hu he => ?_,h.empty,fun hd => absurd (hdel.symm.trans hd) nofun,
    fun hd => absurd (hdel.symm.trans hd) nofun,fun _ => ?_,h.types,fun u k hu => ?_⟩,fun _ x hx hw => ?_⟩,.stay _,
    fun u => ?_⟩
  · have hut : u ≠ t := by
      rintro rfl
      rw [hself] at hu
      simp at hu
    rw [hother hut] at hu
    exact h.args u a hu
  · obtain ⟨hut,hu⟩ := hrcv hu
    exact (hwoken hut).trans (h.answered u w a hu he)
  · refine ⟨hlive.qnum,hlive.cbytes,hlive.receivers,fun r hr => ?_,fun u w a hu he => ?_,?_,fun x hx => ?_,
      fun u k hu => ?_,hlive.unsuited⟩
    · obtain ⟨w,a,ha,hra,he⟩ := hlive.receiver r hr
      have hrt : r.rTsk ≠ t := by
        intro hrt
        rw [hrt,finish_self] at ha
        cases ha
      exact ⟨w,a,(hother hrt).trans ha,hra,he⟩
    · exact hlive.listed u w a (hrcv hu).2 he
    · change ((s.queue.qSenders ++ [Sender.mk t m.mTs]).map Sender.tsk).Nodup
      rw [List.map_append,List.nodup_append]
      refine ⟨hlive.senders,List.nodup_singleton _,fun u hu v hv huv => ?_⟩
      obtain ⟨x,hx,rfl⟩ := List.mem_map.mp hu
      exact hnot x hx (huv.trans (List.mem_singleton.mp hv))
    · rcases List.mem_append.mp hx with hx | hx
      · obtain ⟨k,hk,hsz⟩ := hlive.sender x hx
        exact ⟨k,(hother (hnot x hx)).trans hk,hsz⟩
      · rw [List.mem_singleton.mp hx]
        exact ⟨m,hself,rfl⟩
    · change u ∈ (s.queue.qSenders ++ [Sender.mk t m.mTs]).map Sender.tsk
      rw [List.map_append,List.mem_append]
      by_cases hut : u = t
      · exact .inr (by simp [hut])
      · exact .inl (hlive.queued u k ((hother hut).symm.trans hu))
  · by_cases hut : u = t
    · rw [hut,hself] at hu
      cases hu
      exact hpos
    · exact h.sndTypes u k ((hother hut).symm.trans hu)
  · rcases List.mem_append.mp hx with hx | hx
    · exact h.full hdel x hx ((hwoken (hnot x hx)).symm.trans hw)
    · rw [List.mem_singleton.mp hx]
      exact hfit
  · by_cases hut : u = t
    · subst hut
      rw [pending_finish,pending,hself]
      rfl
    · simp only [handedTo,gotBy,List.filterMap_nil,List.append_nil,List.nil_append,pending,hother hut]
      rfl

theorem msgsndRound_stepped {m : Msg μ} (hpos : 1 ≤ m.mType) (nowait perms : Bool) (security : Option Errno)
    (h : (s.finish t).Inv deny) :
    Stepped deny (s.finish t) (msgsndRound deny t m nowait perms security s).1
      (msgsndRound deny t m nowait perms security s).2 := by
  unfold msgsndRound
  split
  · exact stepped_err h _
  split
  · exact stepped_err h _
  · next hdel =>
    have hdel' : s.queue.deleted = false := Bool.eq_false_iff.mpr hdel
    cases security with
    | some e => exact stepped_err h e
    | none =>
      dsimp only
      split
      · exact deliver_stepped hpos h hdel'
      · next hfit =>
        split
        · exact stepped_err h _
        · exact sleepSnd_stepped hpos h hdel' (Bool.eq_false_iff.mpr hfit)

end Send

section Wakeup

/-- After `ss_wakeup` no sender whose message fits is left asleep. -/
theorem MsgSystem.Sound.wakeup (h : s.Sound deny) (hdel : s.queue.deleted = false) :
    ∃ l w, ssWakeup s = some { s.setSenders l with woken := w } ∧
      ({ s.setSenders l with woken := w } : MsgSystem τ μ).Inv deny := by
  have hlive := h.live hdel
  obtain ⟨l,w,hrun,hperm,hw⟩ := exists_ssWakeup s hlive.senders
  refine ⟨l,w,hrun,⟨⟨h.args,fun u k a hu he => (hw u).mpr (.inl (h.answered u k a hu he)),h.empty,h.goneRcv,
    fun hd => absurd (hdel.symm.trans hd) nofun,fun _ => ?_,h.types,h.sndTypes⟩,fun _ x hx hwx => ?_⟩⟩
  · exact
      { hlive with
        senders := (hperm.map Sender.tsk).nodup_iff.mpr hlive.senders
        sender := fun x hx => hlive.sender x (hperm.mem_iff.mp hx)
        queued := fun u m hu => (hperm.map Sender.tsk).mem_iff.mpr (hlive.queued u m hu) }
  · refine Bool.eq_false_iff.mpr fun hfit => ?_
    have hwoken : w x.tsk = true := (hw x.tsk).mpr (.inr ⟨x,hperm.mem_iff.mp hx,rfl,hfit⟩)
    exact absurd (hwoken.symm.trans hwx) nofun

theorem ssWakeup_finish (s : MsgSystem τ μ) (t : τ) : ssWakeup (s.finish t) = (ssWakeup s).map (·.finish t) := by
  rw [ssWakeup,ssWakeup,Option.map_map]
  rfl

end Wakeup

section Receive
variable {a : RcvArgs}

/-- A message that was found is returned, or it stays where it is. -/
theorem exists_takeMsg (h : (s.finish t).Inv deny) (hdel : s.queue.deleted = false) {pre post : List (Msg μ)}
    {m : Msg μ} (hsplit : s.queue.qMessages = pre ++ m::post)
    (hfirst : a.flags.copy = false → Alike deny → ∀ x ∈ pre, x.mType ≠ m.mType) :
    ∃ c ev, takeMsg t a pre.length m s = some (c,ev) ∧ Stepped deny (s.finish t) c ev := by
  rw [takeMsg]
  split
  · exact ⟨_,_,rfl,stepped_err h _⟩
  split
  · exact ⟨_,_,rfl,h,.stay _,fun u => by simp [handedTo,gotBy]⟩
  · next hcopy =>
    obtain ⟨hmessages,hsound⟩ := h.dequeue hdel hsplit
    obtain ⟨l,w,hrun,hinv⟩ := hsound.wakeup hdel
    have hrun' : (ssWakeup (dequeue pre.length m s)).map (·.finish t) =
        some { (dequeue pre.length m (s.finish t)).setSenders l with woken := w } := by
      rw [← ssWakeup_finish]
      exact hrun
    obtain ⟨c,hc,hcfin⟩ := Option.map_eq_some_iff.mp hrun'
    refine ⟨_,_,by rw [hc]; rfl,?_⟩
    rw [hcfin]
    refine ⟨hinv,?_,fun u => ?_⟩
    · change QueueMove _ _ s.queue.qMessages [] [m] (dequeue pre.length m (s.finish t)).queue.qMessages
      rw [hmessages,hsplit]
      exact .take pre m post (hfirst (Bool.eq_false_iff.mpr hcopy))
    · change pending (s.finish t) u ++ _ = _ ++ pending (s.finish t) u
      by_cases htu : t = u
      · subst htu
        simp [handedTo,gotBy,pending_finish]
      · simp [handedTo,gotBy,htu]

/-- `msgrcv` goes to sleep when no message suits. -/
theorem sleepRcv_stepped (h : (s.finish t).Inv deny) (hdel : s.queue.deleted = false)
    (hargs : a.mode ≠ .number ∧ a.flags.copy = false)
    (hnone : ∀ m ∈ s.queue.qMessages, suits deny m t a.msgtyp a.mode = false) :
    Stepped deny (s.finish t) ({ s.setReceivers (s.queue.qReceivers ++ [a.receiver t]) with
      rMsg := Function.update s.rMsg t (.error .eagain) }.sleep t (.rcv false a)) [] := by
  have hlive := h.live hdel
  generalize hc : ({ s.setReceivers (s.queue.qReceivers ++ [a.receiver t]) with
    rMsg := Function.update s.rMsg t (.error .eagain) }.sleep t (.rcv false a) : MsgSystem τ μ) = c
  have hself : c.task t = .rcv false a := by rw [← hc]; exact Function.update_self ..
  have hother : ∀ {u}, u ≠ t → c.task u = (s.finish t).task u := fun hu => by
    rw [← hc]
    exact (Function.update_of_ne hu _ _).trans (finish_of_ne hu).symm
  have hwoken : ∀ {u}, u ≠ t → c.woken u = s.woken u := fun hu => by rw [← hc]; exact Function.update_of_ne hu _ _
  have hmsgself : c.rMsg t = .error .eagain := by rw [← hc]; exact Function.update_self ..
  have hmsg : ∀ {u}, u ≠ t → c.rMsg u = s.rMsg u := fun hu => by rw [← hc]; exact Function.update_of_ne hu _ _
  have hqueue : c.queue = { s.queue with qReceivers := s.queue.qReceivers ++ [a.receiver t] } := by rw [← hc]; rfl
  have hsnd : ∀ {u m}, c.task u = .snd m → u ≠ t := by
    rintro u m hu rfl
    rw [hself] at hu
    cases hu
  have hnotr : ∀ r ∈ s.queue.qReceivers, r.rTsk ≠ t := by
    intro r hr hrt
    obtain ⟨w,b,hb,-,-⟩ := hlive.receiver r hr
    rw [hrt,finish_self] at hb
    cases hb
  have hnots : ∀ x ∈ s.queue.qSenders, x.tsk ≠ t := by
    intro x hx hxt
    obtain ⟨m,hm,-⟩ := hlive.sender x hx
    rw [hxt,finish_self] at hm
    cases hm
  refine ⟨⟨⟨fun u b hu => ?_,fun u w b hu he => ?_,?_,?_,?_,fun _ => ?_,by rw [hqueue]; exact h.types,
    fun u m hu => h.sndTypes u m ((hother (hsnd hu)).symm.trans hu)⟩,fun _ x hx hw => ?_⟩,?_,fun u => ?_⟩
  · by_cases hut : u = t
    · subst hut
      obtain hu | ⟨w,hu⟩ := hu
      · exact absurd (hself.symm.trans hu) nofun
      · cases hself.symm.trans hu
        exact hargs
    · rw [hother hut] at hu
      exact h.args u b hu
  · by_cases hut : u = t
    · rw [hut,hmsgself] at he
      cases he
    · rw [hother hut] at hu
      rw [hmsg hut] at he
      exact (hwoken hut).trans (h.answered u w b hu he)
  · rw [hqueue]
    exact fun hd => absurd (hdel.symm.trans hd) nofun
  · rw [hqueue]
    exact fun hd => absurd (hdel.symm.trans hd) nofun
  · rw [hqueue]
    exact fun hd => absurd (hdel.symm.trans hd) nofun
  · rw [← hc] at hself hother hmsgself hmsg hsnd
    subst hc
    refine ⟨hlive.qnum,hlive.cbytes,?_,fun r hr => ?_,fun u w b hu he => ?_,hlive.senders,fun x hx => ?_,
      fun u m hu => ?_,fun r hr m hm => ?_⟩
    · change ((s.queue.qReceivers ++ [a.receiver t]).map Receiver.rTsk).Nodup
      rw [List.map_append,List.nodup_append]
      refine ⟨hlive.receivers,List.nodup_singleton _,fun u hu v hv huv => ?_⟩
      obtain ⟨r,hr,rfl⟩ := List.mem_map.mp hu
      exact hnotr r hr (huv.trans (List.mem_singleton.mp hv))
    · rcases List.mem_append.mp hr with hr | hr
      · obtain ⟨w,b,hb,hrb,he⟩ := hlive.receiver r hr
        exact ⟨w,b,(hother (hnotr r hr)).trans hb,hrb,(congrArg isEagain (hmsg (hnotr r hr))).trans he⟩
      · rw [List.mem_singleton.mp hr]
        exact ⟨false,a,hself,rfl,congrArg isEagain hmsgself⟩
    · change u ∈ (s.queue.qReceivers ++ [a.receiver t]).map Receiver.rTsk
      rw [List.map_append,List.mem_append]
      by_cases hut : u = t
      · exact .inr (by simp [hut,RcvArgs.receiver])
      · exact .inl (hlive.listed u w b ((hother hut).symm.trans hu) ((congrArg isEagain (hmsg hut)).symm.trans he))
    · obtain ⟨m,hm,hsz⟩ := hlive.sender x hx
      exact ⟨m,(hother (hnots x hx)).trans hm,hsz⟩
    · exact hlive.queued u m ((hother (hsnd hu)).symm.trans hu)
    · rcases List.mem_append.mp hr with hr | hr
      · exact hlive.unsuited r hr m hm
      · rw [List.mem_singleton.mp hr]
        exact hnone m hm
  · rw [hqueue] at hx ⊢
    exact h.full hdel x hx ((hwoken (hnots x hx)).symm.trans hw)
  · rw [hqueue]
    exact .stay _
  · simp only [handedTo,gotBy,List.filterMap_nil,List.append_nil,List.nil_append]
    by_cases hut : u = t
    · rw [hut,pending_finish,pending,hself,hmsgself]
    · rw [pending,pending,hother hut,hmsg hut]
      rfl

theorem exists_msgrcvRound (h : (s.finish t).Inv deny) (perms : Bool)
    (hmode : a.mode = .number ↔ a.flags.copy = true) (hcopy : a.flags.copy = true → a.flags.nowait = true) :
    ∃ c ev, msgrcvRound deny t a perms s = some (c,ev) ∧ Stepped deny (s.finish t) c ev := by
  rw [msgrcvRound]
  split
  · exact ⟨_,_,rfl,stepped_err h _⟩
  split
  · exact ⟨_,_,rfl,stepped_err h _⟩
  · next hdel =>
    have hdel' : s.queue.deleted = false := Bool.eq_false_iff.mpr hdel
    cases hfind : findMsg deny s.queue t a.msgtyp a.mode with
    | some i =>
      obtain hnone | ⟨pre,m,post,hsplit,hi,-,hfirst⟩ := findMsgLoop_some hfind
      · cases hnone
      · obtain rfl : i = pre.length := by omega
        have hget : s.queue.qMessages[pre.length]? = some m := by rw [hsplit]; simp
        dsimp only
        rw [hget,Option.bind_some]
        refine exists_takeMsg h hdel' hsplit fun hnocopy halike => hfirst ?_ (halike t)
        exact fun hnumber => absurd ((hmode.mp hnumber).symm.trans hnocopy) nofun
    | none =>
      dsimp only
      split
      · exact ⟨_,_,rfl,stepped_err h _⟩
      · next hwait =>
        have hnocopy : a.flags.copy = false := Bool.eq_false_iff.mpr fun hc => hwait (hcopy hc)
        have hnumber : a.mode ≠ .number := fun hn => absurd ((hmode.mp hn).symm.trans hnocopy) nofun
        exact ⟨_,_,rfl,sleepRcv_stepped h hdel' ⟨hnumber,hnocopy⟩ (findMsgLoop_none hnumber hfind).2⟩

end Receive

section Leave
variable {w : Bool} {a : RcvArgs}

/-- A task leaves its place, and with it the lists. -/
theorem MsgSystem.Inv.depart (h : s.Inv deny) {rs : List (Receiver τ)} {ss : List (Sender τ)}
    (hrs : rs.Sublist s.queue.qReceivers) (hss : ss.Sublist s.queue.qSenders)
    (hr : s.queue.deleted = false → ∀ r ∈ s.queue.qReceivers, r ∈ rs ↔ r.rTsk ≠ t)
    (hs : s.queue.deleted = false → ∀ x ∈ s.queue.qSenders, x ∈ ss ↔ x.tsk ≠ t) :
    (((s.setReceivers rs).setSenders ss).finish t).Inv deny := by
  refine ⟨⟨fun u b hu => ?_,fun u v b hu he => h.answered u v b (finish_eq hu nofun).2 he,h.empty,
    fun hd u v b hu => h.goneRcv hd u v b (finish_eq hu nofun).2,
    fun hd u m hu => h.goneSnd hd u m (finish_eq hu nofun).2,fun hdel => ?_,h.types,
    fun u m hu => h.sndTypes u m (finish_eq hu nofun).2⟩,fun hdel x hx hw => h.full hdel x (hss.subset hx) hw⟩
  · obtain hu | ⟨v,hu⟩ := hu
    · exact h.args u b (.inl (finish_eq hu nofun).2)
    · exact h.args u b (.inr ⟨v,(finish_eq hu nofun).2⟩)
  · have hlive := h.live hdel
    refine ⟨hlive.qnum,hlive.cbytes,hlive.receivers.sublist (hrs.map Receiver.rTsk),fun r hmem => ?_,
      fun u v b hu he => ?_,hlive.senders.sublist (hss.map Sender.tsk),fun x hx => ?_,fun u m hu => ?_,
      fun r hmem => hlive.unsuited r (hrs.subset hmem)⟩
    · obtain ⟨v,b,hb,hrb,he⟩ := hlive.receiver r (hrs.subset hmem)
      exact ⟨v,b,(finish_of_ne ((hr hdel r (hrs.subset hmem)).mp hmem)).trans hb,hrb,he⟩
    · obtain ⟨hut,hu⟩ := finish_eq hu nofun
      obtain ⟨r,hmem,rfl⟩ := List.mem_map.mp (hlive.listed u v b hu he)
      exact List.mem_map_of_mem ((hr hdel r hmem).mpr hut)
    · obtain ⟨m,hm,hsz⟩ := hlive.sender x (hss.subset hx)
      exact ⟨m,(finish_of_ne ((hs hdel x (hss.subset hx)).mp hx)).trans hm,hsz⟩
    · obtain ⟨hut,hu⟩ := finish_eq hu nofun
      obtain ⟨x,hx,rfl⟩ := List.mem_map.mp (hlive.queued u m hu)
      exact List.mem_map_of_mem ((hs hdel x hx).mpr hut)

/-- A task that is on no list, or whose queue is gone, returns. -/
theorem MsgSystem.Inv.finish (h : s.Inv deny)
    (hr : s.queue.deleted = false → t ∉ s.queue.qReceivers.map Receiver.rTsk)
    (hs : s.queue.deleted = false → t ∉ s.queue.qSenders.map Sender.tsk) : (s.finish t).Inv deny :=
  h.depart (.refl _) (.refl _)
    (fun hdel _ hmem => ⟨fun _ hrt => hr hdel (hrt ▸ List.mem_map_of_mem hmem),fun _ => hmem⟩)
    fun hdel _ hx => ⟨fun _ hxt => hs hdel (hxt ▸ List.mem_map_of_mem hx),fun _ => hx⟩

/-- A sender takes itself off the list. -/
theorem MsgSystem.Inv.leaveSnd (h : s.Inv deny) (hdel : s.queue.deleted = false) {m : Msg μ} (ht : s.task t = .snd m) :
    ((s.setSenders (s.queue.qSenders.filter (·.tsk ≠ t))).finish t).Inv deny := by
  have hreceiver := (h.live hdel).not_receiver (t := t) fun w a ha => absurd (ht.symm.trans ha) nofun
  exact h.depart (.refl _) List.filter_sublist
    (fun _ r hr => ⟨fun _ hrt => hreceiver (hrt ▸ List.mem_map_of_mem hr),fun _ => hr⟩)
    fun _ x hx => by simp [hx]

/-- A receiver takes itself off the list. -/
theorem MsgSystem.Inv.leaveRcv (h : s.Inv deny) (hdel : s.queue.deleted = false) (ht : s.task t = .rcv w a) :
    ((s.setReceivers (s.queue.qReceivers.filter (·.rTsk ≠ t))).finish t).Inv deny := by
  have hsender := (h.live hdel).not_sender (t := t) fun m hm => absurd (ht.symm.trans hm) nofun
  exact h.depart List.filter_sublist (.refl _) (fun _ r hr => by simp [hr])
    fun _ x hx => ⟨fun _ hxt => hsender (hxt ▸ List.mem_map_of_mem hx),fun _ => hx⟩

/-- The receiver finds a result. -/
theorem takeResult_stepped (h : s.Inv deny) (ht : s.task t = .rcv w a) (he : isEagain (s.rMsg t) = false) :
    Stepped deny s (takeResult t a s).1 (takeResult t a s).2 := by
  have hinv : (s.finish t).Inv deny :=
    h.finish (fun hdel => (h.live hdel).not_receiver fun _ _ _ => he)
      fun hdel => (h.live hdel).not_sender fun m hm => absurd (ht.symm.trans hm) nofun
  have hother : ∀ {u}, u ≠ t → pending (s.finish t) u = pending s u := pending_finish_of_ne
  rw [takeResult]
  split
  · next m hm =>
    refine ⟨hinv,.stay _,fun u => ?_⟩
    by_cases hut : u = t
    · subst hut
      rw [pending_finish,pending,ht,hm]
      simp [handedTo,gotBy]
    · rw [hother hut]
      simp [handedTo,gotBy,Ne.symm hut]
  · next e hm =>
    refine ⟨hinv,.stay _,fun u => ?_⟩
    by_cases hut : u = t
    · subst hut
      rw [pending_finish,pending,ht,hm]
      simp [handedTo,gotBy]
    · rw [hother hut]
      simp [handedTo,gotBy]

end Leave

section Control

theorem expungeAll_rMsg {res : Errno} (u : τ) :
    (expungeAll res s).rMsg u = if u ∈ s.queue.qReceivers.map Receiver.rTsk then .error res else s.rMsg u := rfl

/-- `expunge_all` overwrites no message that a receiver was handed. -/
theorem pending_expungeAll (h : s.Live deny) (res : Errno) (u : τ) : pending (expungeAll res s) u = pending s u := by
  rw [pending,expungeAll_rMsg]
  split_ifs with hu
  · obtain ⟨r,hr,rfl⟩ := List.mem_map.mp hu
    obtain ⟨w,a,ha,-,he⟩ := h.receiver r hr
    have hnil : pending s r.rTsk = [] := by
      rw [pending]
      split
      · next hm =>
        rw [hm] at he
        cases he
      · rfl
    have ha' : (expungeAll res s).task r.rTsk = .rcv w a := ha
    rw [hnil,ha']
  · rfl

/-- IPC_SET: the receivers look again, and so do the senders whose message fits. -/
theorem exists_ipcSet (h : s.Inv deny) (hdel : s.queue.deleted = false) (n : ℕ) :
    ∃ c, ssWakeup (expungeAll .eagain { s with queue.qQbytes := n }) = some c ∧ Stepped deny s c [] := by
  have hlive := h.live hdel
  -- who is on the list has -EAGAIN already
  have hsame : ∀ u, isEagain ((expungeAll .eagain { s with queue.qQbytes := n }).rMsg u) = isEagain (s.rMsg u) := by
    intro u
    rw [expungeAll_rMsg]
    split_ifs with hu
    · obtain ⟨r,hr,rfl⟩ := List.mem_map.mp hu
      obtain ⟨w,a,ha,-,he⟩ := hlive.receiver r hr
      exact he.symm
    · rfl
  have hsound : (expungeAll .eagain { s with queue.qQbytes := n }).Sound deny := by
    refine ⟨h.args,fun u w a hu he => ?_,h.empty,fun hd u w a hu => ?_,
      fun hd => absurd (hdel.symm.trans hd) nofun,fun _ => ?_,h.types,h.sndTypes⟩
    · rw [hsame] at he
      exact Bool.or_eq_true_iff.mpr (.inl (h.answered u w a hu he))
    · rw [hsame]
      exact h.goneRcv hd u w a hu
    · refine ⟨hlive.qnum,hlive.cbytes,hlive.receivers,fun r hr => ?_,fun u w a hu he => ?_,hlive.senders,hlive.sender,
        hlive.queued,hlive.unsuited⟩
      · obtain ⟨w,a,ha,hra,he⟩ := hlive.receiver r hr
        exact ⟨w,a,ha,hra,(hsame _).trans he⟩
      · exact hlive.listed u w a hu ((hsame u).symm.trans he)
  obtain ⟨l,w,hrun,hinv⟩ := hsound.wakeup hdel
  refine ⟨_,hrun,hinv,.stay _,fun u => ?_⟩
  have hpend : pending (expungeAll .eagain { s with queue.qQbytes := n }) u = pending s u := by
    have hlive' : ({ s with queue.qQbytes := n } : MsgSystem τ μ).Live deny := { hlive with }
    exact pending_expungeAll hlive' .eagain u
  simp only [handedTo,gotBy,List.filterMap_nil,List.append_nil,List.nil_append]
  exact hpend.symm

/-- IPC_RMID: everybody who sleeps is woken, and the messages are freed. -/
theorem freeque_stepped (h : s.Inv deny) (hdel : s.queue.deleted = false) :
    Stepped deny s (freeque s).1 (freeque s).2 := by
  have hlive := h.live hdel
  have hwoken : ∀ u, (freeque s).1.woken u = true ↔ (s.woken u = true ∨ u ∈ s.queue.qReceivers.map Receiver.rTsk) ∨
      u ∈ s.queue.qSenders.map Sender.tsk := by
    intro u
    change ((s.woken u || decide (u ∈ s.queue.qReceivers.map Receiver.rTsk)) ||
      decide (u ∈ s.queue.qSenders.map Sender.tsk)) = true ↔ _
    rw [Bool.or_eq_true,Bool.or_eq_true,decide_eq_true_eq,decide_eq_true_eq]
  have hmsg : ∀ u, (freeque s).1.rMsg u =
      if u ∈ s.queue.qReceivers.map Receiver.rTsk then .error .eidrm else s.rMsg u := fun u => rfl
  refine ⟨⟨⟨h.args,fun u w a hu he => ?_,fun _ => rfl,fun _ u w a hu => ?_,
    fun _ u m hu => (hwoken u).mpr (.inr (hlive.queued u m hu)),nofun,fun m hm => absurd hm List.not_mem_nil,
    h.sndTypes⟩,nofun⟩,?_,fun u => ?_⟩
  · rw [hmsg] at he
    split_ifs at he with hin
    · exact (hwoken u).mpr (.inl (.inr hin))
    · exact (hwoken u).mpr (.inl (.inl (h.answered u w a hu he)))
  · rw [hmsg]
    split_ifs with hin
    · rfl
    · exact Bool.eq_false_iff.mpr fun he => hin (hlive.listed u w a hu he)
  · have hins : accepted (freeque s).2 = [] := by simp [accepted,freeque]
    have houts : leaving (freeque s).2 = s.queue.qMessages := by
      simp [leaving,freeque,List.filterMap_map]
    rw [hins,houts]
    exact .clear s.queue.qMessages
  · have hnone : handedTo u (freeque s).2 = [] := by simp [handedTo,freeque]
    have hnone' : gotBy u (freeque s).2 = [] := by simp [gotBy,freeque]
    rw [hnone,hnone',List.append_nil,List.nil_append]
    exact (pending_expungeAll hlive .eidrm u).symm

end Control

end Steps
end Linuxab.Ipc
