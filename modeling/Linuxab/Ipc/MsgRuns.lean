import Linuxab.Ipc.MsgInvariant

/-! Runs of a message queue of msg.c: any order of calls, of wakeups for whatever reason and of msgctl. No message is
lost or comes twice, messages of one type keep their order, and no task sleeps on what is already there. -/
namespace Linuxab.Ipc
open Linuxab.Base
variable {τ μ : Type} [DecidableEq τ] {deny : τ → Msg μ → Bool} {s : MsgSystem τ μ}

/-- No step fails, and every step is as it should be. -/
theorem exists_msgStep (h : s.Inv deny) (op : MsgOp τ μ) :
    ∃ c ev, msgStep deny s op = some (c,ev) ∧ Stepped deny s c ev := by
  have hstay : Stepped deny s s [] := ⟨h,.stay _,fun u => by simp [handedTo,gotBy]⟩
  cases op with
  | msgsnd t m ctlmax nowait perms security =>
    rw [msgStep]
    split
    · next ht =>
      have hfin : (s.finish t).Inv deny := by rwa [finish_eq_self ht]
      split
      · have herr := stepped_err hfin .einval
        rw [finish_eq_self ht] at herr
        exact ⟨_,_,rfl,herr⟩
      · next hvalid =>
        have hpos : 1 ≤ m.mType := by
          simp only [Bool.or_eq_true,decide_eq_true_eq,not_or,Int.not_lt] at hvalid
          exact hvalid.2
        have hround := msgsndRound_stepped hpos nowait perms security hfin
        rw [finish_eq_self ht] at hround
        exact ⟨_,_,rfl,hround⟩
    · exact ⟨_,_,rfl,hstay⟩
  | resumeSnd t signal perms security =>
    rw [msgStep]
    split
    · next m ht =>
      have hpend : pending s t = [] := by rw [pending,ht]
      split
      · next hdel =>
        have hfin : (s.finish t).Inv deny :=
          h.finish (fun hd => Bool.noConfusion (hdel.symm.trans hd)) fun hd => Bool.noConfusion (hdel.symm.trans hd)
        exact ⟨_,_,rfl,(stepped_err hfin .eidrm).of_finish rfl rfl rfl hpend⟩
      · next hdel =>
        have hfin := h.leaveSnd (Bool.eq_false_iff.mpr hdel) ht
        dsimp only
        split
        · exact ⟨_,_,rfl,(stepped_err hfin .erestartnohand).of_finish rfl rfl rfl hpend⟩
        · have hround := msgsndRound_stepped (h.sndTypes t m ht) false perms security hfin
          exact ⟨_,_,rfl,hround.of_finish rfl rfl rfl hpend⟩
    · exact ⟨_,_,rfl,hstay⟩
  | msgrcv t bufsz msgtyp flags perms =>
    rw [msgStep]
    split
    · next ht =>
      have hfin : (s.finish t).Inv deny := by rwa [finish_eq_self ht]
      split
      · have herr := stepped_err hfin .einval
        rw [finish_eq_self ht] at herr
        exact ⟨_,_,rfl,herr⟩
      · next hflags =>
        have hmode : (convertMode msgtyp flags).2 = .number ↔ flags.copy = true := by
          rw [convertMode]
          split_ifs <;> simp_all
        have hcopy : flags.copy = true → flags.nowait = true := by
          intro hc
          simpa [hc] using (fun hn => hflags (by simp [hc,hn]) : ¬flags.nowait = false)
        obtain ⟨c,ev,hrun,hround⟩ := exists_msgrcvRound (t := t)
          (a := ⟨bufsz,(convertMode msgtyp flags).1,(convertMode msgtyp flags).2,flags⟩) hfin perms hmode hcopy
        rw [finish_eq_self ht] at hround
        exact ⟨c,ev,hrun,hround⟩
    · exact ⟨_,_,rfl,hstay⟩
  | resumeRcv t =>
    rw [msgStep]
    split
    · next a ht =>
      split
      · refine ⟨_,_,rfl,h.retask (fun u w b hu => ?_) (fun u w b hu => ?_) (fun u m => ?_) (fun u b hu => ?_),.stay _,
          fun u => ?_⟩
        · by_cases hut : u = t
          · rw [hut,Function.update_self] at hu
            cases hu
            exact ⟨false,hut ▸ ht⟩
          · rw [Function.update_of_ne hut] at hu
            exact ⟨w,hu⟩
        · by_cases hut : u = t
          · rw [hut,ht] at hu
            cases hu
            exact ⟨true,by rw [hut,Function.update_self]⟩
          · exact ⟨w,by rw [Function.update_of_ne hut,hu]⟩
        · by_cases hut : u = t
          · rw [hut,Function.update_self,ht]
            constructor <;> intro hu <;> cases hu
          · rw [Function.update_of_ne hut]
        · by_cases hut : u = t
          · rw [hut,Function.update_self] at hu
            cases hu
          · rw [Function.update_of_ne hut] at hu
            exact h.args u b (.inl hu)
        · simp only [handedTo,gotBy,List.filterMap_nil,List.append_nil,List.nil_append,pending]
          by_cases hut : u = t
          · rw [hut,Function.update_self,ht]
            cases s.rMsg t <;> rfl
          · rw [Function.update_of_ne hut]
      · next he => exact ⟨_,_,rfl,takeResult_stepped h ht (Bool.eq_false_iff.mpr he)⟩
    · exact ⟨_,_,rfl,hstay⟩
  | relock t signal =>
    rw [msgStep]
    split
    · next a ht =>
      split
      · next he => exact ⟨_,_,rfl,takeResult_stepped h ht (by simpa using he)⟩
      · next he =>
        have heagain : isEagain (s.rMsg t) = true := by simpa using he
        have hdel : s.queue.deleted = false :=
          Bool.eq_false_iff.mpr fun hd => Bool.noConfusion ((h.goneRcv hd t true a ht).symm.trans heagain)
        have hpend : pending s t = [] := by
          rw [pending]
          split
          · next hm =>
            rw [hm] at heagain
            cases heagain
          · rfl
        have hfin := h.leaveRcv hdel ht
        dsimp only
        split
        · exact ⟨_,_,rfl,(stepped_err hfin .erestartnohand).of_finish rfl rfl rfl hpend⟩
        · refine ⟨_,_,rfl,hfin.retask (fun u w b hu => ?_) (fun u w b hu => ?_) (fun u m => ?_) (fun u b hu => ?_),
            .stay _,fun u => ?_⟩
          · by_cases hut : u = t
            · rw [hut,Function.update_self] at hu
              cases hu
            · rw [Function.update_of_ne hut] at hu
              exact ⟨w,(finish_of_ne hut).trans hu⟩
          · obtain ⟨hut,hu⟩ := finish_eq hu (by intro hk; cases hk)
            exact ⟨w,by rw [Function.update_of_ne hut]; exact hu⟩
          · by_cases hut : u = t
            · rw [hut,Function.update_self,finish_self]
              constructor <;> intro hu <;> cases hu
            · rw [Function.update_of_ne hut,finish_of_ne hut]
          · by_cases hut : u = t
            · rw [hut,Function.update_self] at hu
              cases hu
              exact h.args t a (.inr ⟨true,ht⟩)
            · rw [Function.update_of_ne hut] at hu
              exact h.args u b (.inl hu)
          · simp only [handedTo,gotBy,List.filterMap_nil,List.append_nil,List.nil_append]
            by_cases hut : u = t
            · rw [hut,hpend,pending]
              simp only [Function.update_self]
            · simp only [pending,Function.update_of_ne hut]
              rfl
    · exact ⟨_,_,rfl,hstay⟩
  | again t perms =>
    rw [msgStep]
    split
    · next a ht =>
      obtain ⟨hmode,hcopy⟩ := h.args t a (.inl ht)
      have hfin : (s.finish t).Inv deny :=
        h.finish (fun hd => (h.live hd).not_receiver fun w b hb => by cases ht.symm.trans hb)
          fun hd => (h.live hd).not_sender fun m hm => by cases ht.symm.trans hm
      obtain ⟨c,ev,hrun,hround⟩ := exists_msgrcvRound hfin perms
        ⟨fun hn => absurd hn hmode,fun hc => Bool.noConfusion (hcopy.symm.trans hc)⟩
        fun hc => Bool.noConfusion (hcopy.symm.trans hc)
      exact ⟨c,ev,hrun,hround.of_finish rfl rfl rfl (by rw [pending,ht])⟩
    · exact ⟨_,_,rfl,hstay⟩
  | ipcSet n =>
    rw [msgStep]
    split
    · exact ⟨_,_,rfl,hstay⟩
    · next hdel =>
      obtain ⟨c,hc,hstep⟩ := exists_ipcSet h (Bool.eq_false_iff.mpr hdel) n
      exact ⟨c,[],by rw [hc]; rfl,hstep⟩
  | ipcRmid =>
    rw [msgStep]
    split
    · exact ⟨_,_,rfl,hstay⟩
    · next hdel => exact ⟨_,_,rfl,freeque_stepped h (Bool.eq_false_iff.mpr hdel)⟩

/-- The states that a queue comes to, with all that happened to messages on the way. -/
inductive MsgReach (deny : τ → Msg μ → Bool) : MsgSystem τ μ → List (Event τ μ) → Prop
  | start {s : MsgSystem τ μ} (h : s.Fresh) : MsgReach deny s []
  | step {s c : MsgSystem τ μ} {es ev : List (Event τ μ)} (h : MsgReach deny s es) (op : MsgOp τ μ)
      (hop : msgStep deny s op = some (c,ev)) : MsgReach deny c (es ++ ev)

/-- A step of a run is the one that the step lemma speaks of. -/
theorem stepped_of_msgStep {c : MsgSystem τ μ} {ev : List (Event τ μ)} (h : s.Inv deny) {op : MsgOp τ μ}
    (hop : msgStep deny s op = some (c,ev)) : Stepped deny s c ev := by
  obtain ⟨c',ev',hrun,hstep⟩ := exists_msgStep h op
  obtain ⟨rfl,rfl⟩ := Prod.mk.inj (Option.some.inj (hop.symm.trans hrun))
  exact hstep

theorem MsgReach.inv {es : List (Event τ μ)} (h : MsgReach deny s es) : s.Inv deny := by
  induction h with
  | start h => exact h.inv
  | step _ op hop ih => exact (stepped_of_msgStep ih hop).inv

section Example

/-- An empty queue for ten bytes. -/
def emptyQueue : MsgSystem Bool Unit :=
  ⟨⟨0,0,10,[],[],[],false⟩,fun _ => .error .eagain,fun _ => false,fun _ => .idle⟩

/-- A receiver waits for a message of type 2, and one of type 1 is on the queue. -/
theorem exists_waiting_run : ∃ (s : MsgSystem Bool Unit) (es : List (Event Bool Unit)),
    MsgReach (fun _ _ => false) s es ∧ s.queue.qMessages = [⟨1,3,()⟩] ∧ s.woken true = false ∧
      ∃ a, s.task true = .rcv false a ∧ a.msgtyp = 2 ∧ a.mode = .equal :=
  ⟨_,_,.step (.step (.start ⟨rfl,rfl,rfl,rfl,rfl,rfl,fun _ => rfl⟩ : MsgReach _ emptyQueue _)
    (.msgrcv true 8 2 ⟨false,false,false,false⟩ true) rfl) (.msgsnd false ⟨1,3,()⟩ 8 false true none) rfl,
    rfl,rfl,_,rfl,rfl,rfl⟩

end Example

section Results
variable {es : List (Event τ μ)}

/-- No wakeup is lost. A receiver that sleeps and was not woken finds no message on the queue that it may take, and
is on the list of receivers; a sender that sleeps and was not woken has a message that does not fit, and is on the
list of senders; neither sleeps on a queue that is gone. -/
theorem msg_queue_loses_no_wakeup (h : MsgReach deny s es) (t : τ) (hasleep : s.woken t = false) :
    (∀ w a, s.task t = .rcv w a → s.queue.deleted = false ∧ t ∈ s.queue.qReceivers.map Receiver.rTsk ∧
      ∀ m ∈ s.queue.qMessages, suits deny m t a.msgtyp a.mode = false) ∧
    (∀ m, s.task t = .snd m → s.queue.deleted = false ∧ t ∈ s.queue.qSenders.map Sender.tsk ∧
      msgFitsInqueue s.queue m.mTs = false) := by
  have hinv := h.inv
  refine ⟨fun w a ht => ?_,fun m ht => ?_⟩
  · have heagain : isEagain (s.rMsg t) = true := by
      by_contra he
      exact absurd ((hinv.answered t w a ht (Bool.eq_false_iff.mpr he)).symm.trans hasleep) nofun
    have hdel : s.queue.deleted = false :=
      Bool.eq_false_iff.mpr fun hd => absurd ((hinv.goneRcv hd t w a ht).symm.trans heagain) nofun
    have hlisted := (hinv.live hdel).listed t w a ht heagain
    refine ⟨hdel,hlisted,fun m hm => ?_⟩
    obtain ⟨r,hr,rfl⟩ := List.mem_map.mp hlisted
    obtain ⟨w',a',ha',hra,-⟩ := (hinv.live hdel).receiver r hr
    cases ht.symm.trans ha'
    have hno := (hinv.live hdel).unsuited r hr m hm
    rw [hra] at hno
    exact hno
  · have hdel : s.queue.deleted = false :=
      Bool.eq_false_iff.mpr fun hd => absurd ((hinv.goneSnd hd t m ht).symm.trans hasleep) nofun
    have hlisted := (hinv.live hdel).queued t m ht
    refine ⟨hdel,hlisted,?_⟩
    obtain ⟨x,hx,rfl⟩ := List.mem_map.mp hlisted
    obtain ⟨m',hm',hsz⟩ := (hinv.live hdel).sender x hx
    cases ht.symm.trans hm'
    rw [← hsz]
    exact hinv.full hdel x hx hasleep

theorem msg_queue_loses_no_wakeup_waiting : ∃ s : MsgSystem Bool Unit, s.queue.qMessages = [⟨1,3,()⟩] ∧
    ∀ m ∈ s.queue.qMessages, suits (fun _ _ => false) m true 2 .equal = false := by
  obtain ⟨s,es,h,hq,hwoken,a,ha,htype,hmode⟩ := exists_waiting_run
  rw [← htype,← hmode]
  exact ⟨s,hq,((msg_queue_loses_no_wakeup h true hwoken).1 false a ha).2.2⟩

/-- What a search for types up to `k` is for: the first message of the lowest type, if there is one to take. -/
def IsLowestType (deny : τ → Msg μ → Bool) (q : MsgQueue τ μ) (t : τ) (k : ℤ) : Option ℕ → Prop
  | none => ∀ x ∈ q.qMessages, suits deny x t k .lessequal = false
  | some i => ∃ pre m post, q.qMessages = pre ++ m::post ∧ i = pre.length ∧ suits deny m t k .lessequal = true ∧
      (∀ x ∈ pre, suits deny x t k .lessequal = true → m.mType < x.mType) ∧
      ∀ x ∈ post, suits deny x t k .lessequal = true → m.mType ≤ x.mType

end Results
end Linuxab.Ipc
