import Mathlib.Data.List.Perm.Basic
import Linuxab.Ipc.MsgQueue

/-! The loops of msg.c over the senders, the receivers and the messages of a queue. -/
namespace Linuxab.Ipc
variable {τ μ : Type}

section Senders
variable [DecidableEq τ] (q : MsgQueue τ μ)

/-- `todo` are the senders that the loop has not come to, `moved` those it has moved to the tail. -/
theorem exists_ssWakeupLoop {todo moved : List (Sender τ)} (left : List (Sender τ)) (w : τ → Bool) {stop : Option τ}
    {n : ℕ} (hn : todo.length < n) (hstop : stop = moved.head?.map Sender.tsk)
    (hnodup : ((todo ++ moved).map Sender.tsk).Nodup) :
    ∃ l w', ssWakeupLoop q n stop left (todo ++ moved) w = some (l,w') ∧ l.Perm (left ++ (todo ++ moved)) ∧
      ∀ t, w' t = true ↔ w t = true ∨ ∃ x ∈ todo, x.tsk = t ∧ msgFitsInqueue q x.msgsz = true := by
  induction todo generalizing n stop left moved w with
  | nil =>
    obtain ⟨n,rfl⟩ := Nat.exists_eq_add_of_lt hn
    cases moved with
    | nil => exact ⟨left,w,by simp [ssWakeupLoop],by simp,by simp⟩
    | cons x moved => exact ⟨left ++ x::moved,w,by simp [ssWakeupLoop,hstop],by simp,by simp⟩
  | cons x todo ih =>
    obtain ⟨n,rfl⟩ : ∃ k, n = k + 1 := ⟨n - 1,by omega⟩
    have hn' : todo.length < n := by simpa using hn
    rw [List.cons_append,List.map_cons,List.nodup_cons] at hnodup
    obtain ⟨hx,hnodup⟩ := hnodup
    have hne : stop ≠ some x.tsk := by
      rintro rfl
      cases moved with
      | nil => cases hstop
      | cons y moved =>
        obtain hxy : x.tsk = y.tsk := Option.some.inj hstop
        exact hx (by simp [hxy])
    rw [List.cons_append,ssWakeupLoop,if_neg hne]
    cases hfit : msgFitsInqueue q x.msgsz with
    | true =>
      obtain ⟨l,w',hl,hperm,hw⟩ := ih (left ++ [x]) (Function.update w x.tsk true) hn' hstop hnodup
      refine ⟨l,w',by simpa using hl,by simpa using hperm,fun t => ?_⟩
      rw [hw,Function.update_apply]
      by_cases htx : t = x.tsk
      · simp [htx,hfit]
      · simp [htx,Ne.symm htx]
    | false =>
      rw [Bool.not_false,if_pos rfl]
      by_cases hrest : todo ++ moved = []
      · obtain ⟨rfl,rfl⟩ := List.append_eq_nil_iff.mp hrest
        exact ⟨left ++ [x],w,by simp,by simp,by simp [hfit]⟩
      · have hstop' : stop.or (some x.tsk) = (moved ++ [x]).head?.map Sender.tsk := by
          cases moved with
          | nil => simp [hstop]
          | cons y moved => simp [hstop]
        have hperm' : (todo ++ (moved ++ [x])).Perm (x::(todo ++ moved)) := by
          rw [← List.append_assoc]
          exact List.perm_append_singleton x (todo ++ moved)
        have hnodup' : ((todo ++ (moved ++ [x])).map Sender.tsk).Nodup := by
          rw [(hperm'.map Sender.tsk).nodup_iff]
          exact List.nodup_cons.mpr ⟨hx,hnodup⟩
        obtain ⟨l,w',hl,hperm,hw⟩ := ih left w hn' hstop' hnodup'
        refine ⟨l,w',?_,hperm.trans (hperm'.append_left left),fun t => ?_⟩
        · rw [← List.append_assoc] at hl
          rw [if_neg (by simpa using hrest)]
          exact hl
        · rw [hw]
          simp [hfit]

/-- `ss_wakeup` comes to an end, keeps the senders, and wakes those whose message fits. -/
theorem exists_ssWakeup (s : MsgSystem τ μ) (hnodup : (s.queue.qSenders.map Sender.tsk).Nodup) :
    ∃ l w, ssWakeup s = some { s.setSenders l with woken := w } ∧ l.Perm s.queue.qSenders ∧
      ∀ t, w t = true ↔ s.woken t = true ∨
        ∃ x ∈ s.queue.qSenders, x.tsk = t ∧ msgFitsInqueue s.queue x.msgsz = true := by
  have hnodup' : ((s.queue.qSenders ++ []).map Sender.tsk).Nodup := by rwa [List.append_nil]
  obtain ⟨l,w,hl,hperm,hw⟩ :=
    exists_ssWakeupLoop s.queue [] s.woken (Nat.lt_add_one s.queue.qSenders.length) rfl hnodup'
  rw [List.append_nil] at hl hperm
  change ssWakeupLoop s.queue _ none [] s.queue.qSenders s.woken = _ at hl
  exact ⟨l,w,by rw [ssWakeup,hl]; rfl,hperm,hw⟩

end Senders

section Receivers
variable [DecidableEq τ] (deny : τ → Msg μ → Bool)

/-- What `pipelined_send` does to a task: nothing, its buffer is too small, or it gets the message. -/
inductive Piped (m : Msg μ) (l rs : List (Receiver τ)) (r : Option τ) (s c : MsgSystem τ μ) (t : τ) : Prop
  | same (hr : r ≠ some t) (hmsg : c.rMsg t = s.rMsg t) (hwoken : c.woken t = s.woken t)
      (hlisted : t ∈ rs.map Receiver.rTsk ↔ t ∈ l.map Receiver.rTsk)
  | tooBig (hr : r ≠ some t) (hmsg : c.rMsg t = .error .e2big) (hwoken : c.woken t = true)
      (hlisted : t ∈ l.map Receiver.rTsk) (hgone : t ∉ rs.map Receiver.rTsk)
  | handed (hr : r = some t) (hmsg : c.rMsg t = .ok m) (hwoken : c.woken t = true)
      (hlisted : t ∈ l.map Receiver.rTsk) (hgone : t ∉ rs.map Receiver.rTsk)

theorem answer_of_ne {t u : τ} (h : u ≠ t) (r : Except Errno (Msg μ)) (s : MsgSystem τ μ) :
    (answer t r s).rMsg u = s.rMsg u ∧ (answer t r s).woken u = s.woken u :=
  ⟨Function.update_of_ne h _ _,Function.update_of_ne h _ _⟩

/-- The receivers that `pipelined_send` goes over. -/
structure PipedAll (m : Msg μ) (l rs : List (Receiver τ)) (r : Option τ) (s c : MsgSystem τ μ) : Prop where
  queue : c.queue = s.queue
  task : c.task = s.task
  sublist : rs.Sublist l
  each : ∀ t, Piped m l rs r s c t
  suited : ∀ t, r = some t → ∃ x ∈ l, x.rTsk = t ∧ suits deny m t x.rMsgtype x.rMode = true
  unsuited : r = none → ∀ x ∈ rs, suits deny m x.rTsk x.rMsgtype x.rMode = false

theorem pipelinedSend_spec (m : Msg μ) {l : List (Receiver τ)} (hnodup : (l.map Receiver.rTsk).Nodup)
    (s : MsgSystem τ μ) :
    PipedAll deny m l (pipelinedSend deny m l s).1 (pipelinedSend deny m l s).2.1 s (pipelinedSend deny m l s).2.2 := by
  induction l generalizing s with
  | nil => exact ⟨rfl,rfl,.slnil,fun t => .same nofun rfl rfl Iff.rfl,nofun,fun _ => nofun⟩
  | cons x l ih =>
    rw [List.map_cons,List.nodup_cons] at hnodup
    obtain ⟨hx,hnodup⟩ := hnodup
    rw [pipelinedSend]
    split
    · next hsuits =>
      split
      · -- the buffer of `x` is too small, and `x` is off the list
        have hrest := ih hnodup (answer x.rTsk (.error .e2big) s)
        have hgone : x.rTsk ∉ (pipelinedSend deny m l (answer x.rTsk (.error .e2big) s)).1.map Receiver.rTsk :=
          fun hin => hx ((hrest.sublist.map Receiver.rTsk).subset hin)
        refine ⟨hrest.queue,hrest.task,hrest.sublist.cons x,fun t => ?_,fun t ht => ?_,hrest.unsuited⟩
        · by_cases htx : t = x.rTsk
          · subst htx
            cases hrest.each x.rTsk with
            | same hr hmsg hwoken hlisted =>
              exact .tooBig hr (hmsg.trans (Function.update_self ..)) (hwoken.trans (Function.update_self ..))
                (by simp) hgone
            | tooBig hr hmsg hwoken hlisted _ => exact absurd hlisted hx
            | handed hr hmsg hwoken hlisted _ => exact absurd hlisted hx
          · have hmem : t ∈ (x::l).map Receiver.rTsk ↔ t ∈ l.map Receiver.rTsk := by simp [htx]
            obtain ⟨hmsg',hwoken'⟩ := answer_of_ne htx (.error .e2big) s
            cases hrest.each t with
            | same hr hmsg hwoken hlisted =>
              exact .same hr (hmsg.trans hmsg') (hwoken.trans hwoken') (hlisted.trans hmem.symm)
            | tooBig hr hmsg hwoken hlisted hg => exact .tooBig hr hmsg hwoken (hmem.mpr hlisted) hg
            | handed hr hmsg hwoken hlisted hg => exact .handed hr hmsg hwoken (hmem.mpr hlisted) hg
        · obtain ⟨y,hy,hyt,hys⟩ := hrest.suited t ht
          exact ⟨y,List.mem_cons_of_mem x hy,hyt,hys⟩
      · refine ⟨rfl,rfl,List.sublist_cons_self x l,fun t => ?_,fun t ht => ?_,nofun⟩
        · by_cases htx : t = x.rTsk
          · subst htx
            exact .handed rfl (Function.update_self ..) (Function.update_self ..) (by simp) hx
          · obtain ⟨hmsg',hwoken'⟩ := answer_of_ne htx (.ok m) s
            exact .same (fun h => htx (Option.some.inj h).symm) hmsg' hwoken' (by simp [htx])
        · obtain rfl := Option.some.inj ht
          exact ⟨x,List.mem_cons_self,rfl,hsuits⟩
    · next hsuits =>
      have hrest := ih hnodup s
      refine ⟨hrest.queue,hrest.task,hrest.sublist.cons_cons x,fun t => ?_,fun t ht => ?_,fun hr y hy => ?_⟩
      · by_cases htx : t = x.rTsk
        · subst htx
          cases hrest.each x.rTsk with
          | same hr hmsg hwoken hlisted => exact .same hr hmsg hwoken (by simp)
          | tooBig hr hmsg hwoken hlisted _ => exact absurd hlisted hx
          | handed hr hmsg hwoken hlisted _ => exact absurd hlisted hx
        · have hmem : ∀ k : List (Receiver τ), t ∈ (x::k).map Receiver.rTsk ↔ t ∈ k.map Receiver.rTsk := by simp [htx]
          cases hrest.each t with
          | same hr hmsg hwoken hlisted => exact .same hr hmsg hwoken ((hmem _).trans (hlisted.trans (hmem l).symm))
          | tooBig hr hmsg hwoken hlisted hg =>
            exact .tooBig hr hmsg hwoken ((hmem l).mpr hlisted) (mt (hmem _).mp hg)
          | handed hr hmsg hwoken hlisted hg =>
            exact .handed hr hmsg hwoken ((hmem l).mpr hlisted) (mt (hmem _).mp hg)
      · obtain ⟨y,hy,hyt,hys⟩ := hrest.suited t ht
        exact ⟨y,List.mem_cons_of_mem x hy,hyt,hys⟩
      · rcases List.mem_cons.mp hy with rfl | hy
        · exact Bool.eq_false_iff.mpr hsuits
        · exact hrest.unsuited hr y hy

end Receivers

section Messages
variable {deny : τ → Msg μ → Bool} {t : τ}

theorem suits_congr {mode : Search} {m m' : Msg μ} {k : ℤ} (htype : m.mType = m'.mType) (hdeny : deny t m = deny t m') :
    suits deny m t k mode = suits deny m' t k mode := by
  cases mode <;> simp [suits,testmsg,htype,hdeny]

/-- No message is found only if none suits. -/
theorem findMsgLoop_none {mode : Search} (hmode : mode ≠ .number) {i : ℕ} {count k : ℤ} {found : Option ℕ}
    {ms : List (Msg μ)} (h : findMsgLoop deny t mode i count k found ms = none) :
    found = none ∧ ∀ m ∈ ms, suits deny m t k mode = false := by
  induction ms generalizing i count k found with
  | nil => exact ⟨h,nofun⟩
  | cons m ms ih =>
    rw [findMsgLoop] at h
    split at h
    · split at h
      · exact absurd (ih h).1 nofun
      · simp at h
    · next hsuits =>
      obtain ⟨hfound,hms⟩ := ih h
      exact ⟨hfound,List.forall_mem_cons.mpr ⟨Bool.eq_false_iff.mpr hsuits,hms⟩⟩

/-- The message that is found suits, and it is the first one of its type if the answer of the security module
depends on the type only. -/
theorem findMsgLoop_some {mode : Search} {i j : ℕ} {count k : ℤ} {found : Option ℕ} {ms : List (Msg μ)}
    (h : findMsgLoop deny t mode i count k found ms = some j) :
    found = some j ∨ ∃ pre m post, ms = pre ++ m::post ∧ j = i + pre.length ∧ suits deny m t k mode = true ∧
      (mode ≠ .number → (∀ x y : Msg μ, x.mType = y.mType → deny t x = deny t y) → ∀ x ∈ pre, x.mType ≠ m.mType) := by
  induction ms generalizing i count k found with
  | nil => exact .inl h
  | cons x ms ih =>
    rw [findMsgLoop] at h
    split at h
    · next hsuits =>
      split at h
      · next hless =>
        obtain ⟨rfl,-⟩ := hless
        obtain hj | ⟨pre,m,post,rfl,rfl,hm,hfirst⟩ := ih h
        · exact .inr ⟨[],x,ms,rfl,by simpa using hj.symm,hsuits,fun _ _ => nofun⟩
        · have hlow : m.mType ≤ x.mType - 1 := by
            simp only [suits,testmsg,Bool.and_eq_true,decide_eq_true_eq] at hm
            exact hm.1
          have hk : x.mType ≤ k := by
            simp only [suits,testmsg,Bool.and_eq_true,decide_eq_true_eq] at hsuits
            exact hsuits.1
          refine .inr ⟨x::pre,m,post,rfl,by simp; omega,?_,fun hmode halike y hy => ?_⟩
          · simp only [suits,testmsg,Bool.and_eq_true,decide_eq_true_eq] at hm ⊢
            exact ⟨by omega,hm.2⟩
          · rcases List.mem_cons.mp hy with rfl | hy
            · omega
            · exact hfirst hmode halike y hy
      · split at h
        · next hnumber =>
          split at h
          · exact .inr ⟨[],x,ms,rfl,by simpa using h.symm,hsuits,fun _ _ => nofun⟩
          · obtain hj | ⟨pre,m,post,rfl,rfl,hm,-⟩ := ih h
            · exact .inl hj
            · exact .inr ⟨x::pre,m,post,rfl,by simp; omega,hm,fun hmode => absurd hnumber hmode⟩
        · exact .inr ⟨[],x,ms,rfl,by simpa using h.symm,hsuits,fun _ _ => nofun⟩
    · next hsuits =>
      obtain hj | ⟨pre,m,post,rfl,rfl,hm,hfirst⟩ := ih h
      · exact .inl hj
      · refine .inr ⟨x::pre,m,post,rfl,by simp; omega,hm,fun hmode halike y hy => ?_⟩
        rcases List.mem_cons.mp hy with rfl | hy
        · intro htype
          exact hsuits ((suits_congr htype (halike y m htype)).trans hm)
        · exact hfirst hmode halike y hy

theorem suits_lessequal_iff {m : Msg μ} {k : ℤ} :
    suits deny m t k .lessequal = true ↔ m.mType ≤ k ∧ deny t m = false := by
  simp [suits,testmsg]

/-- The search with a falling bound: the first message of the lowest type. -/
theorem findMsgLoop_lessequal {i j : ℕ} {count k : ℤ} {found : Option ℕ} {ms : List (Msg μ)}
    (hpos : ∀ m ∈ ms, 1 ≤ m.mType) (h : findMsgLoop deny t .lessequal i count k found ms = some j) :
    (found = some j ∧ ∀ x ∈ ms, suits deny x t k .lessequal = false) ∨
      ∃ pre m post, ms = pre ++ m::post ∧ j = i + pre.length ∧ suits deny m t k .lessequal = true ∧
        (∀ x ∈ pre, suits deny x t k .lessequal = true → m.mType < x.mType) ∧
        ∀ x ∈ post, suits deny x t k .lessequal = true → m.mType ≤ x.mType := by
  induction ms generalizing i count k found with
  | nil => exact .inl ⟨h,nofun⟩
  | cons x ms ih =>
    obtain ⟨hx,hpos⟩ := List.forall_mem_cons.mp hpos
    rw [findMsgLoop] at h
    split at h
    · next hsuits =>
      obtain ⟨hxk,hallowed⟩ := suits_lessequal_iff.mp hsuits
      split at h
      · -- the bound falls below the type of `x`, so that only a lower type replaces it
        have hbound : ∀ y, suits deny y t k .lessequal = true →
            suits deny y t (x.mType - 1) .lessequal = true ∨ x.mType ≤ y.mType := by
          intro y hy
          obtain ⟨-,hdeny⟩ := suits_lessequal_iff.mp hy
          by_cases hlow : y.mType ≤ x.mType - 1
          · exact .inl (suits_lessequal_iff.mpr ⟨hlow,hdeny⟩)
          · exact .inr (by omega)
        obtain ⟨hj,hnone⟩ | ⟨pre,m,post,rfl,rfl,hm,hpre,hpost⟩ := ih hpos h
        · refine .inr ⟨[],x,ms,rfl,by simpa using hj.symm,hsuits,nofun,fun y hy hys => ?_⟩
          exact (hbound y hys).resolve_left (Bool.eq_false_iff.mp (hnone y hy))
        · obtain ⟨hlow,hdeny⟩ := suits_lessequal_iff.mp hm
          refine .inr ⟨x::pre,m,post,rfl,by simp; omega,suits_lessequal_iff.mpr ⟨by omega,hdeny⟩,fun y hy hys => ?_,
            fun y hy hys => ?_⟩
          · rcases List.mem_cons.mp hy with rfl | hy
            · omega
            · obtain hys | hys := hbound y hys
              · exact hpre y hy hys
              · omega
          · obtain hys | hys := hbound y hys
            · exact hpost y hy hys
            · omega
      · next hone =>
        have hx1 : x.mType = 1 := by simpa using hone
        rw [if_neg nofun] at h
        refine .inr ⟨[],x,ms,rfl,by simpa using h.symm,hsuits,nofun,fun y hy _ => ?_⟩
        rw [hx1]
        exact hpos y hy
    · next hsuits =>
      obtain ⟨hj,hnone⟩ | ⟨pre,m,post,rfl,rfl,hm,hpre,hpost⟩ := ih hpos h
      · exact .inl ⟨hj,List.forall_mem_cons.mpr ⟨Bool.eq_false_iff.mpr hsuits,hnone⟩⟩
      · refine .inr ⟨x::pre,m,post,rfl,by simp; omega,hm,fun y hy hys => ?_,hpost⟩
        rcases List.mem_cons.mp hy with rfl | hy
        · exact absurd hys hsuits
        · exact hpre y hy hys

end Messages
end Linuxab.Ipc
