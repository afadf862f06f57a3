import Linuxab.Base.RoundRobin
import Linuxab.Bonding.RlbRuns

/-! How servers/bond_alb.c spreads the clients: `__rlb_next_rx_slave` goes around the fastest slaves that
can transmit, so a rebalance gives each of them its share of the clients. -/
namespace Linuxab.Bonding
open Linuxab.Base
variable {σ : Type} [DecidableEq σ]

namespace Slaves

def usable (S : Slaves σ) : List σ := S.list.filter S.canTx

/-- Those of them that none is faster than, in the order of the list. -/
def fastest (S : Slaves σ) : List σ := S.usable.filter fun s => S.usable.all fun t => S.speed t ≤ S.speed s

end Slaves

section Next
variable {S : Slaves σ} {r : σ} {rx : Option σ} {l : List σ} {best a : Option σ}

omit [DecidableEq σ] in
theorem faster_eq_better (S : Slaves σ) : faster S = better fun s => (S.speed s).toNat := by
  funext p s
  cases p with
  | none => rfl
  | some t => simp only [faster,better,UInt32.lt_iff_toNat_lt]

/-- Up to the slave that was chosen last, only `before` is looked for. -/
theorem foldl_nextRxSlaveBody_before (h : ∀ s ∈ l, S.canTx s = true → some s ≠ rx) :
    l.foldl (nextRxSlaveBody S rx) ⟨best,none,false⟩ = ⟨(l.filter S.canTx).foldl (faster S) best,none,false⟩ := by
  induction l generalizing best with
  | nil => rfl
  | cons s l ih =>
    obtain ⟨hs,hl⟩ := List.forall_mem_cons.mp h
    rw [List.foldl_cons,nextRxSlaveBody]
    cases hc : S.canTx s with
    | false => simpa [hc] using ih hl
    | true => simpa [hc,hs hc] using ih hl

/-- Behind it, only `rx_slave`. -/
theorem foldl_nextRxSlaveBody_after :
    l.foldl (nextRxSlaveBody S rx) ⟨best,a,true⟩ = ⟨best,(l.filter S.canTx).foldl (faster S) a,true⟩ := by
  induction l generalizing a with
  | nil => rfl
  | cons s l ih =>
    rw [List.foldl_cons,nextRxSlaveBody]
    cases hc : S.canTx s with
    | false => simpa [hc] using ih
    | true => simpa [hc] using ih

omit [DecidableEq σ] in
theorem mem_fastest {s : σ} :
    s ∈ S.fastest ↔ s ∈ S.usable ∧ ∀ t ∈ S.usable, (S.speed t).toNat ≤ (S.speed s).toNat := by
  simp [Slaves.fastest,UInt32.le_iff_toNat_le]

omit [DecidableEq σ] in
/-- All of the fastest slaves have the same speed. -/
theorem fastest_eq (hr : r ∈ S.fastest) :
    S.fastest = S.usable.filter fun s => (S.speed s).toNat = (S.speed r).toNat := by
  obtain ⟨hru,hr⟩ := mem_fastest.mp hr
  refine List.filter_congr fun s hs => ?_
  rw [Bool.eq_iff_iff,List.all_eq_true,decide_eq_true_eq]
  simp only [decide_eq_true_eq,UInt32.le_iff_toNat_le]
  exact ⟨fun h => le_antisymm (hr s hs) (h r hru),fun h t ht => h ▸ hr t ht⟩

omit [DecidableEq σ] in
theorem exists_mem_fastest (h : S.usable ≠ []) : ∃ s, s ∈ S.fastest := by
  obtain ⟨s,hs⟩ := exists_foldl_better (f := fun s => (S.speed s).toNat) h
  obtain ⟨pre,post,he,hpre,hpost⟩ := of_foldl_better hs
  refine ⟨s,mem_fastest.mpr ⟨by simp [he],fun t ht => ?_⟩⟩
  rw [he,List.mem_append,List.mem_cons] at ht
  obtain ht | rfl | ht := ht
  · exact (hpre t ht).le
  · exact le_rfl
  · exact hpost t ht

/-- Without a slave chosen before, the first of the fastest is chosen. -/
theorem rlbNextRxSlave_of_not_mem (hrx : ∀ s ∈ S.usable, some s ≠ rx) (h : S.usable ≠ []) :
    rlbNextRxSlave S rx = S.fastest.head? := by
  obtain ⟨r,hr⟩ := exists_mem_fastest h
  have hbefore : ∀ s ∈ S.list, S.canTx s = true → some s ≠ rx := fun s hs hc =>
    hrx s (List.mem_filter.mpr ⟨hs,hc⟩)
  have hmax := foldl_better_eq_head? (mem_fastest.mp hr).2 (by rw [← fastest_eq hr]; exact List.ne_nil_of_mem hr)
  rw [rlbNextRxSlave,foldl_nextRxSlaveBody_before hbefore,faster_eq_better,fastest_eq hr]
  exact hmax

/-- What the loop finds if the slave chosen before can transmit: the best up to it and the best behind it. -/
theorem foldl_nextRxSlaveBody {pre post : List σ} (hc : S.canTx r = true) (hr : r ∉ pre) :
    (pre ++ r::post).foldl (nextRxSlaveBody S (some r)) ⟨none,none,false⟩ =
      ⟨(pre.filter S.canTx ++ [r]).foldl (faster S) none,(post.filter S.canTx).foldl (faster S) none,true⟩ := by
  have hbefore : ∀ s ∈ pre, S.canTx s = true → some s ≠ some r := fun s hs _ he =>
    hr (Option.some.inj he ▸ hs)
  have hfound : ∀ best, nextRxSlaveBody S (some r) ⟨best,none,false⟩ r = ⟨faster S best r,none,true⟩ := fun best => by
    simp [nextRxSlaveBody,hc]
  rw [List.foldl_append,foldl_nextRxSlaveBody_before hbefore,List.foldl_cons,hfound,foldl_nextRxSlaveBody_after,
    List.foldl_append]
  rfl

omit [DecidableEq σ] in
theorem of_mem_filter_speed {s : σ} {m : ℕ} (h : s ∈ l.filter fun s => (S.speed s).toNat = m) :
    (S.speed s).toNat = m := by simpa using (List.mem_filter.mp h).2

omit [DecidableEq σ] in
/-- Of two lists with a fastest slave in one of them, the first fastest one of the second is chosen, and that
of the first list if there is none. -/
theorem choose_best {before behind : List σ} {m : ℕ} {p : σ → Bool} (hp : p = fun s => (S.speed s).toNat = m)
    (hbefore : ∀ s ∈ before, (S.speed s).toNat ≤ m) (hbehind : ∀ s ∈ behind, (S.speed s).toNat ≤ m)
    (hne : before.filter p ≠ [] ∨ behind.filter p ≠ []) :
    (match behind.foldl (faster S) none,before.foldl (faster S) none with
      | none,b => b
      | some a,none => some a
      | some a,some b => if S.speed a < S.speed b then some b else some a) =
        (behind.filter p).head?.or (before.filter p).head? := by
  subst hp
  rw [faster_eq_better]
  by_cases hnil : behind.filter (fun s => (S.speed s).toNat = m) = []
  · have hne := hne.resolve_right (not_not_intro hnil)
    obtain ⟨b,l,hb⟩ := List.exists_cons_of_ne_nil hne
    have hbm : (S.speed b).toNat = m := of_mem_filter_speed (hb ▸ List.mem_cons_self)
    rw [foldl_better_eq_head? hbefore hne,hnil,hb,List.head?_cons]
    cases ha : behind.foldl (better fun s => (S.speed s).toNat) none with
    | none => rfl
    | some a =>
      have hlt := foldl_better_lt hbehind hnil ha
      rw [← hbm,← UInt32.lt_iff_toNat_lt] at hlt
      exact if_pos hlt
  · rw [foldl_better_eq_head? hbehind hnil]
    obtain ⟨a,l,ha⟩ := List.exists_cons_of_ne_nil hnil
    have ham : (S.speed a).toNat = m := of_mem_filter_speed (ha ▸ List.mem_cons_self)
    rw [ha,List.head?_cons]
    cases hb : before.foldl (better fun s => (S.speed s).toNat) none with
    | none => rfl
    | some b =>
      obtain ⟨pre,post,he,-,-⟩ := of_foldl_better hb
      have hle := hbefore b (by simp [he])
      refine if_neg fun hlt => ?_
      rw [UInt32.lt_iff_toNat_lt,ham] at hlt
      omega

omit [DecidableEq σ] in
/-- The slaves that can transmit, up to the one chosen before and behind it. -/
theorem usable_eq {pre post : List σ} (hl : S.list = pre ++ r::post) (hc : S.canTx r = true) :
    S.usable = (pre.filter S.canTx ++ [r]) ++ post.filter S.canTx := by
  rw [Slaves.usable,hl,List.filter_append,List.filter_cons_of_pos hc,List.append_assoc]
  rfl

/-- What is chosen after a slave that can transmit. -/
theorem rlbNextRxSlave_of_mem {pre post : List σ} (hl : S.list = pre ++ r::post) (hc : S.canTx r = true) (hr : r ∉ pre)
    {t : σ} (ht : t ∈ S.fastest) {p : σ → Bool} (hp : p = fun s => (S.speed s).toNat = (S.speed t).toNat) :
    rlbNextRxSlave S (some r) =
      ((post.filter S.canTx).filter p).head?.or ((pre.filter S.canTx ++ [r]).filter p).head? := by
  have hmax := (mem_fastest.mp ht).2
  have hne : S.usable.filter p ≠ [] := by
    rw [hp,← fastest_eq ht]
    exact List.ne_nil_of_mem ht
  rw [usable_eq hl hc] at hmax hne
  rw [List.filter_append,ne_eq,List.append_eq_nil_iff,not_and_or] at hne
  rw [rlbNextRxSlave,hl,foldl_nextRxSlaveBody hc hr]
  exact choose_best hp (fun s hs => hmax s (List.mem_append.mpr (.inl hs)))
    (fun s hs => hmax s (List.mem_append.mpr (.inr hs))) hne

/-- Whatever was chosen before, a fastest slave is chosen. -/
theorem exists_rlbNextRxSlave (hS : S.list.Nodup) (h : S.usable ≠ []) (rx : Option σ) :
    ∃ k, k < S.fastest.length ∧ rlbNextRxSlave S rx = S.fastest[k]? := by
  obtain ⟨t,ht⟩ := exists_mem_fastest h
  have hmem : ∀ {a}, a ∈ S.fastest → rlbNextRxSlave S rx = some a →
      ∃ k, k < S.fastest.length ∧ rlbNextRxSlave S rx = S.fastest[k]? := fun ha he => by
    obtain ⟨k,hk,rfl⟩ := List.mem_iff_getElem.mp ha
    exact ⟨k,hk,by rw [he,List.getElem?_eq_getElem hk]⟩
  by_cases hrx : ∃ r ∈ S.usable, some r = rx
  · obtain ⟨r,hr,rfl⟩ := hrx
    obtain ⟨hrl,hc⟩ := List.mem_filter.mp hr
    obtain ⟨pre,post,hl⟩ := List.append_of_mem hrl
    have hout : r ∉ pre := fun hin => by
      rw [hl] at hS
      exact (List.nodup_append.mp hS).2.2 r hin r List.mem_cons_self rfl
    have hnext := rlbNextRxSlave_of_mem hl hc hout ht rfl
    have hF := fastest_eq ht
    rw [usable_eq hl hc,List.filter_append] at hF
    cases hb : (post.filter S.canTx).filter (fun s => (S.speed s).toNat = (S.speed t).toNat) with
    | cons a l =>
      rw [hb] at hnext
      exact hmem (by rw [hF,hb]; simp) hnext
    | nil =>
      rw [hb,List.append_nil] at hF
      rw [hb,← hF,List.head?_nil,Option.none_or,List.head?_eq_getElem?] at hnext
      exact ⟨0,List.length_pos_of_mem ht,hnext⟩
  · have hnext := rlbNextRxSlave_of_not_mem (fun s hs (he : some s = rx) => hrx ⟨s,hs,he⟩) h
    rw [List.head?_eq_getElem?] at hnext
    exact ⟨0,List.length_pos_of_mem ht,hnext⟩

/-- The fastest slaves take turns. -/
theorem rlbNextRxSlave_of_getElem? (hS : S.list.Nodup) {k : ℕ} (hk : S.fastest[k]? = some r) :
    rlbNextRxSlave S (some r) = S.fastest[(k+1) % S.fastest.length]? := by
  have hr : r ∈ S.fastest := List.mem_of_getElem? hk
  obtain ⟨hrl,hc⟩ := List.mem_filter.mp (mem_fastest.mp hr).1
  obtain ⟨pre,post,hl⟩ := List.append_of_mem hrl
  have hout : r ∉ pre := fun hin => by
    rw [hl] at hS
    exact (List.nodup_append.mp hS).2.2 r hin r List.mem_cons_self rfl
  let p : σ → Bool := fun s => (S.speed s).toNat = (S.speed r).toNat
  have hupto : (pre.filter S.canTx ++ [r]).filter p = (pre.filter S.canTx).filter p ++ [r] := by
    rw [List.filter_append,List.filter_cons_of_pos (by simp [p]),List.filter_nil]
  have hF : S.fastest = (pre.filter S.canTx).filter p ++ r::(post.filter S.canTx).filter p := by
    rw [fastest_eq hr,usable_eq hl hc,List.filter_append,hupto,List.append_assoc]
    rfl
  have hklen : k = ((pre.filter S.canTx).filter p).length := by
    have hnodup : S.fastest.Nodup := (hS.filter _).filter _
    refine (List.getElem?_inj (List.getElem?_eq_some_iff.mp hk).1 hnodup).mp (hk.trans ?_)
    rw [hF,List.getElem?_append_right le_rfl,Nat.sub_self]
    rfl
  rw [rlbNextRxSlave_of_mem hl hc hout hr (p := p) rfl,hupto,hF,hklen,getElem?_succ_mod]
  cases (pre.filter S.canTx).filter p <;> rfl

end Next

section Rebalance
variable {S : Slaves σ}

/-- Every client gets the slave whose turn it is. -/
theorem slave_mapAccum_rebalanceBody (hS : S.list.Nodup) {r : RlbFlags σ × Bool} {k : ℕ} (hk : k < S.fastest.length)
    (hr : rlbNextRxSlave S r.1.rxSlave = S.fastest[k]?) (cs : List (Client σ)) :
    (mapAccum (rebalanceBody S) r cs).2.map (·.slave) =
      (List.range cs.length).map fun j => S.fastest[(k+j) % S.fastest.length]? := by
  induction cs generalizing r k with
  | nil => rfl
  | cons c cs ih =>
    obtain ⟨a,ha⟩ : ∃ a, S.fastest[k]? = some a := ⟨_,List.getElem?_eq_getElem hk⟩
    rw [ha] at hr
    have hbody : (rebalanceBody S r c).2.slave = some a ∧ (rebalanceBody S r c).1.1.rxSlave = some a := by
      rw [rebalanceBody,hr]
      dsimp only
      split
      · split <;> exact ⟨rfl,rfl⟩
      · next heq => exact ⟨not_not.mp heq,rfl⟩
    have hnext := rlbNextRxSlave_of_getElem? hS ha
    rw [← hbody.2] at hnext
    have hrest := ih (Nat.mod_lt (k+1) (by omega)) hnext
    have hfirst : S.fastest[(k+0) % S.fastest.length]? = some a := by rw [Nat.add_zero,Nat.mod_eq_of_lt hk,ha]
    rw [mapAccum,List.map_cons,hrest,hbody.1,List.length_cons,List.range_succ_eq_map,List.map_cons,List.map_map,hfirst]
    congr 1
    refine List.map_congr_left fun j _ => ?_
    rw [Function.comp_apply,Nat.mod_add_mod,show k + 1 + j = k + j.succ by omega]

end Rebalance

namespace RlbInfo
variable {b : RlbInfo σ} {xs : List Index} {L : Index → List Index}

/-- The number of clients in the table. -/
def clientCount (b : RlbInfo σ) : ℕ := Finset.card {i | b.assigned i = true}

/-- The number of clients in the table that are on a slave. -/
def clientsOn (b : RlbInfo σ) (a : σ) : ℕ := Finset.card {i | b.assigned i = true ∧ (b.client i).slave = some a}

omit [DecidableEq σ] in
theorem Wf.clientCount (h : b.Wf xs L) : b.clientCount = xs.length := by
  rw [RlbInfo.clientCount,← List.toFinset_card_of_nodup h.nodup]
  congr 1
  ext i
  simp [h.mem_used]

theorem Wf.clientsOn (h : b.Wf xs L) (a : σ) : b.clientsOn a = ((xs.map b.client).map (·.slave)).count (some a) := by
  rw [RlbInfo.clientsOn,List.map_map,List.count_eq_countP,List.countP_map,List.countP_eq_length_filter,
    ← List.toFinset_card_of_nodup (h.nodup.filter _)]
  congr 1
  ext i
  simp [h.mem_used]

end RlbInfo

end Linuxab.Bonding
