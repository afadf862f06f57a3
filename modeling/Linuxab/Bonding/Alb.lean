import Linuxab.Bonding.RlbRuns
import Linuxab.Bonding.Tlb

/-! The two tables of servers/bond_alb.c while slaves come and go, in any order of the sections under
`mode_lock` and of what happens to the slaves. A slave is released in three steps, as in
`__bond_release_one`: it is taken off the list, it is no longer the active one, and then
`bond_alb_deinit_slave` runs; after that its memory is freed. -/
namespace Linuxab.Bonding
open Linuxab.Base
variable {σ : Type}

/-- The slaves of the clients have the property `C`, and `rx_slave` has the property `R`. -/
structure ClientList.Within (s : ClientList σ) (C R : σ → Prop) : Prop where
  clients : ∀ c ∈ s.clients, ∀ a, c.slave = some a → C a
  rxSlave : ∀ a, s.rxSlave = some a → R a

/-- The slaves on the list have both properties, and the active one the first. -/
structure Slaves.Within (S : Slaves σ) (C R : σ → Prop) : Prop where
  list : ∀ a ∈ S.list, C a ∧ R a
  currActiveSlave : ∀ a, S.currActiveSlave = some a → C a

section Receive
variable {S : Slaves σ} {C R : σ → Prop} {s : ClientList σ}

theorem mem_of_faster {l : List σ} {p : Option σ} {x : σ} (hp : ∀ b, p = some b → b ∈ l) (hx : x ∈ l) :
    ∀ b, faster S p x = some b → b ∈ l := by
  intro b hb
  cases p with
  | none =>
    obtain rfl := Option.some.inj hb
    exact hx
  | some t =>
    rw [faster] at hb
    split at hb
    · obtain rfl := Option.some.inj hb
      exact hx
    · exact hp b hb

/-- The next slave is one of the list. -/
theorem mem_of_rlbNextRxSlave [DecidableEq σ] {rx : Option σ} {a : σ} (h : rlbNextRxSlave S rx = some a) :
    a ∈ S.list := by
  obtain ⟨hbefore,hrx⟩ := List.foldlRecOn
    (motive := fun r : RxSearch σ => (∀ b, r.before = some b → b ∈ S.list) ∧ ∀ b, r.rxSlave = some b → b ∈ S.list)
    S.list (nextRxSlaveBody S rx) (b := ⟨none,none,false⟩) ⟨nofun,nofun⟩ fun r hr x hx => by
      rw [nextRxSlaveBody]
      split
      · exact hr
      · have hstep : (∀ b, (if !r.found then { r with before := faster S r.before x }
            else { r with rxSlave := faster S r.rxSlave x }).before = some b → b ∈ S.list) ∧
            ∀ b, (if !r.found then { r with before := faster S r.before x }
              else { r with rxSlave := faster S r.rxSlave x }).rxSlave = some b → b ∈ S.list := by
          split
          · exact ⟨mem_of_faster hr.1 hx,hr.2⟩
          · exact ⟨hr.1,mem_of_faster hr.2 hx⟩
        dsimp only
        split <;> exact hstep
  rw [rlbNextRxSlave] at h
  split at h
  · exact hbefore a h
  · next heq _ =>
    obtain rfl := Option.some.inj h
    exact hrx _ heq
  · next heq heq' =>
    split at h
    · obtain rfl := Option.some.inj h
      exact hbefore _ heq'
    · obtain rfl := Option.some.inj h
      exact hrx _ heq

namespace ClientList.Within

theorem mono (h : s.Within C R) {C' R' : σ → Prop} (hC : ∀ a, C a → C' a) (hR : ∀ a, R a → R' a) : s.Within C' R' :=
  ⟨fun c hc a ha => hC a (h.clients c hc a ha),fun a ha => hR a (h.rxSlave a ha)⟩

theorem filter (h : s.Within C R) (p : Client σ → Bool) : (s.filter p).Within C R :=
  ⟨fun c hc => h.clients c (List.mem_filter.mp hc).1,h.rxSlave⟩

theorem put (h : s.Within C R) {c : Client σ} (hc : ∀ a, c.slave = some a → C a) : (s.put c).Within C R := by
  rw [ClientList.put]
  split
  · refine ⟨fun d hd => ?_,h.rxSlave⟩
    obtain ⟨e,he,rfl⟩ := List.mem_map.mp hd
    split
    · exact hc
    · exact h.clients e he
  · exact ⟨List.forall_mem_cons.mpr ⟨hc,h.clients⟩,h.rxSlave⟩

/-- Loops that leave the slaves of the clients alone. -/
theorem clients_mapAccum {ρ : Type} {body : ρ → Client σ → ρ × Client σ} (h : s.Within C R)
    (hbody : ∀ r c, (body r c).2.slave = c.slave) (r : ρ) :
    ∀ c ∈ (mapAccum body r s.clients).2, ∀ a, c.slave = some a → C a :=
  (mapAccum_forall (P := fun _ => True) (fun r c _ hc => ⟨trivial,by rwa [hbody]⟩) trivial h.clients).2

theorem updateFromArp (h : s.Within C R) (arp : ArpPkt) : (s.updateFromArp arp).Within C R := by
  refine ⟨fun d hd => ?_,h.rxSlave⟩
  obtain ⟨c,hc,rfl⟩ := List.mem_map.mp hd
  split
  · exact h.clients c hc
  · exact h.clients c hc

theorem arpRecv (h : s.Within C R) (op : ArpOp) (arp : ArpPkt) : (s.arpRecv op arp).Within C R := by
  cases op with
  | reply => exact (h.filter _).updateFromArp arp
  | request => exact h.filter _
  | other => exact h.filter _

theorem reqUpdateSubnet (h : s.Within C R) (srcIp : UInt32) :
    (s.sweep (reqUpdateSubnetClientsBody S srcIp)).Within C R := by
  have hbody : ∀ f c, (reqUpdateSubnetClientsBody S srcIp f c).2.slave = c.slave ∧
      (reqUpdateSubnetClientsBody S srcIp f c).1.rxSlave = f.rxSlave := by
    intro f c
    rw [reqUpdateSubnetClientsBody]
    split
    · exact ⟨rfl,rfl⟩
    · split <;> exact ⟨rfl,rfl⟩
  refine ⟨h.clients_mapAccum (fun f c => (hbody f c).1) _,?_⟩
  exact (mapAccum_forall (P := fun f : RlbFlags σ => ∀ a, f.rxSlave = some a → R a) (Q := fun _ => True)
    (R := fun _ => True) (fun f c hf _ => ⟨by rwa [(hbody f c).2],trivial⟩) h.rxSlave fun _ _ => trivial).1

variable [DecidableEq σ]

theorem reqUpdateSlaveClients (h : s.Within C R) (P : RlbParams) (slave : σ) :
    (s.reqUpdateSlaveClients P slave).Within C R := by
  refine ⟨h.clients_mapAccum (fun r c => ?_) _,fun a ha => h.rxSlave a ?_⟩
  · rw [reqUpdateSlaveClientsBody]
    split <;> rfl
  · rw [ClientList.reqUpdateSlaveClients,RlbFlags.fasten] at ha
    dsimp only at ha
    split at ha <;> exact ha

omit [DecidableEq σ] in
theorem updateRxClients (h : s.Within C R) (P : RlbParams) : (s.updateRxClients P S).1.Within C R := by
  have hbody : ∀ r c, (updateRxClientsBody P S r c).2.slave = c.slave ∧
      (updateRxClientsBody P S r c).1.1.rxSlave = r.1.rxSlave := by
    intro r c
    rw [updateRxClientsBody]
    split
    · dsimp only
      split <;> exact ⟨rfl,rfl⟩
    · exact ⟨rfl,rfl⟩
  refine ⟨h.clients_mapAccum (fun r c => (hbody r c).1) _,?_⟩
  exact (mapAccum_forall (P := fun r : RlbFlags σ × List (ArpReply σ) => ∀ a, r.1.rxSlave = some a → R a)
    (Q := fun _ => True) (R := fun _ => True) (fun r c hr _ => ⟨by rwa [(hbody r c).2],trivial⟩) h.rxSlave
    fun _ _ => trivial).1

/-- Clients of a slave that is cleared go to a slave of the list. -/
theorem clearSlave (h : s.Within C R) {C' : σ → Prop} {slave : σ} (hsub : ∀ a, C a → a = slave ∨ C' a)
    (hS : ∀ a ∈ S.list, C' a ∧ R a) (P : RlbParams) : (s.sweep (clearSlaveBody P S slave)).Within C' R := by
  have hloop := mapAccum_forall (f := clearSlaveBody P S slave)
    (P := fun f : RlbFlags σ => ∀ a, f.rxSlave = some a → R a)
    (Q := fun c : Client σ => ∀ a, c.slave = some a → C a)
    (R := fun c : Client σ => ∀ a, c.slave = some a → C' a) (fun f c hf hc => by
      rw [clearSlaveBody]
      split
      · split
        · next hnext =>
          have hnew := hS _ (mem_of_rlbNextRxSlave hnext)
          dsimp only
          split <;> exact ⟨fun b hb => Option.some.inj hb ▸ hnew.2,fun b hb => Option.some.inj hb ▸ hnew.1⟩
        · exact ⟨hf,fun b hb => (Option.some_ne_none b hb.symm).elim⟩
      · next hne =>
        refine ⟨hf,fun a ha => (hsub a (hc a ha)).resolve_left fun he => hne ?_⟩
        rw [ha,he]) h.rxSlave h.clients
  exact ⟨hloop.2,hloop.1⟩

theorem rebalance (h : s.Within C R) (hS : ∀ a ∈ S.list, C a ∧ R a) : (s.rebalance S).Within C R := by
  have hloop := mapAccum_forall (f := rebalanceBody S)
    (P := fun r : RlbFlags σ × Bool => ∀ a, r.1.rxSlave = some a → R a)
    (Q := fun c : Client σ => ∀ a, c.slave = some a → C a)
    (R := fun c : Client σ => ∀ a, c.slave = some a → C a) (fun r c hr hc => by
      rw [rebalanceBody]
      split
      · exact ⟨hr,hc⟩
      · next hnext =>
        have hnew := hS _ (mem_of_rlbNextRxSlave hnext)
        have hrx : ∀ b, some _ = some b → R b := fun b hb => Option.some.inj hb ▸ hnew.2
        dsimp only
        split
        · split <;> exact ⟨hrx,fun b hb => Option.some.inj hb ▸ hnew.1⟩
        · exact ⟨hrx,hc⟩) (s := (s.toRlbFlags,false)) h.rxSlave h.clients
  refine ⟨hloop.2,fun a ha => hloop.1 a ?_⟩
  rw [ClientList.rebalance] at ha
  dsimp only at ha
  split at ha <;> exact ha

theorem assign (h : s.Within C R) (hS : ∀ a ∈ S.list, C a ∧ R a) (tag : Option UInt16) (arp : ArpPkt) :
    (s.assign S tag arp).2.Within C R := by
  rw [ClientList.assign]
  cases hnext : rlbNextRxSlave S s.rxSlave with
  | none => exact h
  | some a =>
    have hnew := hS a (mem_of_rlbNextRxSlave hnext)
    exact put (s := { s with rxSlave := some a, rxNtt := isValidEtherAddr arp.macDst || s.rxNtt })
      ⟨h.clients,fun b hb => Option.some.inj hb ▸ hnew.2⟩ fun b hb => Option.some.inj hb ▸ hnew.1

theorem chooseChannel (h : s.Within C R) (hS : S.Within C R) (P : RlbParams) (tag : Option UInt16) (arp : ArpPkt) :
    (s.chooseChannel P S tag arp).2.1.Within C R := by
  rw [ClientList.chooseChannel]
  cases hf : s.clients.find? (fun d => ipHash d.ipDst = ipHash arp.ipDst) with
  | none => exact h.assign hS.list tag arp
  | some c =>
    have hc := h.clients c (List.mem_of_find?_eq_some hf)
    dsimp only
    split
    · cases hslave : c.slave with
      | some a => exact h.put (hslave ▸ hc)
      | none => exact (h.put (hslave ▸ hc)).assign hS.list tag arp
    · cases hcurr : S.currActiveSlave with
      | none => exact h.assign hS.list tag arp
      | some a =>
        dsimp only
        split
        · exact (h.put (hcurr ▸ hS.currActiveSlave)).assign hS.list tag arp
        · exact h.assign hS.list tag arp

theorem arpXmit (h : s.Within C R) (hS : S.Within C R) (P : RlbParams) (op : ArpOp) (tag : Option UInt16)
    (arp : ArpPkt) : (s.arpXmit P S op tag arp).1.Within C R := by
  have hchoose := h.chooseChannel hS P tag arp
  cases op with
  | reply => exact hchoose
  | request =>
    exact reqUpdateSubnet (s := { (s.chooseChannel P S tag arp).2.1 with rlbUpdateDelayCounter := P.updateDelay })
      ⟨hchoose.clients,hchoose.rxSlave⟩ arp.ipSrc
  | other => exact h

omit [DecidableEq σ] in
theorem monitorUpdate (h : s.Within C R) (P : RlbParams) : (s.monitorUpdate P S).1.Within C R := by
  have hupdate := h.updateRxClients (S := S) P
  rw [ClientList.monitorUpdate]
  split
  · split
    · exact ⟨h.clients,h.rxSlave⟩
    · dsimp only
      split <;> exact ⟨hupdate.clients,hupdate.rxSlave⟩
  · exact h

theorem monitor (h : s.Within C R) (hS : S.Within C R) (P : RlbParams) : (s.monitor P S).1.Within C R := by
  rw [ClientList.monitor]
  split
  · exact h
  · split
    · exact (rebalance (s := { s with rlbRebalance := false }) ⟨h.clients,h.rxSlave⟩ hS.list).monitorUpdate P
    · exact h.monitorUpdate P

end ClientList.Within
end Receive

/-- How far a slave is. Of a slave that is `absent` the memory is free, or it never was a slave. -/
inductive Phase
  | absent
  | attached
  | unlinked
  | txCleared
  | rxForgotten
  | rxCleared
  deriving DecidableEq

/-- The phases in which the transmit table may name a slave. -/
def Phase.inTx (p : Phase) : Bool := p = .attached ∨ p = .unlinked

/-- The phases in which `rx_slave` may be a slave. -/
def Phase.inRx (p : Phase) : Bool := p = .attached ∨ p = .unlinked ∨ p = .txCleared

/-- The phases in which a client may be on a slave. -/
def Phase.inClients (p : Phase) : Bool := p.inRx ∨ p = .rxForgotten

/-- The bond with the two tables. -/
structure Alb (σ : Type) where
  slaves : Slaves σ
  tlb : TlbInfo σ
  rlb : RlbInfo σ
  phase : σ → Phase

/-- What happens, one section under `mode_lock` or one write outside of it at a time. -/
inductive AlbOp (σ : Type)
  | attach (slave : σ)
  | unlink (slave : σ)
  | setActive (slave : Option σ)
  | deinitTx (slave : σ)
  | deinitForget (slave : σ)
  | deinitRx (slave : σ)
  | free (slave : σ)
  | environment (canTx : σ → Bool) (speed : σ → UInt32) (devAddr : σ → Mac) (bondAddr : Mac)
  | tlbClearSlave (slave : σ) (saveLoad : Bool)
  | setLoad (slave : σ)
  | addUnbalanced (len : UInt32)
  | tlbChooseChannel (hashIndex : Index) (skbLen : UInt32)
  | arpXmit (op : ArpOp) (tag : Option UInt16) (arp : ArpPkt)
  | arpRecv (op : ArpOp) (arp : ArpPkt)
  | monitor
  | macChanged (slave : σ)
  | clearSlave (slave : σ)
  | orderRebalance
  | clearVlan (vlanId : UInt16)
  | close
  | reopen

section System
variable [DecidableEq σ]

/-- The receive side of an event. -/
def Alb.receive (P : RlbParams) (a : Alb σ) (op : RlbOp σ) : Option (Alb σ) :=
  (rlbStep P a.rlb op).map fun r => { a with rlb := r.1 }

def Alb.setPhase (a : Alb σ) (s : σ) (p : Phase) : Alb σ := { a with phase := Function.update a.phase s p }

def albStep (P : RlbParams) (interval : UInt32) (a : Alb σ) : AlbOp σ → Option (Alb σ)
  | .attach s =>
    some ({ a with
      slaves := { a.slaves with list := a.slaves.list ++ [s] }
      tlb := tlbInitSlave s a.tlb
      rlb := { a.rlb with rlbRebalance := true } }.setPhase s .attached)
  | .unlink s => some ({ a with slaves := { a.slaves with list := a.slaves.list.filter (· ≠ s) } }.setPhase s .unlinked)
  | .setActive s => some { a with slaves := { a.slaves with currActiveSlave := s } }
  -- the three parts of `bond_alb_deinit_slave`
  | .deinitTx s => (tlbClearSlave interval s false a.tlb).map fun t => { a with tlb := t }.setPhase s .txCleared
  | .deinitForget s => (a.receive P .forgetRxSlave).map (·.setPhase s .rxForgotten)
  | .deinitRx s => (a.receive P (.clearSlave a.slaves s)).map (·.setPhase s .rxCleared)
  | .free s => some (a.setPhase s .absent)
  | .environment canTx speed devAddr bondAddr =>
    some { a with slaves := { a.slaves with canTx, speed, devAddr, bondAddr } }
  | .tlbClearSlave s saveLoad => (tlbClearSlave interval s saveLoad a.tlb).map fun t => { a with tlb := t }
  | .setLoad s =>
    some { a with tlb := { a.tlb with
      load := Function.update a.tlb.load s (a.tlb.unbalancedLoad / interval), unbalancedLoad := 0 } }
  | .addUnbalanced len => some { a with tlb := { a.tlb with unbalancedLoad := a.tlb.unbalancedLoad + len } }
  | .tlbChooseChannel i len => (tlbChooseChannel a.slaves i len a.tlb).map fun r => { a with tlb := r.2 }
  | .arpXmit op tag arp => a.receive P (.arpXmit a.slaves op tag arp)
  | .arpRecv op arp => a.receive P (.arpRecv op arp)
  | .monitor => a.receive P (.monitor a.slaves)
  | .macChanged s => a.receive P (.macChanged s)
  | .clearSlave s => a.receive P (.clearSlave a.slaves s)
  | .orderRebalance => a.receive P .orderRebalance
  | .clearVlan vlanId => a.receive P (.clearVlan vlanId)
  -- an empty receive table stands for the one that is freed
  | .close => { a with tlb := tlbDeinitialize a.tlb }.receive P .reopen
  | .reopen => { a with tlb := tlbInitialize interval a.tlb }.receive P .reopen

/-- The callers' side: slaves go through their phases in order, a slave is made active only while it is on the list,
its deinitialisation begins only when it is not the active one, and packets are sent only while the bond is
open. -/
def Alb.Allows (a : Alb σ) : AlbOp σ → Prop
  | .attach s => a.phase s = .absent
  | .unlink s => a.phase s = .attached
  | .setActive s => ∀ t, s = some t → t ∈ a.slaves.list
  | .deinitTx s => a.phase s = .unlinked ∧ a.slaves.currActiveSlave ≠ some s
  | .deinitForget s => a.phase s = .txCleared
  | .deinitRx s => a.phase s = .rxForgotten
  | .free s => a.phase s = .rxCleared
  | .tlbChooseChannel _ _ => a.tlb.txHashtbl.isSome
  | _ => True

/-- What holds all the time. -/
structure Alb.Safe (a : Alb σ) : Prop where
  list : ∀ s ∈ a.slaves.list, a.phase s = .attached
  currActiveSlave : ∀ s, a.slaves.currActiveSlave = some s → (a.phase s).inTx
  linked : a.tlb.Linked
  tlb : ∀ s, a.tlb.Uses s → (a.phase s).inTx
  rlb : ∃ c, a.rlb.Shows c ∧ c.Within (fun s => (a.phase s).inClients) fun s => (a.phase s).inRx

variable {P : RlbParams} {interval : UInt32} {a : Alb σ}

theorem Phase.inClients_of_inRx {p : Phase} (h : p.inRx) : p.inClients := by simp [inClients,h]

theorem Phase.inRx_of_inTx {p : Phase} (h : p.inTx) : p.inRx := by
  cases p <;> first | rfl | cases h

/-- A property of the phases of some slaves, when one of them moves on. -/
theorem forall_phase {phase : σ → Phase} {s : σ} {p : Phase} {Q : σ → Prop} {F : Phase → Bool}
    (hs : Q s → F p) (h : ∀ x, Q x → F (phase x)) (x : σ) (hx : Q x) : F (Function.update phase s p x) := by
  by_cases hxs : x = s
  · subst hxs
    rw [Function.update_self]
    exact hs hx
  · rw [Function.update_of_ne hxs]
    exact h x hx

omit [DecidableEq σ] in
theorem Alb.Safe.slaves (h : a.Safe) :
    a.slaves.Within (fun s => (a.phase s).inClients) fun s => (a.phase s).inRx where
  list s hs := by
    rw [h.list s hs]
    exact ⟨rfl,rfl⟩
  currActiveSlave s hs := Phase.inClients_of_inRx (Phase.inRx_of_inTx (h.currActiveSlave s hs))

/-- Events on the receive side that keep the slaves of the table within the same phases. -/
theorem Alb.Safe.receive (h : a.Safe) {op : RlbOp σ}
    (hop : ∀ c : ClientList σ, c.Within (fun s => (a.phase s).inClients) (fun s => (a.phase s).inRx) →
      (c.step P op).1.Within (fun s => (a.phase s).inClients) fun s => (a.phase s).inRx) :
    ∃ a', a.receive P op = some a' ∧ a'.Safe := by
  obtain ⟨c,hc,hw⟩ := h.rlb
  obtain ⟨b,hb,hc'⟩ := shows_rlbStep P op hc
  have hsafe : Alb.Safe { a with rlb := b } := ⟨h.list,h.currActiveSlave,h.linked,h.tlb,_,hc',hop c hw⟩
  exact ⟨_,by rw [Alb.receive,hb]; rfl,hsafe⟩

theorem Alb.Safe.attach (h : a.Safe) {s : σ} (hs : a.phase s = .absent) :
    ∃ a', albStep P interval a (.attach s) = some a' ∧ a'.Safe := by
  refine ⟨_,rfl,⟨fun x hx => ?_,?_,fun t ht => ⟨(h.linked t ht).blank,fun i x hx => ?_⟩,?_,?_⟩⟩
  · obtain hold | hnew := List.mem_append.mp hx
    · have hne : x ≠ s := by
        rintro rfl
        rw [h.list x hold] at hs
        cases hs
      exact (Function.update_of_ne hne _ _).trans (h.list x hold)
    · rw [List.mem_singleton.mp hnew]
      exact Function.update_self ..
  · exact forall_phase (fun _ => rfl) h.currActiveSlave
  · -- no entry names a slave that is not there
    have hne : x ≠ s := by
      rintro rfl
      have htx := h.tlb x ⟨t,i,ht,hx⟩
      rw [hs] at htx
      cases htx
    have hhead : (tlbInitSlave s a.tlb).head x = a.tlb.head x := Function.update_of_ne hne _ _
    exact hhead ▸ (h.linked t ht).reaches i x hx
  · exact forall_phase (fun _ => rfl) h.tlb
  · obtain ⟨c,hc,hw⟩ := h.rlb
    refine ⟨_,hc.withFlags { a.rlb.toRlbFlags with rlbRebalance := true },fun d hd => ?_,?_⟩
    · exact forall_phase (Q := fun x => d.slave = some x) (fun _ => rfl) (hw.clients d hd)
    · rw [← hc.flags]
      exact forall_phase (Q := fun x => c.rxSlave = some x) (fun _ => rfl) hw.rxSlave

/-- A slave moves on to a phase in which what still names it may do so. -/
theorem Alb.Safe.setPhase (h : a.Safe) {s : σ} {p : Phase} (hlist : s ∉ a.slaves.list)
    (hcurr : a.slaves.currActiveSlave = some s → p.inTx) (htlb : a.tlb.Uses s → p.inTx)
    (hrlb : ∃ c, a.rlb.Shows c ∧ c.Within (fun x => (Function.update a.phase s p x).inClients)
      fun x => (Function.update a.phase s p x).inRx) : (a.setPhase s p).Safe where
  list x hx := (Function.update_of_ne (ne_of_mem_of_not_mem hx hlist) _ _).trans (h.list x hx)
  currActiveSlave := forall_phase hcurr h.currActiveSlave
  linked := h.linked
  tlb := forall_phase htlb h.tlb
  rlb := hrlb

omit [DecidableEq σ] in
theorem Alb.Safe.not_mem_list (h : a.Safe) {s : σ} (hs : a.phase s ≠ .attached) : s ∉ a.slaves.list :=
  fun hin => hs (h.list s hin)

omit [DecidableEq σ] in
/-- The transmit side does not name a slave that is past its first two phases. -/
theorem Alb.Safe.not_named (h : a.Safe) {s : σ} (hs : (a.phase s).inTx = false) :
    a.slaves.currActiveSlave ≠ some s ∧ ¬a.tlb.Uses s := by
  constructor
  · intro he
    rw [h.currActiveSlave s he] at hs
    cases hs
  · intro hu
    rw [h.tlb s hu] at hs
    cases hs

/-- What the receive table names when a slave moves on that it does not name. -/
theorem ClientList.Within.update {c : ClientList σ} {phase : σ → Phase} {s : σ} {p : Phase}
    (h : c.Within (fun x => (phase x).inClients) fun x => (phase x).inRx)
    (hC : (phase s).inClients → p.inClients) (hR : (phase s).inRx → p.inRx) :
    c.Within (fun x => (Function.update phase s p x).inClients) fun x => (Function.update phase s p x).inRx :=
  h.mono (forall_phase hC fun _ => id) (forall_phase hR fun _ => id)

theorem Alb.Safe.unlink (h : a.Safe) (s : σ) :
    ∃ a', albStep P interval a (.unlink s) = some a' ∧ a'.Safe := by
  obtain ⟨c,hc,hw⟩ := h.rlb
  have hcut : Alb.Safe { a with slaves := { a.slaves with list := a.slaves.list.filter (· ≠ s) } } :=
    ⟨fun x hx => h.list x (List.mem_filter.mp hx).1,h.currActiveSlave,h.linked,h.tlb,h.rlb⟩
  refine ⟨_,rfl,hcut.setPhase (fun hin => ?_) (fun _ => rfl) (fun _ => rfl) ⟨c,hc,?_⟩⟩
  · simp at hin
  · exact hw.update (fun _ => rfl) fun _ => rfl

theorem Alb.Safe.deinitTx (h : a.Safe) {s : σ} (hs : a.phase s = .unlinked)
    (hcurr : a.slaves.currActiveSlave ≠ some s) :
    ∃ a', albStep P interval a (.deinitTx s) = some a' ∧ a'.Safe := by
  obtain ⟨t,ht,hlinked,huses⟩ := exists_tlbClearSlave h.linked interval s false
  obtain ⟨c,hc,hw⟩ := h.rlb
  have hclear : Alb.Safe { a with tlb := t } :=
    ⟨h.list,h.currActiveSlave,hlinked,fun x hx => h.tlb x (huses x hx).2,h.rlb⟩
  refine ⟨_,by rw [albStep,ht]; rfl,hclear.setPhase (h.not_mem_list (by rw [hs]; nofun)) (fun he => absurd he hcurr)
    (fun hu => absurd rfl (huses s hu).1) ⟨c,hc,hw.update (fun _ => rfl) fun _ => rfl⟩⟩

theorem Alb.Safe.deinitForget (h : a.Safe) {s : σ} (hs : a.phase s = .txCleared) :
    ∃ a', albStep P interval a (.deinitForget s) = some a' ∧ a'.Safe := by
  obtain ⟨c,hc,hw⟩ := h.rlb
  have hflags := hc.withFlags { a.rlb.toRlbFlags with rxSlave := none }
  have hforget : Alb.Safe { a with rlb := { a.rlb with rxSlave := none } } :=
    ⟨h.list,h.currActiveSlave,h.linked,h.tlb,_,hflags,hw.clients,nofun⟩
  obtain ⟨hcurr,huses⟩ := h.not_named (s := s) (by rw [hs]; rfl)
  refine ⟨_,rfl,hforget.setPhase (h.not_mem_list (by rw [hs]; nofun)) (fun he => absurd he hcurr)
    (fun hu => absurd hu huses) ⟨_,hflags,?_,nofun⟩⟩
  exact fun d hd => forall_phase (Q := fun x => d.slave = some x) (fun _ => rfl) (hw.clients d hd)

theorem Alb.Safe.deinitRx (h : a.Safe) {s : σ} (hs : a.phase s = .rxForgotten) :
    ∃ a', albStep P interval a (.deinitRx s) = some a' ∧ a'.Safe := by
  obtain ⟨c,hc,hw⟩ := h.rlb
  obtain ⟨b,hb,hshows⟩ := shows_rlbStep P (.clearSlave a.slaves s) hc
  have hout : s ∉ a.slaves.list := h.not_mem_list (by rw [hs]; nofun)
  have hw' : (c.step P (.clearSlave a.slaves s)).1.Within
      (fun x => (Function.update a.phase s .rxCleared x).inClients)
      fun x => (Function.update a.phase s .rxCleared x).inRx := by
    have hsub : ∀ x, (a.phase x).inClients = true →
        x = s ∨ (Function.update a.phase s .rxCleared x).inClients = true := fun x hx => by
      by_cases hxs : x = s
      · exact .inl hxs
      · rw [Function.update_of_ne hxs]
        exact .inr hx
    have hclear := hw.clearSlave hsub (S := a.slaves) (fun x hx => ?_) P
    · refine hclear.mono (fun _ => id) (forall_phase (fun hrx => ?_) fun _ => id)
      rw [hs] at hrx
      cases hrx
    · rw [Function.update_of_ne (ne_of_mem_of_not_mem hx hout)]
      exact h.slaves.list x hx
  have hrlb : Alb.Safe { a with rlb := b } := by
    refine ⟨h.list,h.currActiveSlave,h.linked,h.tlb,_,hshows,?_⟩
    exact hw.clearSlave (fun _ hx => .inr hx) h.slaves.list P
  obtain ⟨hcurr,huses⟩ := h.not_named (s := s) (by rw [hs]; rfl)
  exact ⟨_,by rw [albStep,Alb.receive,hb]; rfl,hrlb.setPhase hout (fun he => absurd he hcurr)
    (fun hu => absurd hu huses) ⟨_,hshows,hw'⟩⟩

theorem Alb.Safe.free (h : a.Safe) {s : σ} (hs : a.phase s = .rxCleared) :
    ∃ a', albStep P interval a (.free s) = some a' ∧ a'.Safe := by
  obtain ⟨c,hc,hw⟩ := h.rlb
  obtain ⟨hcurr,huses⟩ := h.not_named (s := s) (by rw [hs]; rfl)
  refine ⟨_,rfl,h.setPhase (h.not_mem_list (by rw [hs]; nofun)) (fun he => absurd he hcurr)
    (fun hu => absurd hu huses) ⟨c,hc,hw.update (fun hin => ?_) fun hin => ?_⟩⟩
  · rw [hs] at hin
    cases hin
  · rw [hs] at hin
    cases hin

/-- Every event that the callers may bring about is handled, and the tables stay safe. -/
theorem Alb.Safe.step (h : a.Safe) (P : RlbParams) (interval : UInt32) {op : AlbOp σ} (hop : a.Allows op) :
    ∃ a', albStep P interval a op = some a' ∧ a'.Safe := by
  cases op with
  | attach s => exact h.attach hop
  | unlink s => exact h.unlink s
  | setActive s =>
    refine ⟨_,rfl,⟨h.list,fun x hx => ?_,h.linked,h.tlb,h.rlb⟩⟩
    rw [h.list x (hop x hx)]
    rfl
  | deinitTx s => exact h.deinitTx hop.1 hop.2
  | deinitForget s => exact h.deinitForget hop
  | deinitRx s => exact h.deinitRx hop
  | free s => exact h.free hop
  | environment canTx speed devAddr bondAddr =>
    exact ⟨_,rfl,⟨h.list,h.currActiveSlave,h.linked,h.tlb,h.rlb⟩⟩
  | tlbClearSlave s saveLoad =>
    obtain ⟨t,ht,hlinked,huses⟩ := exists_tlbClearSlave h.linked interval s saveLoad
    have hsafe : Alb.Safe { a with tlb := t } :=
      ⟨h.list,h.currActiveSlave,hlinked,fun x hx => h.tlb x (huses x hx).2,h.rlb⟩
    exact ⟨_,by rw [albStep,ht]; rfl,hsafe⟩
  | setLoad s => exact ⟨_,rfl,⟨h.list,h.currActiveSlave,h.linked,h.tlb,h.rlb⟩⟩
  | addUnbalanced len => exact ⟨_,rfl,⟨h.list,h.currActiveSlave,h.linked,h.tlb,h.rlb⟩⟩
  | tlbChooseChannel i len =>
    obtain ⟨t,ht⟩ := Option.isSome_iff_exists.mp hop
    obtain ⟨r,b,hb,hlinked,huses⟩ := exists_tlbChooseChannel (S := a.slaves) h.linked ht i len
    have hsafe : Alb.Safe { a with tlb := b } := by
      refine ⟨h.list,h.currActiveSlave,hlinked,fun x hx => ?_,h.rlb⟩
      obtain hx | hx := huses x hx
      · exact h.tlb x hx
      · rw [h.list x hx]
        rfl
    exact ⟨_,by rw [albStep,hb]; rfl,hsafe⟩
  | arpXmit op tag arp => exact h.receive fun c hc => hc.arpXmit h.slaves P op tag arp
  | arpRecv op arp => exact h.receive fun c hc => hc.arpRecv op arp
  | monitor => exact h.receive fun c hc => hc.monitor h.slaves P
  | macChanged s => exact h.receive fun c hc => hc.reqUpdateSlaveClients P s
  | clearSlave s => exact h.receive fun c hc => hc.clearSlave (fun _ hx => .inr hx) h.slaves.list P
  | orderRebalance => exact h.receive fun c hc => ⟨hc.clients,hc.rxSlave⟩
  | clearVlan vlanId => exact h.receive fun c hc => hc.filter _
  | close =>
    have hclosed : Alb.Safe { a with tlb := tlbDeinitialize a.tlb } :=
      ⟨h.list,h.currActiveSlave,nofun,fun x ⟨_,_,ht,_⟩ => (nomatch ht),h.rlb⟩
    exact hclosed.receive fun c hc => ⟨nofun,hc.rxSlave⟩
  | reopen =>
    obtain ⟨hlinked,huses⟩ := tlbInitialize_linked interval a.tlb
    have hopen : Alb.Safe { a with tlb := tlbInitialize interval a.tlb } :=
      ⟨h.list,h.currActiveSlave,hlinked,fun x hx => absurd hx (huses x),h.rlb⟩
    exact hopen.receive fun c hc => ⟨nofun,hc.rxSlave⟩

/-- A bond that was created and has never been open. -/
def Alb.start (S : Slaves σ) (tlb : TlbInfo σ) (rlb : RlbInfo σ) : Alb σ where
  slaves := { S with list := [], currActiveSlave := none }
  tlb := tlbDeinitialize tlb
  rlb := rlbInitialize rlb
  phase _ := .absent

/-- The states a bond can come to. -/
inductive AlbReach (P : RlbParams) (interval : UInt32) : Alb σ → Prop
  | start (S : Slaves σ) (tlb : TlbInfo σ) {rlb : RlbInfo σ} (hrx : rlb.rxSlave = none) :
    AlbReach P interval (.start S tlb rlb)
  | step {a a' : Alb σ} {op : AlbOp σ} (ha : AlbReach P interval a) (hop : a.Allows op)
    (h : albStep P interval a op = some a') : AlbReach P interval a'

theorem AlbReach.safe (h : AlbReach P interval a) : a.Safe := by
  induction h with
  | @start S tlb rlb hrx =>
    have htlb : (Alb.start S tlb rlb).tlb.txHashtbl = none := rfl
    have hrlb : (Alb.start S tlb rlb).rlb = rlbInitialize rlb := by rw [Alb.start]
    refine ⟨nofun,nofun,fun t ht => ?_,fun x hx => ?_,⟨rlb.toRlbFlags,[]⟩,?_,nofun,fun x hx => ?_⟩
    · rw [htlb] at ht
      cases ht
    · obtain ⟨t,i,ht,-⟩ := hx
      rw [htlb] at ht
      cases ht
    · rw [hrlb]
      exact shows_rlbInitialize rlb
    · rw [hrx] at hx
      cases hx
  | step ha hop he ih =>
    obtain ⟨a'',he',hsafe⟩ := ih.step P interval hop
    obtain rfl := Option.some.inj (he.symm.trans he')
    exact hsafe

end System

end Linuxab.Bonding
