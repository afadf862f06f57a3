import Linuxab.Bonding.RlbTable

/-! Whole runs of the receive load balancing of servers/bond_alb.c: any order of packets, of ticks of the
monitor and of changes of the slaves. -/
namespace Linuxab.Bonding
open Linuxab.Base
variable {σ : Type}

/-- What happens to the table; every event comes with the slaves as they are at that time. -/
inductive RlbOp (σ : Type)
  | arpXmit (S : Slaves σ) (op : ArpOp) (tag : Option UInt16) (arp : ArpPkt)
  | arpRecv (op : ArpOp) (arp : ArpPkt)
  | monitor (S : Slaves σ)
  | macChanged (slave : σ)
  | clearSlave (S : Slaves σ) (slave : σ)
  | orderRebalance
  | forgetRxSlave
  | clearVlan (vlanId : UInt16)
  | reopen

/-- What an event gives: the slave chosen for a packet and the replies that were sent. -/
structure RlbOut (σ : Type) where
  txSlave : Option σ
  sent : List (ArpReply σ)

section Step
variable [DecidableEq σ]

def rlbStep (P : RlbParams) (b : RlbInfo σ) : RlbOp σ → Option (RlbInfo σ × RlbOut σ)
  | .arpXmit S op tag arp => (rlbArpXmit P S op tag arp b).map fun r => (r.2.1,⟨r.1,r.2.2⟩)
  | .arpRecv op arp => (rlbArpRecv op arp b).map fun b => (b,⟨none,[]⟩)
  | .monitor S => (bondAlbMonitor P S b).map fun r => (r.1,⟨none,r.2⟩)
  | .macChanged slave => (rlbReqUpdateSlaveClients P slave b).map fun b => (b,⟨none,[]⟩)
  | .clearSlave S slave => (rlbClearSlave P S slave b).map fun b => (b,⟨none,[]⟩)
  -- the writes of `bond_alb_init_slave`, `bond_alb_handle_link_change` and `bond_alb_deinit_slave` themselves
  | .orderRebalance => some ({ b with rlbRebalance := true },⟨none,[]⟩)
  | .forgetRxSlave => some ({ b with rxSlave := none },⟨none,[]⟩)
  | .clearVlan vlanId => (rlbClearVlan vlanId b).map fun b => (b,⟨none,[]⟩)
  | .reopen => some (rlbInitialize b,⟨none,[]⟩)

namespace ClientList

def arpXmit (P : RlbParams) (S : Slaves σ) (op : ArpOp) (tag : Option UInt16) (arp : ArpPkt) (s : ClientList σ) :
    ClientList σ × RlbOut σ :=
  let r := s.chooseChannel P S tag arp
  match op with
  | .reply => (r.2.1,⟨r.1,r.2.2⟩)
  | .request =>
    ({ r.2.1 with rlbUpdateDelayCounter := P.updateDelay }.sweep (reqUpdateSubnetClientsBody S arp.ipSrc),⟨r.1,r.2.2⟩)
  | .other => (s,⟨none,[]⟩)

def arpRecv (op : ArpOp) (arp : ArpPkt) (s : ClientList σ) : ClientList σ :=
  let s := s.filter fun c => !decide (c.ipSrc = arp.ipSrc ∧ arp.macSrc ≠ c.macSrc)
  match op with
  | .reply => s.updateFromArp arp
  | _ => s

def monitorUpdate (P : RlbParams) (S : Slaves σ) (s : ClientList σ) : ClientList σ × RlbOut σ :=
  if s.rxNtt then
    if s.rlbUpdateDelayCounter ≠ 0 then ({ s with rlbUpdateDelayCounter := s.rlbUpdateDelayCounter - 1 },⟨none,[]⟩)
    else
      let r := s.updateRxClients P S
      (if r.1.rlbUpdateRetryCounter ≠ 0 then { r.1 with rlbUpdateRetryCounter := r.1.rlbUpdateRetryCounter - 1 }
        else { r.1 with rxNtt := false },⟨none,r.2⟩)
  else (s,⟨none,[]⟩)

def monitor (P : RlbParams) (S : Slaves σ) (s : ClientList σ) : ClientList σ × RlbOut σ :=
  if S.list = [] then (s,⟨none,[]⟩)
  else if s.rlbRebalance then ({ s with rlbRebalance := false }.rebalance S).monitorUpdate P S
  else s.monitorUpdate P S

/-- The events on the plain list of clients. -/
def step (P : RlbParams) (s : ClientList σ) : RlbOp σ → ClientList σ × RlbOut σ
  | .arpXmit S op tag arp => s.arpXmit P S op tag arp
  | .arpRecv op arp => (s.arpRecv op arp,⟨none,[]⟩)
  | .monitor S => s.monitor P S
  | .macChanged slave => (s.reqUpdateSlaveClients P slave,⟨none,[]⟩)
  | .clearSlave S slave => (s.sweep (clearSlaveBody P S slave),⟨none,[]⟩)
  | .orderRebalance => ({ s with rlbRebalance := true },⟨none,[]⟩)
  | .forgetRxSlave => ({ s with rxSlave := none },⟨none,[]⟩)
  | .clearVlan vlanId => (s.filter fun c => !decide (c.vlanId = vlanId),⟨none,[]⟩)
  | .reopen => ({ s with clients := [] },⟨none,[]⟩)

end ClientList
end Step

section Initialize

/-- An entry as `rlb_init_table_entry` leaves it. -/
structure RlbInfo.Blank (b : RlbInfo σ) (i : Index) : Prop where
  assigned : b.assigned i = false
  slave : (b.client i).slave = none
  usedNext : b.usedNext i = none
  usedPrev : b.usedPrev i = none
  srcFirst : b.srcFirst i = none
  srcPrev : b.srcPrev i = none
  srcNext : b.srcNext i = none

theorem blank_rlbInitTableEntry {b : RlbInfo σ} {i j : Index} (h : i = j ∨ b.Blank i) :
    (rlbInitTableEntry j b).Blank i := by
  by_cases hij : i = j
  · subst hij
    constructor <;> simp [rlbInitTableEntry,rlbInitTableEntrySrc,rlbInitTableEntryDst,zeroEntry]
  · obtain ⟨h₁,h₂,h₃,h₄,h₅,h₆,h₇⟩ := h.resolve_left hij
    constructor <;> simpa [rlbInitTableEntry,rlbInitTableEntrySrc,rlbInitTableEntryDst,zeroEntry,hij]

theorem foldl_rlbInitTableEntry (l : List Index) (b : RlbInfo σ) :
    (∀ i, i ∈ l ∨ b.Blank i → (l.foldl (fun b i => rlbInitTableEntry i b) b).Blank i) ∧
      (l.foldl (fun b i => rlbInitTableEntry i b) b).toRlbFlags = b.toRlbFlags ∧
      (l.foldl (fun b i => rlbInitTableEntry i b) b).rxHashtblUsedHead = b.rxHashtblUsedHead := by
  induction l generalizing b with
  | nil => exact ⟨fun i h => h.resolve_left List.not_mem_nil,rfl,rfl⟩
  | cons j l ih =>
    obtain ⟨hblank,hflags,hhead⟩ := ih (rlbInitTableEntry j b)
    refine ⟨fun i h => hblank i ?_,hflags,hhead⟩
    obtain h | h := h
    · obtain rfl | h := List.mem_cons.mp h
      · exact .inr (blank_rlbInitTableEntry (.inl rfl))
      · exact .inl h
    · exact .inr (blank_rlbInitTableEntry (.inr h))

theorem RlbInfo.Wf.of_blank {b : RlbInfo σ} (h : ∀ i, b.Blank i) (hhead : b.rxHashtblUsedHead = none) :
    b.Wf [] fun _ => [] where
  used := ⟨hhead,fun i _ => ⟨(h i).usedNext,(h i).usedPrev⟩⟩
  src := ⟨fun i => (h i).srcFirst,fun hx => absurd hx List.not_mem_nil,fun i _ => ⟨(h i).srcNext,(h i).srcPrev⟩⟩
  mem_used i := by simp [(h i).assigned]
  mem_src g i := by simp
  key i hi := absurd hi List.not_mem_nil
  idle i _ := (h i).slave

theorem shows_rlbInitialize (b : RlbInfo σ) : (rlbInitialize b).Shows ⟨b.toRlbFlags,[]⟩ := by
  rw [rlbInitialize]
  obtain ⟨hblank,hflags,hhead⟩ := foldl_rlbInitTableEntry (List.finRange 256) { b with rxHashtblUsedHead := none }
  refine ⟨[],_,.of_blank (fun i => hblank i (.inl (List.mem_finRange i))) hhead,?_⟩
  rw [hflags]
  rfl

end Initialize

section Runs
variable [DecidableEq σ] {b : RlbInfo σ} {s : ClientList σ} {S : Slaves σ}

theorem shows_rlbArpXmit (P : RlbParams) (h : b.Shows s) (op : ArpOp) (tag : Option UInt16) (arp : ArpPkt) :
    ∃ b', rlbStep P b (.arpXmit S op tag arp) = some (b',(s.arpXmit P S op tag arp).2) ∧
      b'.Shows (s.arpXmit P S op tag arp).1 := by
  obtain ⟨hslave,hshows,hsent⟩ := shows_rlbChooseChannel (S := S) P h tag arp
  rw [rlbStep]
  cases op with
  | reply => exact ⟨_,by rw [ClientList.arpXmit,← hslave,← hsent]; rfl,hshows⟩
  | request =>
    have hdelay := hshows.withFlags
      { (rlbChooseChannel P S tag arp b).2.1.toRlbFlags with rlbUpdateDelayCounter := P.updateDelay }
    obtain ⟨b',hb,hshows'⟩ := shows_rlbReqUpdateSubnetClients (S := S) arp.ipSrc hdelay
    refine ⟨b',?_,?_⟩
    · rw [rlbArpXmit,hb,ClientList.arpXmit,← hslave,← hsent]
      rfl
    · rw [← hshows.flags] at hshows'
      exact hshows'
  | other => exact ⟨b,rfl,h⟩

omit [DecidableEq σ] in
theorem shows_rlbArpRecv (h : b.Shows s) (op : ArpOp) (arp : ArpPkt) :
    ∃ b', rlbArpRecv op arp b = some b' ∧ b'.Shows (s.arpRecv op arp) := by
  obtain ⟨b',hb,hshows⟩ := shows_rlbPurgeSrcIp h arp
  rw [rlbArpRecv,hb]
  cases op with
  | reply => exact ⟨_,rfl,shows_rlbUpdateEntryFromArp hshows arp⟩
  | request => exact ⟨b',rfl,hshows⟩
  | other => exact ⟨b',rfl,hshows⟩

omit [DecidableEq σ] in
theorem shows_monitorUpdate (P : RlbParams) (h : b.Shows s) :
    ∃ b' sent, monitorUpdate P S b = some (b',sent) ∧ (s.monitorUpdate P S).2 = ⟨none,sent⟩ ∧
      b'.Shows (s.monitorUpdate P S).1 := by
  rw [monitorUpdate,ClientList.monitorUpdate,h.flags]
  split
  · split
    · exact ⟨_,_,rfl,rfl,h.withFlags _⟩
    · obtain ⟨b',hb,hshows⟩ := shows_rlbUpdateRxClients (S := S) P h
      refine ⟨_,_,by rw [hb]; rfl,rfl,?_⟩
      dsimp only
      rw [hshows.flags]
      split
      · exact hshows.withFlags _
      · exact hshows.withFlags _
  · exact ⟨b,[],rfl,rfl,h⟩

theorem shows_bondAlbMonitor (P : RlbParams) (h : b.Shows s) :
    ∃ b' sent, bondAlbMonitor P S b = some (b',sent) ∧ (s.monitor P S).2 = ⟨none,sent⟩ ∧
      b'.Shows (s.monitor P S).1 := by
  rw [bondAlbMonitor,ClientList.monitor,h.flags]
  split
  · exact ⟨b,[],rfl,rfl,h⟩
  · split
    · obtain ⟨b',hb,hshows⟩ := shows_rlbRebalance (S := S) (h.withFlags { b.toRlbFlags with rlbRebalance := false })
      rw [hb]
      exact shows_monitorUpdate P hshows
    · exact shows_monitorUpdate P h

/-- One event on the table is the event on the list of clients. -/
theorem shows_rlbStep (P : RlbParams) (op : RlbOp σ) (h : b.Shows s) :
    ∃ b', rlbStep P b op = some (b',(s.step P op).2) ∧ b'.Shows (s.step P op).1 := by
  cases op with
  | arpXmit S op tag arp => exact shows_rlbArpXmit P h op tag arp
  | arpRecv op arp =>
    obtain ⟨b',hb,hshows⟩ := shows_rlbArpRecv h op arp
    exact ⟨b',by rw [rlbStep,hb]; rfl,hshows⟩
  | monitor S =>
    obtain ⟨b',sent,hb,hsent,hshows⟩ := shows_bondAlbMonitor (S := S) P h
    exact ⟨b',by rw [rlbStep,hb,ClientList.step,hsent]; rfl,hshows⟩
  | macChanged slave =>
    obtain ⟨b',hb,hshows⟩ := shows_rlbReqUpdateSlaveClients P slave h
    exact ⟨b',by rw [rlbStep,hb]; rfl,hshows⟩
  | clearSlave S slave =>
    obtain ⟨b',hb,hshows⟩ := shows_rlbClearSlave (S := S) P slave h
    exact ⟨b',by rw [rlbStep,hb]; rfl,hshows⟩
  | orderRebalance =>
    refine ⟨_,rfl,?_⟩
    rw [ClientList.step,h.flags]
    exact h.withFlags _
  | forgetRxSlave =>
    refine ⟨_,rfl,?_⟩
    rw [ClientList.step,h.flags]
    exact h.withFlags _
  | clearVlan vlanId =>
    obtain ⟨b',hb,hshows⟩ := shows_rlbClearVlan h vlanId
    exact ⟨b',by rw [rlbStep,hb]; rfl,hshows⟩
  | reopen =>
    refine ⟨_,rfl,?_⟩
    rw [ClientList.step,h.flags]
    exact shows_rlbInitialize b

theorem exists_shows_of_run {P : RlbParams} {ops : List (RlbOp σ)} {c : RlbInfo σ} {out : List (RlbOut σ)}
    (hrun : runOut (rlbStep P) (rlbInitialize b) ops = some (c,out)) : ∃ s, c.Shows s := by
  obtain ⟨c',hc,hshows⟩ := runOut_simulates (fun _ _ op h => shows_rlbStep P op h) (shows_rlbInitialize b) ops
  obtain ⟨rfl,-⟩ := Prod.ext_iff.mp (Option.some.inj (hrun.symm.trans hc))
  exact ⟨_,hshows⟩

/-- The table with its linked lists, started from any memory and taken through any events, behaves like the
plain list of clients: no loop over a list fails to end, the chosen slaves and the replies sent are the same,
and the used entries are the clients of the list. -/
theorem rlb_refines_client_list (P : RlbParams) (b : RlbInfo σ) (ops : List (RlbOp σ)) :
    ∃ b', runOut (rlbStep P) (rlbInitialize b) ops =
        some (b',(mapAccum (ClientList.step P) ⟨b.toRlbFlags,[]⟩ ops).2) ∧
      b'.Shows (mapAccum (ClientList.step P) ⟨b.toRlbFlags,[]⟩ ops).1 :=
  runOut_simulates (fun _ _ op h => shows_rlbStep P op h) (shows_rlbInitialize b) ops

end Runs

/-- A bond of two slaves of the same speed. -/
def twoSlaves : Slaves Bool where
  list := [false,true]
  canTx _ := true
  speed _ := 1000
  devAddr _ := Vector.replicate 6 2
  currActiveSlave := some false
  bondAddr := Vector.replicate 6 2

/-- Memory of zero bytes. -/
def zeroRlb : RlbInfo Bool where
  rxSlave := none
  rxNtt := false
  rlbUpdateDelayCounter := 0
  rlbUpdateRetryCounter := 0
  rlbRebalance := false
  client _ := zeroClient
  assigned _ := false
  usedNext _ := some zeroIndex
  usedPrev _ := some zeroIndex
  srcFirst _ := some zeroIndex
  srcPrev _ := some zeroIndex
  srcNext _ := some zeroIndex
  rxHashtblUsedHead := some zeroIndex

end Linuxab.Bonding
