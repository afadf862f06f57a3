import Linuxab.Base.DoublyLinked
import Mathlib.Data.Fintype.Card

/-! Receive load balancing of servers/bond_alb.c: the hash table of the clients that were answered or asked
by ARP, with the list of its used entries and, for every hash value, the list of the entries whose source
address has it. Every function is what one section under `mode_lock` does; a null pointer or index is `none`.
The header with the constants is not part of the repository, so these are parameters. -/
namespace Linuxab.Bonding
open Linuxab.Base

/-- `u8[ETH_ALEN]`. -/
abbrev Mac := Vector UInt8 6

def isZeroEtherAddr (a : Mac) : Bool := a.all (· == 0)

def isMulticastEtherAddr (a : Mac) : Bool := a[0] &&& 1 == 1

def isBroadcastEtherAddr (a : Mac) : Bool := a.all (· == 0xff)

def isValidEtherAddr (a : Mac) : Bool := !isMulticastEtherAddr a && !isZeroEtherAddr a

/-- An index of the tables, which have 256 entries. -/
abbrev Index := Fin 256

/-- What an index field of zero bytes holds; the null index is `RLB_NULL_INDEX`. -/
def zeroIndex : Index := ⟨0,Nat.succ_pos 255⟩

def simpleHash (hashStart : List UInt8) : Index := (hashStart.foldl (· ^^^ ·) 0).toFin

/-- The four bytes of an address. -/
def ipBytes (ip : UInt32) : List UInt8 := [ip.toUInt8,(ip >>> 8).toUInt8,(ip >>> 16).toUInt8,(ip >>> 24).toUInt8]

def ipHash (ip : UInt32) : Index := simpleHash (ipBytes ip)

/-- What the balancing reads of the bond and of its slaves. -/
structure Slaves (σ : Type) where
  list : List σ
  canTx : σ → Bool
  speed : σ → UInt32
  devAddr : σ → Mac
  currActiveSlave : Option σ
  bondAddr : Mac

/-- The fields of an entry that are about the client. -/
structure Client (σ : Type) where
  ipSrc : UInt32
  ipDst : UInt32
  macSrc : Mac
  macDst : Mac
  slave : Option σ
  ntt : Bool
  vlanId : UInt16

/-- The fields of `alb_bond_info` that the loops over the clients change. -/
structure RlbFlags (σ : Type) where
  rxSlave : Option σ
  rxNtt : Bool
  rlbUpdateDelayCounter : ℕ
  rlbUpdateRetryCounter : ℕ
  rlbRebalance : Bool

/-- `alb_bond_info` with `rx_hashtbl`, which is kept by columns: `usedNext i` is `rx_hashtbl[i].used_next`. -/
structure RlbInfo (σ : Type) extends RlbFlags σ where
  client : Index → Client σ
  assigned : Index → Bool
  usedNext : Index → Option Index
  usedPrev : Index → Option Index
  srcFirst : Index → Option Index
  srcPrev : Index → Option Index
  srcNext : Index → Option Index
  rxHashtblUsedHead : Option Index

/-- The fields of an ARP packet that are looked at. -/
structure ArpPkt where
  ipSrc : UInt32
  ipDst : UInt32
  macSrc : Mac
  macDst : Mac

/-- An ARP reply that `rlb_update_client` sends. -/
structure ArpReply (σ : Type) where
  dstIp : UInt32
  dev : σ
  srcIp : UInt32
  dstHw : Mac
  srcHw : Mac
  vlanId : UInt16

/-- The constants `RLB_ARP_BURST_SIZE`, `RLB_UPDATE_DELAY` and `RLB_UPDATE_RETRY`. -/
structure RlbParams where
  arpBurstSize : ℕ
  updateDelay : ℕ
  updateRetry : ℕ

section Source
variable {σ : Type} [DecidableEq σ]

/-- What the loop of `__rlb_next_rx_slave` carries. -/
structure RxSearch (σ : Type) where
  before : Option σ
  rxSlave : Option σ
  found : Bool

/-- `!p || p->speed < slave->speed`, in which case `slave` takes the place of `p`. -/
def faster (S : Slaves σ) (p : Option σ) (slave : σ) : Option σ :=
  match p with
  | none => some slave
  | some t => if S.speed t < S.speed slave then some slave else some t

def nextRxSlaveBody (S : Slaves σ) (rxSlave : Option σ) (r : RxSearch σ) (slave : σ) : RxSearch σ :=
  if !S.canTx slave then r
  else
    let r := if !r.found then { r with before := faster S r.before slave }
      else { r with rxSlave := faster S r.rxSlave slave }
    if some slave = rxSlave then { r with found := true } else r

/-- `__rlb_next_rx_slave`, as a function of `bond_info->rx_slave`. -/
def rlbNextRxSlave (S : Slaves σ) (rxSlave : Option σ) : Option σ :=
  let r := S.list.foldl (nextRxSlaveBody S rxSlave) ⟨none,none,false⟩
  match r.rxSlave,r.before with
  | none,before => before
  | some a,none => some a
  | some a,some b => if S.speed a < S.speed b then some b else some a

/-- The loops over the used entries that change nothing but the clients: `body` gets a client and returns
what is stored in its place. It does not reach the links, so that they can be read before or after it. -/
def forUsed {ρ : Type} (body : ρ → Client σ → ρ × Client σ) (b : RlbInfo σ) (r : ρ) : Option (ρ × (Index → Client σ)) :=
  forLinks (fun _ i => b.usedNext i) (storeEach body) 257 (r,b.client) b.rxHashtblUsedHead

/-- The state with what such a loop leaves. -/
def RlbInfo.sweep (b : RlbInfo σ) (body : RlbFlags σ → Client σ → RlbFlags σ × Client σ) : Option (RlbInfo σ) :=
  (forUsed body b b.toRlbFlags).map fun r => { b with toRlbFlags := r.1, client := r.2 }

def clearSlaveBody (P : RlbParams) (S : Slaves σ) (slave : σ) (f : RlbFlags σ) (c : Client σ) :
    RlbFlags σ × Client σ :=
  if c.slave = some slave then
    match rlbNextRxSlave S f.rxSlave with
    | some assigned =>
      let f := { f with rxSlave := some assigned }
      let c := { c with slave := some assigned }
      if isValidEtherAddr c.macDst then
        ({ f with rxNtt := true, rlbUpdateRetryCounter := P.updateRetry },{ c with ntt := true })
      else (f,c)
    | none => (f,{ c with slave := none })
  else (f,c)

def rlbClearSlave (P : RlbParams) (S : Slaves σ) (slave : σ) (b : RlbInfo σ) : Option (RlbInfo σ) :=
  b.sweep (clearSlaveBody P S slave)

def rlbUpdateClient (P : RlbParams) (S : Slaves σ) (c : Client σ) : List (ArpReply σ) :=
  match c.slave with
  | none => []
  | some s =>
    if !isValidEtherAddr c.macDst then []
    else List.replicate P.arpBurstSize ⟨c.ipDst,s,c.ipSrc,c.macDst,S.devAddr s,c.vlanId⟩

def updateRxClientsBody (P : RlbParams) (S : Slaves σ) (r : RlbFlags σ × List (ArpReply σ)) (c : Client σ) :
    (RlbFlags σ × List (ArpReply σ)) × Client σ :=
  if c.ntt then
    ((r.1,r.2 ++ rlbUpdateClient P S c),if r.1.rlbUpdateRetryCounter = 0 then { c with ntt := false } else c)
  else (r,c)

def rlbUpdateRxClients (P : RlbParams) (S : Slaves σ) (b : RlbInfo σ) : Option (RlbInfo σ × List (ArpReply σ)) :=
  (forUsed (updateRxClientsBody P S) b (b.toRlbFlags,[])).map fun r =>
    ({ b with toRlbFlags := { r.1.1 with rlbUpdateDelayCounter := P.updateDelay }, client := r.2 },r.1.2)

/-- The flags with `rx_ntt` and the retries set, if a client was marked. -/
def RlbFlags.fasten (P : RlbParams) (f : RlbFlags σ) (ntt : Bool) : RlbFlags σ :=
  if ntt then { f with rxNtt := true, rlbUpdateRetryCounter := P.updateRetry } else f

def reqUpdateSlaveClientsBody (slave : σ) (ntt : Bool) (c : Client σ) : Bool × Client σ :=
  if c.slave = some slave ∧ isValidEtherAddr c.macDst then (true,{ c with ntt := true }) else (ntt,c)

def rlbReqUpdateSlaveClients (P : RlbParams) (slave : σ) (b : RlbInfo σ) : Option (RlbInfo σ) :=
  (forUsed (reqUpdateSlaveClientsBody slave) b false).map fun r =>
    { b with toRlbFlags := b.toRlbFlags.fasten P r.1, client := r.2 }

def reqUpdateSubnetClientsBody (S : Slaves σ) (srcIp : UInt32) (f : RlbFlags σ) (c : Client σ) :
    RlbFlags σ × Client σ :=
  match c.slave with
  | none => (f,c)
  | some s =>
    if c.ipSrc = srcIp ∧ S.devAddr s ≠ S.bondAddr ∧ isValidEtherAddr c.macDst then
      ({ f with rxNtt := true },{ c with ntt := true })
    else (f,c)

def rlbReqUpdateSubnetClients (S : Slaves σ) (srcIp : UInt32) (b : RlbInfo σ) : Option (RlbInfo σ) :=
  b.sweep (reqUpdateSubnetClientsBody S srcIp)

def rebalanceBody (S : Slaves σ) (r : RlbFlags σ × Bool) (c : Client σ) : (RlbFlags σ × Bool) × Client σ :=
  match rlbNextRxSlave S r.1.rxSlave with
  | none => (r,c)
  | some assigned =>
    let f := { r.1 with rxSlave := some assigned }
    if c.slave ≠ some assigned then
      if !isZeroEtherAddr c.macDst then ((f,true),{ c with slave := some assigned, ntt := true })
      else ((f,r.2),{ c with slave := some assigned })
    else ((f,r.2),c)

def rlbRebalance (S : Slaves σ) (b : RlbInfo σ) : Option (RlbInfo σ) :=
  (forUsed (rebalanceBody S) b (b.toRlbFlags,false)).map fun r =>
    { b with toRlbFlags := if r.1.2 then { r.1.1 with rxNtt := true } else r.1.1, client := r.2 }

/-- A store into the client at `i`. -/
def RlbInfo.setClient (b : RlbInfo σ) (i : Index) (c : Client σ) : RlbInfo σ :=
  { b with client := Function.update b.client i c }

/-- The packet tells a new hardware address of the client. -/
def Client.tells (arp : ArpPkt) (c : Client σ) : Bool :=
  c.ipSrc = arp.ipDst ∧ c.ipDst = arp.ipSrc ∧ c.macDst ≠ arp.macSrc

def Client.told (arp : ArpPkt) (c : Client σ) : Client σ := { c with macDst := arp.macSrc, ntt := true }

def rlbUpdateEntryFromArp (arp : ArpPkt) (b : RlbInfo σ) : RlbInfo σ :=
  let hashIndex := ipHash arp.ipSrc
  let c := b.client hashIndex
  if b.assigned hashIndex && c.tells arp then { b.setClient hashIndex (c.told arp) with rxNtt := true } else b

def rlbInitTableEntryDst (index : Index) (b : RlbInfo σ) : RlbInfo σ :=
  { b with
    usedNext := Function.update b.usedNext index none
    usedPrev := Function.update b.usedPrev index none
    assigned := Function.update b.assigned index false
    client := Function.update b.client index { b.client index with slave := none, vlanId := 0 } }

def rlbInitTableEntrySrc (index : Index) (b : RlbInfo σ) : RlbInfo σ :=
  { b with
    srcFirst := Function.update b.srcFirst index none
    srcPrev := Function.update b.srcPrev index none
    srcNext := Function.update b.srcNext index none }

/-- A client of zero bytes. -/
def zeroClient : Client σ := ⟨0,0,Vector.replicate 6 0,Vector.replicate 6 0,none,false,0⟩

/-- The `memset`; index 0 is no null index. -/
def zeroEntry (index : Index) (b : RlbInfo σ) : RlbInfo σ :=
  { b with
    client := Function.update b.client index zeroClient
    assigned := Function.update b.assigned index false
    usedNext := Function.update b.usedNext index (some zeroIndex)
    usedPrev := Function.update b.usedPrev index (some zeroIndex)
    srcFirst := Function.update b.srcFirst index (some zeroIndex)
    srcPrev := Function.update b.srcPrev index (some zeroIndex)
    srcNext := Function.update b.srcNext index (some zeroIndex) }

def rlbInitTableEntry (index : Index) (b : RlbInfo σ) : RlbInfo σ :=
  rlbInitTableEntrySrc index (rlbInitTableEntryDst index (zeroEntry index b))

def rlbDeleteTableEntryDst (index : Index) (b : RlbInfo σ) : RlbInfo σ :=
  let next := b.usedNext index
  let prev := b.usedPrev index
  { b with
    rxHashtblUsedHead := if b.rxHashtblUsedHead = some index then next else b.rxHashtblUsedHead
    usedNext := patch b.usedNext prev next
    usedPrev := patch b.usedPrev next prev }

def rlbSrcUnlink (index : Index) (b : RlbInfo σ) : RlbInfo σ :=
  let next := b.srcNext index
  let prev := b.srcPrev index
  let b := { b with
    srcNext := Function.update b.srcNext index none
    srcPrev := patch (Function.update b.srcPrev index none) next prev }
  match prev with
  | none => b
  | some p =>
    if b.srcFirst p = some index then { b with srcFirst := Function.update b.srcFirst p next }
    else { b with srcNext := Function.update b.srcNext p next }

def rlbDeleteTableEntry (index : Index) (b : RlbInfo σ) : RlbInfo σ :=
  rlbSrcUnlink index (rlbInitTableEntryDst index (rlbDeleteTableEntryDst index b))

def rlbSrcLink (ipSrcHash ipDstHash : Index) (b : RlbInfo σ) : RlbInfo σ :=
  let next := b.srcFirst ipSrcHash
  { b with
    srcNext := Function.update b.srcNext ipDstHash next
    srcPrev := patch (Function.update b.srcPrev ipDstHash (some ipSrcHash)) next (some ipDstHash)
    srcFirst := Function.update b.srcFirst ipSrcHash (some ipDstHash) }

/-- The loop body of `rlb_purge_src_ip`. -/
def purgeBody (arp : ArpPkt) (b : RlbInfo σ) (index : Index) : RlbInfo σ :=
  let entry := b.client index
  if entry.ipSrc = arp.ipSrc ∧ arp.macSrc ≠ entry.macSrc then rlbDeleteTableEntry index b else b

def rlbPurgeSrcIp (arp : ArpPkt) (b : RlbInfo σ) : Option (RlbInfo σ) :=
  forLinks (fun b i => b.srcNext i) (purgeBody arp) 257 b (b.srcFirst (ipHash arp.ipSrc))

/-- The loop body of `rlb_clear_vlan`. -/
def clearVlanBody (vlanId : UInt16) (b : RlbInfo σ) (index : Index) : RlbInfo σ :=
  if (b.client index).vlanId = vlanId then rlbDeleteTableEntry index b else b

def rlbClearVlan (vlanId : UInt16) (b : RlbInfo σ) : Option (RlbInfo σ) :=
  forLinks (fun b i => b.usedNext i) (clearVlanBody vlanId) 257 b b.rxHashtblUsedHead

/-- `rlb_initialize`, whatever the memory of the new table holds. -/
def rlbInitialize (b : RlbInfo σ) : RlbInfo σ :=
  (List.finRange 256).foldl (fun b i => rlbInitTableEntry i b) { b with rxHashtblUsedHead := none }

/-- The first part of assigning an entry: `ip_src` is going to be updated, so the source list is fixed. -/
def fixSrcList (arp : ArpPkt) (hashIndex : Index) (b : RlbInfo σ) : RlbInfo σ :=
  if ¬(b.assigned hashIndex ∧ (b.client hashIndex).ipSrc = arp.ipSrc) then
    rlbSrcLink (ipHash arp.ipSrc) hashIndex (rlbSrcUnlink hashIndex b)
  else b

/-- The client of a packet; `tag` is what `vlan_get_tag` finds. -/
def arpClient (arp : ArpPkt) (tag : Option UInt16) (assignedSlave : σ) : Client σ :=
  ⟨arp.ipSrc,arp.ipDst,arp.macSrc,arp.macDst,some assignedSlave,isValidEtherAddr arp.macDst,tag.getD 0⟩

/-- Then the data of the client are stored. -/
def storeClient (arp : ArpPkt) (tag : Option UInt16) (assignedSlave : σ) (hashIndex : Index) (b : RlbInfo σ) :
    RlbInfo σ :=
  let b := b.setClient hashIndex (arpClient arp tag assignedSlave)
  if isValidEtherAddr arp.macDst then { b with rxNtt := true } else b

/-- Last, an entry that was not in use is put in front of the used ones. -/
def enterUsed (hashIndex : Index) (b : RlbInfo σ) : RlbInfo σ :=
  if !b.assigned hashIndex then
    let prevTblHead := b.rxHashtblUsedHead
    { b with
      rxHashtblUsedHead := some hashIndex
      usedNext := Function.update b.usedNext hashIndex prevTblHead
      usedPrev := patch b.usedPrev prevTblHead (some hashIndex)
      assigned := Function.update b.assigned hashIndex true }
  else b

def assignEntry (arp : ArpPkt) (tag : Option UInt16) (assignedSlave : σ) (hashIndex : Index) (b : RlbInfo σ) :
    RlbInfo σ :=
  enterUsed hashIndex (storeClient arp tag assignedSlave hashIndex (fixSrcList arp hashIndex b))

/-- The last part of `rlb_choose_channel`: assign a new slave. -/
def assignNew (S : Slaves σ) (arp : ArpPkt) (tag : Option UInt16) (hashIndex : Index) (b : RlbInfo σ) :
    Option σ × RlbInfo σ :=
  match rlbNextRxSlave S b.rxSlave with
  | none => (none,b)
  | some assignedSlave =>
    (some assignedSlave,assignEntry arp tag assignedSlave hashIndex { b with rxSlave := some assignedSlave })

/-- The slave to send on, the table after it and the replies sent to a client that has to go. -/
def rlbChooseChannel (P : RlbParams) (S : Slaves σ) (tag : Option UInt16) (arp : ArpPkt) (b : RlbInfo σ) :
    Option σ × RlbInfo σ × List (ArpReply σ) :=
  let hashIndex := ipHash arp.ipDst
  let c := b.client hashIndex
  let assign := fun (b : RlbInfo σ) out =>
    ((assignNew S arp tag hashIndex b).1,(assignNew S arp tag hashIndex b).2,out)
  if b.assigned hashIndex then
    if c.ipSrc = arp.ipSrc ∧ c.ipDst = arp.ipDst then
      -- the entry is already assigned to this client
      let macDst := if !isBroadcastEtherAddr arp.macDst then arp.macDst else c.macDst
      let b := b.setClient hashIndex { c with macDst, macSrc := arp.macSrc }
      match c.slave with
      | some s => (some s,b,[])
      | none => assign b []
    else
      -- some other client has the entry and is moved to the active slave
      match S.currActiveSlave with
      | some a =>
        if c.slave ≠ some a then
          assign (b.setClient hashIndex { c with slave := some a }) (rlbUpdateClient P S { c with slave := some a })
        else assign b []
      | none => assign b []
  else assign b []

/-- `op_code` of an ARP packet. -/
inductive ArpOp
  | request
  | reply
  | other

/-- `rlb_arp_xmit` from the look at `op_code` on; before it, packets that do not come from the bond are
turned away without a look at the table. -/
def rlbArpXmit (P : RlbParams) (S : Slaves σ) (op : ArpOp) (tag : Option UInt16) (arp : ArpPkt) (b : RlbInfo σ) :
    Option (Option σ × RlbInfo σ × List (ArpReply σ)) :=
  match op with
  | .reply => some (rlbChooseChannel P S tag arp b)
  | .request =>
    let r := rlbChooseChannel P S tag arp b
    (rlbReqUpdateSubnetClients S arp.ipSrc { r.2.1 with rlbUpdateDelayCounter := P.updateDelay }).map fun b =>
      (r.1,b,r.2.2)
  | .other => some (none,b,[])

/-- The packet is from `arp->ip_src`, so that entries of that source with another hardware address go. -/
def rlbArpRecv (op : ArpOp) (arp : ArpPkt) (b : RlbInfo σ) : Option (RlbInfo σ) :=
  (rlbPurgeSrcIp arp b).map fun b =>
    match op with
    | .reply => rlbUpdateEntryFromArp arp b
    | _ => b

/-- The last part of `bond_alb_monitor`: the clients are updated, or the update is still delayed. -/
def monitorUpdate (P : RlbParams) (S : Slaves σ) (b : RlbInfo σ) : Option (RlbInfo σ × List (ArpReply σ)) :=
  if b.rxNtt then
    if b.rlbUpdateDelayCounter ≠ 0 then
      some ({ b with rlbUpdateDelayCounter := b.rlbUpdateDelayCounter - 1 },[])
    else
      (rlbUpdateRxClients P S b).map fun r =>
        (if r.1.rlbUpdateRetryCounter ≠ 0 then { r.1 with rlbUpdateRetryCounter := r.1.rlbUpdateRetryCounter - 1 }
          else { r.1 with rxNtt := false },r.2)
  else some (b,[])

/-- What `bond_alb_monitor` does to the table. -/
def bondAlbMonitor (P : RlbParams) (S : Slaves σ) (b : RlbInfo σ) : Option (RlbInfo σ × List (ArpReply σ)) :=
  if S.list = [] then some (b,[])
  else if b.rlbRebalance then (rlbRebalance S { b with rlbRebalance := false }).bind (monitorUpdate P S)
  else monitorUpdate P S b

end Source
end Linuxab.Bonding
