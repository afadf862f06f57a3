import Linuxab.Bonding.Rlb

/-! What the receive table of servers/bond_alb.c is: a list of clients, the one entered last in front, with
at most one client for each hash value of the clients' addresses. Every function on the table, with its two
kinds of linked lists, is a plain function on that list. -/
namespace Linuxab.Bonding
open Linuxab.Base
variable {σ : Type}

namespace RlbInfo

/-- The list of the used entries. -/
def used (b : RlbInfo σ) : DList Index := ⟨b.rxHashtblUsedHead,b.usedNext,b.usedPrev⟩

/-- The lists of the entries with the same hash value of the source address. -/
def src (b : RlbInfo σ) : Buckets Index := ⟨b.srcFirst,b.srcNext,b.srcPrev⟩

/-- The used entries are `xs`, in this order, and those with source hash `h` are `L h`. -/
structure Wf (b : RlbInfo σ) (xs : List Index) (L : Index → List Index) : Prop where
  used : b.used.Is xs
  src : b.src.Is L
  mem_used : ∀ i, i ∈ xs ↔ b.assigned i = true
  mem_src : ∀ h i, i ∈ L h ↔ i ∈ xs ∧ ipHash (b.client i).ipSrc = h
  key : ∀ i ∈ xs, ipHash (b.client i).ipDst = i
  idle : ∀ i, i ∉ xs → (b.client i).slave = none

variable {b : RlbInfo σ} {xs : List Index} {L : Index → List Index} {i : Index}

theorem Wf.nodup (h : b.Wf xs L) : xs.Nodup := h.used.chain.nodup

theorem length_lt {xs : List Index} (h : xs.Nodup) : xs.length < 257 := by
  have hcard := h.length_le_card
  rw [Fintype.card_fin] at hcard
  omega

end RlbInfo

section Delete
variable {b : RlbInfo σ} {xs : List Index} {L : Index → List Index} {i : Index}

theorem rlbSrcUnlink_eq (i : Index) (b : RlbInfo σ) :
    rlbSrcUnlink i b = { b with
      srcFirst := (b.src.unlink i).first, srcNext := (b.src.unlink i).next, srcPrev := (b.src.unlink i).prev } := by
  have hp : b.src.prev i = b.srcPrev i := rfl
  rw [rlbSrcUnlink,Buckets.unlink,hp]
  cases b.srcPrev i with
  | none => rfl
  | some p =>
    by_cases h : b.srcFirst p = some i
    · have h' : b.src.first p = some i := h
      simp only [h,h',if_true]
      rfl
    · have h' : b.src.first p ≠ some i := h
      simp only [h,h',if_false]
      rfl

theorem rlbDeleteTableEntry_client {j : Index} (h : j ≠ i) : (rlbDeleteTableEntry i b).client j = b.client j := by
  rw [rlbDeleteTableEntry,rlbSrcUnlink_eq]
  exact Function.update_of_ne h _ _

theorem rlbDeleteTableEntry_flags : (rlbDeleteTableEntry i b).toRlbFlags = b.toRlbFlags := by
  rw [rlbDeleteTableEntry,rlbSrcUnlink_eq]
  rfl

theorem RlbInfo.Wf.delete (h : b.Wf xs L) (hi : i ∈ xs) :
    (rlbDeleteTableEntry i b).Wf (xs.erase i) fun g => (L g).erase i := by
  have hused : (rlbDeleteTableEntry i b).used = b.used.delete i := by
    rw [rlbDeleteTableEntry,rlbSrcUnlink_eq]
    rfl
  have hsrc : (rlbDeleteTableEntry i b).src = b.src.unlink i := by
    rw [rlbDeleteTableEntry,rlbSrcUnlink_eq]
    rfl
  have hassigned : (rlbDeleteTableEntry i b).assigned = Function.update b.assigned i false := by
    rw [rlbDeleteTableEntry,rlbSrcUnlink_eq]
    rfl
  have hmem : ∀ j, j ∈ xs.erase i ↔ j ≠ i ∧ j ∈ xs := fun j => h.nodup.mem_erase_iff
  constructor
  · rw [hused]
    exact h.used.delete hi
  · rw [hsrc]
    exact h.src.unlink i
  · intro j
    rw [hmem,hassigned]
    by_cases hj : j = i
    · simp [hj]
    · simp [hj,h.mem_used]
  · intro g j
    rw [hmem,(h.src.chain g).nodup.mem_erase_iff,h.mem_src]
    by_cases hj : j = i
    · simp [hj]
    · simp [hj,rlbDeleteTableEntry_client hj]
  · intro j hj
    obtain ⟨hji,hj⟩ := (hmem j).mp hj
    rw [rlbDeleteTableEntry_client hji]
    exact h.key j hj
  · intro j hj
    by_cases hji : j = i
    · subst hji
      rw [rlbDeleteTableEntry,rlbSrcUnlink_eq]
      simp [rlbInitTableEntryDst]
    · rw [rlbDeleteTableEntry_client hji]
      exact h.idle j fun hx => hj ((hmem j).mpr ⟨hji,hx⟩)

/-- The body of both loops that delete entries. -/
def deleteIf (p : Client σ → Bool) (b : RlbInfo σ) (i : Index) : RlbInfo σ :=
  if p (b.client i) then rlbDeleteTableEntry i b else b

/-- The entries of `ys` with the property are gone, and those that are left are as they were. -/
theorem RlbInfo.Wf.foldl_deleteIf (p : Client σ → Bool) {ys : List Index} (hys : ys.Nodup) (h : b.Wf xs L)
    (hsub : ∀ i ∈ ys, i ∈ xs) :
    ∃ M, (ys.foldl (deleteIf p) b).Wf (xs.filter fun i => !(decide (i ∈ ys) && p (b.client i))) M ∧
      (ys.foldl (deleteIf p) b).toRlbFlags = b.toRlbFlags ∧
      ∀ i ∈ xs, ¬(i ∈ ys ∧ p (b.client i)) → (ys.foldl (deleteIf p) b).client i = b.client i := by
  induction ys generalizing b xs L with
  | nil => exact ⟨L,by simpa using h,rfl,fun _ _ _ => rfl⟩
  | cons j ys ih =>
    obtain ⟨hj,hys⟩ := List.nodup_cons.mp hys
    obtain ⟨hjxs,hsub⟩ := List.forall_mem_cons.mp hsub
    rw [List.foldl_cons,deleteIf]
    by_cases hp : p (b.client j) = true
    · rw [if_pos hp]
      have hmem : ∀ i ∈ ys, i ∈ xs.erase j := fun i hi =>
        h.nodup.mem_erase_iff.mpr ⟨ne_of_mem_of_not_mem hi hj,hsub i hi⟩
      obtain ⟨M,hwf,hflags,hclient⟩ := ih hys (h.delete hjxs) hmem
      refine ⟨M,?_,hflags.trans rlbDeleteTableEntry_flags,fun i hi hne => ?_⟩
      · have hfilter : (xs.erase j).filter (fun i => !(decide (i ∈ ys) && p ((rlbDeleteTableEntry j b).client i))) =
            xs.filter fun i => !(decide (i ∈ j::ys) && p (b.client i)) := by
          rw [h.nodup.erase_eq_filter,List.filter_filter]
          refine List.filter_congr fun i hi => ?_
          by_cases hij : i = j
          · simp [hij,hp]
          · simp [hij,rlbDeleteTableEntry_client hij]
        rwa [hfilter] at hwf
      · have hij : i ≠ j := fun he => hne ⟨by simp [he],he ▸ hp⟩
        rw [hclient i (h.nodup.mem_erase_iff.mpr ⟨hij,hi⟩) ?_,rlbDeleteTableEntry_client hij]
        rw [rlbDeleteTableEntry_client hij]
        exact fun hbad => hne ⟨List.mem_cons_of_mem j hbad.1,hbad.2⟩
    · rw [if_neg hp]
      obtain ⟨M,hwf,hflags,hclient⟩ := ih hys h hsub
      refine ⟨M,?_,hflags,fun i hi hne => hclient i hi fun hbad => hne ⟨List.mem_cons_of_mem j hbad.1,hbad.2⟩⟩
      have hfilter : xs.filter (fun i => !(decide (i ∈ ys) && p (b.client i))) =
          xs.filter fun i => !(decide (i ∈ j::ys) && p (b.client i)) := by
        refine List.filter_congr fun i hi => ?_
        by_cases hij : i = j
        · simp [hij,hp]
        · simp [hij]
      rwa [hfilter] at hwf

end Delete

/-- The table as a list of clients, with the flags. -/
structure ClientList (σ : Type) extends RlbFlags σ where
  clients : List (Client σ)

/-- The table shows the list of clients. -/
def RlbInfo.Shows (b : RlbInfo σ) (s : ClientList σ) : Prop :=
  ∃ xs L, b.Wf xs L ∧ s = ⟨b.toRlbFlags,xs.map b.client⟩

namespace ClientList

def filter (p : Client σ → Bool) (s : ClientList σ) : ClientList σ := { s with clients := s.clients.filter p }

/-- A client takes the place of the one with the same hash value, or comes in front. -/
def put (c : Client σ) (s : ClientList σ) : ClientList σ :=
  if s.clients.any fun d => ipHash d.ipDst = ipHash c.ipDst then
    { s with clients := s.clients.map fun d => if ipHash d.ipDst = ipHash c.ipDst then c else d }
  else { s with clients := c::s.clients }

end ClientList

section Loops
variable {b : RlbInfo σ} {xs : List Index} {L : Index → List Index} {s : ClientList σ}

/-- Taking a node out of a list leaves what is behind it at the end of the list. -/
theorem erase_middle {pre rest : List Index} {i : Index} (h : (pre ++ i::rest).Nodup) :
    (pre ++ i::rest).erase i = pre ++ rest := by
  have hi : i ∉ pre := fun hi => (List.nodup_append.mp h).2.2 i hi i List.mem_cons_self rfl
  rw [List.erase_append_right _ hi,List.erase_cons_head]

/-- What is left in the table after a loop that deletes entries of `ys`, if only those have the property. -/
theorem RlbInfo.Wf.shows_deleteIf (p : Client σ → Bool) {ys : List Index} (hys : ys.Nodup) (h : b.Wf xs L)
    (hsub : ∀ i ∈ ys, i ∈ xs) (hp : ∀ i ∈ xs, p (b.client i) = true → i ∈ ys) :
    (ys.foldl (deleteIf p) b).Shows (ClientList.filter (fun c => !p c) ⟨b.toRlbFlags,xs.map b.client⟩) := by
  obtain ⟨M,hwf,hflags,hclient⟩ := h.foldl_deleteIf p hys hsub
  refine ⟨_,M,hwf,?_⟩
  have hfilter : xs.filter (fun i => !(decide (i ∈ ys) && p (b.client i))) = xs.filter fun i => !p (b.client i) := by
    refine List.filter_congr fun i hi => ?_
    by_cases hpi : p (b.client i) = true
    · simp [hpi,hp i hi hpi]
    · simp [hpi]
  have hmap : (xs.filter fun i => !p (b.client i)).map (ys.foldl (deleteIf p) b).client =
      (xs.map b.client).filter fun c => !p c := by
    rw [List.filter_map]
    refine List.map_congr_left fun i hi => ?_
    obtain ⟨hi,hpi⟩ := List.mem_filter.mp hi
    refine hclient i hi fun hbad => ?_
    simp [hbad.2] at hpi
  rw [hfilter,hflags,hmap]
  rfl

theorem shows_rlbPurgeSrcIp (h : b.Shows s) (arp : ArpPkt) :
    ∃ b', rlbPurgeSrcIp arp b = some b' ∧
      b'.Shows (s.filter fun c => !decide (c.ipSrc = arp.ipSrc ∧ arp.macSrc ≠ c.macSrc)) := by
  obtain ⟨xs,L,hwf,rfl⟩ := h
  have hchain := hwf.src.chain (ipHash arp.ipSrc)
  have hbody : purgeBody arp = deleteIf (σ := σ) fun c => decide (c.ipSrc = arp.ipSrc ∧ arp.macSrc ≠ c.macSrc) := by
    funext b i
    simp [purgeBody,deleteIf]
  refine ⟨_,?_,hwf.shows_deleteIf _ hchain.nodup (fun i hi => ((hwf.mem_src _ i).mp hi).1) fun i hi hp => ?_⟩
  · have hfirst : b.srcFirst (ipHash arp.ipSrc) = (L (ipHash arp.ipSrc)).head? := hchain.head?
    rw [rlbPurgeSrcIp,hbody,hfirst]
    -- the entries ahead are the end of the source list, whatever was deleted of it
    refine forLinks_eq_foldl (fun rest c => ∃ ys M pre, RlbInfo.Wf c ys M ∧ M (ipHash arp.ipSrc) = pre ++ rest)
      (fun c i rest hI => ?_) ⟨xs,L,[],hwf,rfl⟩ (RlbInfo.length_lt hchain.nodup)
    obtain ⟨ys,M,pre,hc,hM⟩ := hI
    have hcchain := hc.src.chain (ipHash arp.ipSrc)
    rw [hM] at hcchain
    refine ⟨hcchain.links.2.1,?_⟩
    rw [deleteIf]
    split
    · have hi : i ∈ ys := ((hc.mem_src (ipHash arp.ipSrc) i).mp (by simp [hM])).1
      exact ⟨_,_,pre,hc.delete hi,by rw [hM,erase_middle hcchain.nodup]⟩
    · exact ⟨ys,M,pre ++ [i],hc,by simp [hM]⟩
  · refine (hwf.mem_src _ i).mpr ⟨hi,?_⟩
    rw [(of_decide_eq_true hp).1]

theorem shows_rlbClearVlan (h : b.Shows s) (vlanId : UInt16) :
    ∃ b', rlbClearVlan vlanId b = some b' ∧ b'.Shows (s.filter fun c => !decide (c.vlanId = vlanId)) := by
  obtain ⟨xs,L,hwf,rfl⟩ := h
  have hbody : clearVlanBody vlanId = deleteIf (σ := σ) fun c => decide (c.vlanId = vlanId) := by
    funext b i
    simp [clearVlanBody,deleteIf]
  refine ⟨_,?_,hwf.shows_deleteIf _ hwf.nodup (fun _ hi => hi) fun _ hi _ => hi⟩
  have hhead : b.rxHashtblUsedHead = xs.head? := hwf.used.chain.head?
  rw [rlbClearVlan,hbody,hhead]
  refine forLinks_eq_foldl (fun rest c => ∃ M pre, RlbInfo.Wf c (pre ++ rest) M)
    (fun c i rest hI => ?_) ⟨L,[],hwf⟩ (RlbInfo.length_lt hwf.nodup)
  obtain ⟨M,pre,hc⟩ := hI
  refine ⟨hc.used.chain.links.2.1,?_⟩
  rw [deleteIf]
  split
  · have hdel := hc.delete (i := i) (by simp)
    rw [erase_middle hc.nodup] at hdel
    exact ⟨_,pre,hdel⟩
  · exact ⟨M,pre ++ [i],by simpa using hc⟩

/-- A loop over the used entries is the same loop over the list of clients. -/
theorem RlbInfo.Wf.forUsed_eq (h : b.Wf xs L) {ρ : Type} (body : ρ → Client σ → ρ × Client σ) (r : ρ) :
    ∃ f, forUsed body b r = some ((mapAccum body r (xs.map b.client)).1,f) ∧
      xs.map f = (mapAccum body r (xs.map b.client)).2 ∧ ∀ i, i ∉ xs → f i = b.client i := by
  have hhead : b.rxHashtblUsedHead = xs.head? := h.used.chain.head?
  have hloop : forUsed body b r = some (xs.foldl (storeEach body) (r,b.client)) := by
    rw [forUsed,hhead]
    refine forLinks_eq_foldl (fun rest _ => ∃ pre, xs = pre ++ rest) (fun _ i rest hI => ?_) ⟨[],rfl⟩
      (RlbInfo.length_lt h.nodup)
    obtain ⟨pre,rfl⟩ := hI
    exact ⟨h.used.chain.links.2.1,pre ++ [i],by simp⟩
  obtain ⟨hfold,hout⟩ := foldl_storeEach body h.nodup r b.client
  rw [Prod.ext_iff] at hfold
  exact ⟨_,hloop.trans (congrArg some (Prod.ext hfold.1 rfl)),hfold.2,hout⟩

/-- The addresses of a client stay what they are. -/
def KeepsAddresses {ρ : Type} (body : ρ → Client σ → ρ × Client σ) : Prop :=
  ∀ r c, (body r c).2.ipSrc = c.ipSrc ∧ (body r c).2.ipDst = c.ipDst

theorem KeepsAddresses.mapAccum {ρ : Type} {body : ρ → Client σ → ρ × Client σ} (hb : KeepsAddresses body) (r : ρ)
    (cs : List (Client σ)) :
    (Base.mapAccum body r cs).2.map (fun c => (c.ipSrc,c.ipDst)) = cs.map fun c => (c.ipSrc,c.ipDst) := by
  induction cs generalizing r with
  | nil => rfl
  | cons c cs ih =>
    obtain ⟨hs,hd⟩ := hb r c
    rw [Base.mapAccum,List.map_cons,List.map_cons,ih,hs,hd]

/-- Clients of the same addresses in the same entries. -/
theorem RlbInfo.Wf.store (h : b.Wf xs L) {f : Index → Client σ} {flags : RlbFlags σ}
    (hs : ∀ i ∈ xs, (f i).ipSrc = (b.client i).ipSrc) (hd : ∀ i ∈ xs, (f i).ipDst = (b.client i).ipDst)
    (hout : ∀ i, i ∉ xs → f i = b.client i) : RlbInfo.Wf { b with toRlbFlags := flags, client := f } xs L where
  used := h.used
  src := h.src
  mem_used := h.mem_used
  mem_src g i := by
    rw [h.mem_src]
    refine and_congr_right fun hi => ?_
    rw [hs i hi]
  key i hi := (congrArg ipHash (hd i hi)).trans (h.key i hi)
  idle i hi := (congrArg Client.slave (hout i hi)).trans (h.idle i hi)

theorem RlbInfo.Wf.forUsed (h : b.Wf xs L) {ρ : Type} {body : ρ → Client σ → ρ × Client σ} (hb : KeepsAddresses body)
    (r : ρ) :
    ∃ f, Bonding.forUsed body b r = some ((mapAccum body r (xs.map b.client)).1,f) ∧
      xs.map f = (mapAccum body r (xs.map b.client)).2 ∧
      ∀ flags, RlbInfo.Wf { b with toRlbFlags := flags, client := f } xs L := by
  obtain ⟨f,hf,hmap,hout⟩ := h.forUsed_eq body r
  have hkeep : ∀ i ∈ xs, ((f i).ipSrc,(f i).ipDst) = ((b.client i).ipSrc,(b.client i).ipDst) := by
    have haddr := hb.mapAccum r (xs.map b.client)
    rw [← hmap,List.map_map,List.map_map] at haddr
    exact List.map_inj_left.mp haddr
  refine ⟨f,hf,hmap,fun flags => h.store ?_ ?_ hout⟩
  · exact fun i hi => (Prod.ext_iff.mp (hkeep i hi)).1
  · exact fun i hi => (Prod.ext_iff.mp (hkeep i hi)).2

theorem shows_forUsed (h : b.Shows s) {ρ : Type} {body : ρ → Client σ → ρ × Client σ} (hb : KeepsAddresses body)
    (r : ρ) :
    ∃ f, forUsed body b r = some ((mapAccum body r s.clients).1,f) ∧ ∀ flags,
      RlbInfo.Shows { b with toRlbFlags := flags, client := f } ⟨flags,(mapAccum body r s.clients).2⟩ := by
  obtain ⟨xs,L,hwf,rfl⟩ := h
  obtain ⟨f,hf,hmap,hwf'⟩ := hwf.forUsed hb r
  exact ⟨f,hf,fun flags => ⟨xs,L,hwf' flags,by rw [hmap]⟩⟩

end Loops

namespace ClientList
variable [DecidableEq σ]

/-- The loops that carry the flags along. -/
def sweep (s : ClientList σ) (body : RlbFlags σ → Client σ → RlbFlags σ × Client σ) : ClientList σ :=
  ⟨(mapAccum body s.toRlbFlags s.clients).1,(mapAccum body s.toRlbFlags s.clients).2⟩

def updateRxClients (P : RlbParams) (S : Slaves σ) (s : ClientList σ) : ClientList σ × List (ArpReply σ) :=
  let r := mapAccum (updateRxClientsBody P S) (s.toRlbFlags,[]) s.clients
  (⟨{ r.1.1 with rlbUpdateDelayCounter := P.updateDelay },r.2⟩,r.1.2)

def reqUpdateSlaveClients (P : RlbParams) (slave : σ) (s : ClientList σ) : ClientList σ :=
  let r := mapAccum (reqUpdateSlaveClientsBody slave) false s.clients
  ⟨s.toRlbFlags.fasten P r.1,r.2⟩

def rebalance (S : Slaves σ) (s : ClientList σ) : ClientList σ :=
  let r := mapAccum (rebalanceBody S) (s.toRlbFlags,false) s.clients
  ⟨if r.1.2 then { r.1.1 with rxNtt := true } else r.1.1,r.2⟩

/-- A client that answers tells its hardware address. -/
def updateFromArp (arp : ArpPkt) (s : ClientList σ) : ClientList σ :=
  { s with
    rxNtt := s.clients.any (·.tells arp) || s.rxNtt
    clients := s.clients.map fun c => if c.tells arp then c.told arp else c }

/-- The client of a packet goes to the next slave. -/
def assign (S : Slaves σ) (tag : Option UInt16) (arp : ArpPkt) (s : ClientList σ) : Option σ × ClientList σ :=
  match rlbNextRxSlave S s.rxSlave with
  | none => (none,s)
  | some a =>
    (some a,put (arpClient arp tag a) { s with
      rxSlave := some a, rxNtt := isValidEtherAddr arp.macDst || s.rxNtt })

/-- A client that is known keeps its slave; a new one that falls on the hash value of another takes its
place, and the other one is told of the active slave. -/
def chooseChannel (P : RlbParams) (S : Slaves σ) (tag : Option UInt16) (arp : ArpPkt) (s : ClientList σ) :
    Option σ × ClientList σ × List (ArpReply σ) :=
  match s.clients.find? fun d => ipHash d.ipDst = ipHash arp.ipDst with
  | none => ((assign S tag arp s).1,(assign S tag arp s).2,[])
  | some c =>
    if c.ipSrc = arp.ipSrc ∧ c.ipDst = arp.ipDst then
      let macDst := if !isBroadcastEtherAddr arp.macDst then arp.macDst else c.macDst
      let s := s.put { c with macDst, macSrc := arp.macSrc }
      match c.slave with
      | some a => (some a,s,[])
      | none => ((assign S tag arp s).1,(assign S tag arp s).2,[])
    else
      match S.currActiveSlave with
      | some a =>
        if c.slave ≠ some a then
          let s := s.put { c with slave := some a }
          ((assign S tag arp s).1,(assign S tag arp s).2,rlbUpdateClient P S { c with slave := some a })
        else ((assign S tag arp s).1,(assign S tag arp s).2,[])
      | none => ((assign S tag arp s).1,(assign S tag arp s).2,[])

end ClientList

section Put
variable {b : RlbInfo σ} {xs : List Index} {L : Index → List Index} {i : Index}

theorem RlbInfo.Wf.find_eq (h : b.Wf xs L) (i : Index) :
    ((xs.map b.client).find? fun d => ipHash d.ipDst = i) = if b.assigned i then some (b.client i) else none := by
  rw [List.find?_map]
  cases hf : xs.find? ((fun d => decide (ipHash d.ipDst = i)) ∘ b.client) with
  | none =>
    have hi : i ∉ xs := fun hi => by
      have hne := List.find?_eq_none.mp hf i hi
      exact hne (decide_eq_true (h.key i hi))
    rw [if_neg fun ha => hi ((h.mem_used i).mpr ha)]
    rfl
  | some j =>
    have hj := List.mem_of_find?_eq_some hf
    have hji := List.find?_some hf
    rw [Function.comp_apply,decide_eq_true_eq,h.key j hj] at hji
    subst hji
    rw [if_pos ((h.mem_used j).mp hj)]
    rfl

/-- The used entries with `i` among them. -/
def entered (i : Index) (b : RlbInfo σ) (xs : List Index) : List Index := if b.assigned i then xs else i::xs

theorem RlbInfo.Wf.mem_entered (h : b.Wf xs L) {j : Index} : j ∈ entered i b xs ↔ j = i ∨ j ∈ xs := by
  rw [entered]
  split
  · next ha =>
    rw [or_iff_right_of_imp]
    rintro rfl
    exact (h.mem_used j).mpr ha
  · exact List.mem_cons

theorem RlbInfo.Wf.put_eq (h : b.Wf xs L) {c : Client σ} (hc : ipHash c.ipDst = i) (flags : RlbFlags σ) :
    ClientList.put c ⟨flags,xs.map b.client⟩ =
      ⟨flags,(entered i b xs).map (Function.update b.client i c)⟩ := by
  have hany : (xs.map b.client).any (fun d => ipHash d.ipDst = ipHash c.ipDst) = b.assigned i := by
    rw [Bool.eq_iff_iff,List.any_map,List.any_eq_true,hc,← h.mem_used]
    constructor
    · rintro ⟨j,hj,hji⟩
      rw [← of_decide_eq_true hji,h.key j hj]
      exact hj
    · exact fun hi => ⟨i,hi,decide_eq_true (h.key i hi)⟩
  rw [ClientList.put,hany,entered]
  cases ha : b.assigned i with
  | true =>
    rw [if_pos rfl,if_pos rfl,List.map_map]
    congr 1
    refine List.map_congr_left fun j hj => ?_
    by_cases hji : j = i
    · subst hji
      simp [h.key j hj,hc]
    · simp [h.key j hj,hc,hji]
  | false =>
    have hi : i ∉ xs := fun hi => by simp [(h.mem_used i).mp hi] at ha
    have hsame : xs.map (Function.update b.client i c) = xs.map b.client :=
      List.map_congr_left fun j hj => Function.update_of_ne (ne_of_mem_of_not_mem hj hi) _ _
    simp [hsame]

/-- Another client of the same addresses in a used entry. -/
theorem RlbInfo.Wf.shows_setClient (h : b.Wf xs L) (ha : b.assigned i = true) {c : Client σ} (flags : RlbFlags σ)
    (hs : c.ipSrc = (b.client i).ipSrc) (hd : c.ipDst = (b.client i).ipDst) :
    RlbInfo.Shows { b.setClient i c with toRlbFlags := flags } ⟨flags,xs.map (Function.update b.client i c)⟩ := by
  have hi : i ∈ xs := (h.mem_used i).mpr ha
  refine ⟨xs,L,h.store (fun j _ => ?_) (fun j _ => ?_) fun j hj => ?_,rfl⟩
  · by_cases hj : j = i
    · simp [RlbInfo.setClient,hj,hs]
    · simp [RlbInfo.setClient,hj]
  · by_cases hj : j = i
    · simp [RlbInfo.setClient,hj,hd]
    · simp [RlbInfo.setClient,hj]
  · exact Function.update_of_ne (ne_of_mem_of_not_mem hi hj).symm _ _

end Put

section Assign
variable {b : RlbInfo σ} {xs : List Index} {L : Index → List Index} {i : Index} {arp : ArpPkt}

/-- The source lists after the entry has been moved to the list of `arp->ip_src`. -/
def fixedSrc (arp : ArpPkt) (i : Index) (b : RlbInfo σ) : Buckets Index :=
  if b.assigned i ∧ (b.client i).ipSrc = arp.ipSrc then b.src else (b.src.unlink i).link (ipHash arp.ipSrc) i

def fixedLists (arp : ArpPkt) (i : Index) (b : RlbInfo σ) (L : Index → List Index) : Index → List Index :=
  if b.assigned i ∧ (b.client i).ipSrc = arp.ipSrc then L
  else Function.update (fun g => (L g).erase i) (ipHash arp.ipSrc) (i::(L (ipHash arp.ipSrc)).erase i)

theorem fixSrcList_eq (arp : ArpPkt) (i : Index) (b : RlbInfo σ) :
    fixSrcList arp i b = { b with
      srcFirst := (fixedSrc arp i b).first
      srcNext := (fixedSrc arp i b).next
      srcPrev := (fixedSrc arp i b).prev } := by
  rw [fixSrcList,fixedSrc]
  by_cases h : b.assigned i ∧ (b.client i).ipSrc = arp.ipSrc
  · rw [if_neg (not_not_intro h),if_pos h]
    rfl
  · rw [if_pos h,if_neg h,rlbSrcUnlink_eq]
    rfl

theorem RlbInfo.Wf.is_fixedSrc (h : b.Wf xs L) (arp : ArpPkt) (i : Index) :
    (fixedSrc arp i b).Is (fixedLists arp i b L) := by
  rw [fixedSrc,fixedLists]
  split
  · exact h.src
  · exact (h.src.unlink i).link (fun g hg => absurd hg (h.src.chain g).nodup.not_mem_erase) _

/-- The entry is on the list of its new source address, and the others are where they were. -/
theorem RlbInfo.Wf.mem_fixedLists (h : b.Wf xs L) {c : Client σ} (hc : c.ipSrc = arp.ipSrc) (g j : Index) :
    j ∈ fixedLists arp i b L g ↔ j ∈ entered i b xs ∧ ipHash (Function.update b.client i c j).ipSrc = g := by
  rw [fixedLists,h.mem_entered]
  by_cases hj : j = i
  · subst hj
    rw [Function.update_self,hc]
    split
    · next hcond => rw [h.mem_src,hcond.2,h.mem_used j,hcond.1,or_iff_right_of_imp fun _ => rfl]
    · rw [Buckets.mem_update_cons]
      simpa [(h.src.chain g).nodup.not_mem_erase] using eq_comm
  · rw [Function.update_of_ne hj]
    split
    · simpa [hj] using h.mem_src g j
    · rw [Buckets.mem_update_cons]
      simpa [hj,List.mem_erase_of_ne hj] using h.mem_src g j

/-- The list of the used entries after `i` has been put on it. -/
def usedWith (i : Index) (b : RlbInfo σ) : DList Index := if b.assigned i then b.used else b.used.push i

theorem enterUsed_eq (i : Index) (b : RlbInfo σ) :
    enterUsed i b = { b with
      assigned := Function.update b.assigned i true, rxHashtblUsedHead := (usedWith i b).head
      usedNext := (usedWith i b).next, usedPrev := (usedWith i b).prev } := by
  rw [enterUsed,usedWith]
  cases ha : b.assigned i with
  | true =>
    have hself : Function.update b.assigned i true = b.assigned := by rw [← ha,Function.update_eq_self]
    simp only [hself]
    rfl
  | false => rfl

theorem storeClient_eq (arp : ArpPkt) (tag : Option UInt16) (a : σ) (i : Index) (b : RlbInfo σ) :
    storeClient arp tag a i b = { b.setClient i (arpClient arp tag a) with
      rxNtt := isValidEtherAddr arp.macDst || b.rxNtt } := by
  rw [storeClient]
  cases isValidEtherAddr arp.macDst <;> rfl

/-- The table with the client `c` in entry `i`. -/
theorem RlbInfo.Wf.enter (h : b.Wf xs L) {c : Client σ} (hsrc : c.ipSrc = arp.ipSrc) (hdst : ipHash c.ipDst = i)
    (flags : RlbFlags σ) :
    RlbInfo.Wf
      { toRlbFlags := flags
        client := Function.update b.client i c
        assigned := Function.update b.assigned i true
        usedNext := (usedWith i b).next
        usedPrev := (usedWith i b).prev
        srcFirst := (fixedSrc arp i b).first
        srcPrev := (fixedSrc arp i b).prev
        srcNext := (fixedSrc arp i b).next
        rxHashtblUsedHead := (usedWith i b).head } (entered i b xs) (fixedLists arp i b L) where
  used := by
    change (usedWith i b).Is _
    rw [usedWith,entered]
    split
    · exact h.used
    · next ha => exact h.used.push fun hi => ha ((h.mem_used i).mp hi)
  src := h.is_fixedSrc arp i
  mem_used j := by
    rw [h.mem_entered]
    by_cases hj : j = i
    · simp [hj]
    · simpa [hj] using h.mem_used j
  mem_src := h.mem_fixedLists hsrc
  key j hj := by
    by_cases hji : j = i
    · simpa [hji] using hdst
    · simpa [hji] using h.key j ((h.mem_entered.mp hj).resolve_left hji)
  idle j hj := by
    obtain ⟨hji,hjx⟩ := not_or.mp fun hor => hj (h.mem_entered.mpr hor)
    simpa [hji] using h.idle j hjx

/-- The entry of the hash value of `arp->ip_dst` gets the client of `arp`. -/
theorem RlbInfo.Wf.shows_assignEntry (h : b.Wf xs L) (hi : ipHash arp.ipDst = i) (tag : Option UInt16) (a : σ) :
    (assignEntry arp tag a i b).Shows
      (ClientList.put (arpClient arp tag a)
        ⟨{ b.toRlbFlags with rxNtt := isValidEtherAddr arp.macDst || b.rxNtt },xs.map b.client⟩) := by
  have hi : ipHash (arpClient arp tag a).ipDst = i := hi
  rw [h.put_eq hi,assignEntry,enterUsed_eq,storeClient_eq,fixSrcList_eq]
  exact ⟨entered i b xs,fixedLists arp i b L,h.enter rfl hi _,rfl⟩

end Assign

section Refinement
variable [DecidableEq σ] {b : RlbInfo σ} {s : ClientList σ} {S : Slaves σ} {arp : ArpPkt}

omit [DecidableEq σ] in
theorem RlbInfo.Shows.flags (h : b.Shows s) : s.toRlbFlags = b.toRlbFlags := by
  obtain ⟨xs,L,-,rfl⟩ := h
  rfl

omit [DecidableEq σ] in
theorem RlbInfo.Wf.withFlags {xs : List Index} {L : Index → List Index} (h : b.Wf xs L) (flags : RlbFlags σ) :
    RlbInfo.Wf { b with toRlbFlags := flags } xs L := ⟨h.used,h.src,h.mem_used,h.mem_src,h.key,h.idle⟩

omit [DecidableEq σ] in
theorem RlbInfo.Shows.withFlags (h : b.Shows s) (flags : RlbFlags σ) :
    RlbInfo.Shows { b with toRlbFlags := flags } { s with toRlbFlags := flags } := by
  obtain ⟨xs,L,hwf,rfl⟩ := h
  exact ⟨xs,L,hwf.withFlags flags,rfl⟩

omit [DecidableEq σ] in
theorem shows_sweep (h : b.Shows s) {body : RlbFlags σ → Client σ → RlbFlags σ × Client σ}
    (hb : KeepsAddresses body) : ∃ b', b.sweep body = some b' ∧ b'.Shows (s.sweep body) := by
  obtain ⟨f,hf,hshows⟩ := shows_forUsed h hb b.toRlbFlags
  refine ⟨_,by rw [RlbInfo.sweep,hf]; rfl,?_⟩
  rw [ClientList.sweep,h.flags]
  exact hshows _

theorem shows_rlbClearSlave (P : RlbParams) (slave : σ) (h : b.Shows s) :
    ∃ b', rlbClearSlave P S slave b = some b' ∧ b'.Shows (s.sweep (clearSlaveBody P S slave)) := by
  refine shows_sweep h fun f c => ?_
  rw [clearSlaveBody]
  split
  · split
    · dsimp only
      split <;> exact ⟨rfl,rfl⟩
    · exact ⟨rfl,rfl⟩
  · exact ⟨rfl,rfl⟩

omit [DecidableEq σ] in
theorem shows_rlbReqUpdateSubnetClients (srcIp : UInt32) (h : b.Shows s) :
    ∃ b', rlbReqUpdateSubnetClients S srcIp b = some b' ∧ b'.Shows (s.sweep (reqUpdateSubnetClientsBody S srcIp)) := by
  refine shows_sweep h fun f c => ?_
  rw [reqUpdateSubnetClientsBody]
  split
  · exact ⟨rfl,rfl⟩
  · split <;> exact ⟨rfl,rfl⟩

omit [DecidableEq σ] in
theorem shows_rlbUpdateRxClients (P : RlbParams) (h : b.Shows s) :
    ∃ b', rlbUpdateRxClients P S b = some (b',(s.updateRxClients P S).2) ∧ b'.Shows (s.updateRxClients P S).1 := by
  have hb : KeepsAddresses (updateRxClientsBody P S) := fun r c => by
    rw [updateRxClientsBody]
    split
    · dsimp only
      split <;> exact ⟨rfl,rfl⟩
    · exact ⟨rfl,rfl⟩
  obtain ⟨f,hf,hshows⟩ := shows_forUsed h hb (b.toRlbFlags,[])
  rw [ClientList.updateRxClients,h.flags]
  exact ⟨_,by rw [rlbUpdateRxClients,hf]; rfl,hshows _⟩

theorem shows_rlbReqUpdateSlaveClients (P : RlbParams) (slave : σ) (h : b.Shows s) :
    ∃ b', rlbReqUpdateSlaveClients P slave b = some b' ∧ b'.Shows (s.reqUpdateSlaveClients P slave) := by
  have hb : KeepsAddresses (reqUpdateSlaveClientsBody slave) := fun r c => by
    rw [reqUpdateSlaveClientsBody]
    split <;> exact ⟨rfl,rfl⟩
  obtain ⟨f,hf,hshows⟩ := shows_forUsed h hb false
  rw [ClientList.reqUpdateSlaveClients,h.flags]
  exact ⟨_,by rw [rlbReqUpdateSlaveClients,hf]; rfl,hshows _⟩

theorem keepsAddresses_rebalanceBody : KeepsAddresses (rebalanceBody S) := by
  intro r c
  rw [rebalanceBody]
  split
  · exact ⟨rfl,rfl⟩
  · dsimp only
    split
    · split <;> exact ⟨rfl,rfl⟩
    · exact ⟨rfl,rfl⟩

theorem shows_rlbRebalance (h : b.Shows s) :
    ∃ b', rlbRebalance S b = some b' ∧ b'.Shows (s.rebalance S) := by
  obtain ⟨f,hf,hshows⟩ := shows_forUsed h keepsAddresses_rebalanceBody (b.toRlbFlags,false)
  rw [ClientList.rebalance,h.flags]
  exact ⟨_,by rw [rlbRebalance,hf]; rfl,hshows _⟩

omit [DecidableEq σ] in
theorem shows_rlbUpdateEntryFromArp (h : b.Shows s) (arp : ArpPkt) :
    (rlbUpdateEntryFromArp arp b).Shows (s.updateFromArp arp) := by
  obtain ⟨xs,L,hwf,rfl⟩ := h
  -- only the entry of the hash value of the sender can be that of a client that is told about
  have hkey : ∀ j ∈ xs, (b.client j).tells arp = true → j = ipHash arp.ipSrc := by
    intro j hj htells
    rw [Client.tells,decide_eq_true_eq] at htells
    rw [← htells.2.1,hwf.key j hj]
  have hany : (xs.map b.client).any (·.tells arp) =
      (b.assigned (ipHash arp.ipSrc) && (b.client (ipHash arp.ipSrc)).tells arp) := by
    rw [Bool.eq_iff_iff,List.any_map,List.any_eq_true,Bool.and_eq_true,← hwf.mem_used]
    constructor
    · rintro ⟨j,hj,htells⟩
      obtain rfl := hkey j hj htells
      exact ⟨hj,htells⟩
    · exact fun h => ⟨_,h.1,h.2⟩
  rw [rlbUpdateEntryFromArp,ClientList.updateFromArp]
  dsimp only
  rw [hany]
  by_cases hcond : (b.assigned (ipHash arp.ipSrc) && (b.client (ipHash arp.ipSrc)).tells arp) = true
  · obtain ⟨ha,htells⟩ := Bool.and_eq_true_iff.mp hcond
    have hmap : (xs.map b.client).map (fun c => if c.tells arp then c.told arp else c) =
        xs.map (Function.update b.client (ipHash arp.ipSrc) ((b.client (ipHash arp.ipSrc)).told arp)) := by
      rw [List.map_map]
      refine List.map_congr_left fun j hj => ?_
      by_cases hji : j = ipHash arp.ipSrc
      · simp [hji,htells]
      · simp [hji,mt (hkey j hj) hji]
    rw [if_pos hcond,hmap,hcond]
    exact hwf.shows_setClient ha _ rfl rfl
  · have hmap : (xs.map b.client).map (fun c => if c.tells arp then c.told arp else c) = xs.map b.client := by
      rw [List.map_map]
      refine List.map_congr_left fun j hj => if_neg fun htells => ?_
      obtain rfl := hkey j hj htells
      exact hcond (Bool.and_eq_true_iff.mpr ⟨(hwf.mem_used _).mp hj,htells⟩)
    rw [if_neg hcond,hmap,Bool.eq_false_iff.mpr hcond]
    exact ⟨xs,L,hwf,rfl⟩

theorem shows_assignNew (h : b.Shows s) (tag : Option UInt16) (arp : ArpPkt) :
    (assignNew S arp tag (ipHash arp.ipDst) b).1 = (s.assign S tag arp).1 ∧
      (assignNew S arp tag (ipHash arp.ipDst) b).2.Shows (s.assign S tag arp).2 := by
  rw [assignNew,ClientList.assign,h.flags]
  cases rlbNextRxSlave S b.rxSlave with
  | none => exact ⟨rfl,h⟩
  | some a =>
    obtain ⟨xs,L,hwf,rfl⟩ := h
    exact ⟨rfl,(hwf.withFlags { b.toRlbFlags with rxSlave := some a }).shows_assignEntry rfl tag a⟩

theorem shows_rlbChooseChannel (P : RlbParams) (h : b.Shows s) (tag : Option UInt16) (arp : ArpPkt) :
    (rlbChooseChannel P S tag arp b).1 = (s.chooseChannel P S tag arp).1 ∧
      (rlbChooseChannel P S tag arp b).2.1.Shows (s.chooseChannel P S tag arp).2.1 ∧
      (rlbChooseChannel P S tag arp b).2.2 = (s.chooseChannel P S tag arp).2.2 := by
  have hassign : ∀ {c : RlbInfo σ} {t : ClientList σ} {out : List (ArpReply σ)}, c.Shows t →
      (assignNew S arp tag (ipHash arp.ipDst) c).1 = (t.assign S tag arp).1 ∧
        (assignNew S arp tag (ipHash arp.ipDst) c).2.Shows (t.assign S tag arp).2 ∧ out = out :=
    fun hc => ⟨(shows_assignNew hc tag arp).1,(shows_assignNew hc tag arp).2,rfl⟩
  rw [rlbChooseChannel,ClientList.chooseChannel]
  obtain ⟨xs,L,hwf,rfl⟩ := id h
  rw [hwf.find_eq]
  cases ha : b.assigned (ipHash arp.ipDst) with
  | false => exact hassign h
  | true =>
    simp only [if_true]
    have hput : ∀ c : Client σ, c.ipSrc = (b.client (ipHash arp.ipDst)).ipSrc →
        c.ipDst = (b.client (ipHash arp.ipDst)).ipDst →
        (b.setClient (ipHash arp.ipDst) c).Shows (ClientList.put c ⟨b.toRlbFlags,xs.map b.client⟩) := by
      intro c hs hd
      have hc : ipHash c.ipDst = ipHash arp.ipDst := by rw [hd,hwf.key _ ((hwf.mem_used _).mpr ha)]
      rw [hwf.put_eq hc,entered,if_pos ha]
      exact hwf.shows_setClient ha b.toRlbFlags hs hd
    split
    · cases (b.client (ipHash arp.ipDst)).slave with
      | some a => exact ⟨rfl,hput _ rfl rfl,rfl⟩
      | none => exact hassign (hput _ rfl rfl)
    · cases S.currActiveSlave with
      | none => exact hassign h
      | some a =>
        dsimp only
        split
        · exact hassign (hput _ rfl rfl)
        · exact hassign h

end Refinement
end Linuxab.Bonding
