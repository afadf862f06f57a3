import Linuxab.Base.Slots
import Linuxab.Bonding.Rlb

/-! Transmit load balancing of servers/bond_alb.c: the hash table that assigns traffic to slaves, and the
list of its entries for every slave. A slave keeps the first entry of its list also while the bond is closed
and its table is gone, so after the bond is opened again the lists of two slaves may run into each other. -/
namespace Linuxab.Bonding
open Linuxab.Base
variable {σ : Type}

/-- `tx_hashtbl` by columns. -/
structure TxHashtbl (σ : Type) where
  txSlave : Index → Option σ
  txBytes : Index → UInt32
  loadHistory : Index → UInt32
  next : Index → Option Index
  prev : Index → Option Index

/-- The fields of `alb_bond_info` for the transmit side, and `SLAVE_TLB_INFO` of the slaves. -/
structure TlbInfo (σ : Type) where
  txHashtbl : Option (TxHashtbl σ)
  head : σ → Option Index
  load : σ → UInt32
  unbalancedLoad : UInt32

section Source
variable [DecidableEq σ]

/-- `interval` is `BOND_TLB_REBALANCE_INTERVAL`. -/
def tlbInitTableEntry (interval : UInt32) (saveLoad : Bool) (t : TxHashtbl σ) (i : Index) : TxHashtbl σ :=
  let t := if saveLoad then
      { t with
        loadHistory := Function.update t.loadHistory i (1 + t.txBytes i / interval)
        txBytes := Function.update t.txBytes i 0 }
    else t
  { t with
    txSlave := Function.update t.txSlave i none
    next := Function.update t.next i none
    prev := Function.update t.prev i none }

def tlbInitSlave (slave : σ) (b : TlbInfo σ) : TlbInfo σ :=
  { b with load := Function.update b.load slave 0, head := Function.update b.head slave none }

def tlbClearSlave (interval : UInt32) (slave : σ) (saveLoad : Bool) (b : TlbInfo σ) : Option (TlbInfo σ) :=
  match b.txHashtbl with
  | none => some (tlbInitSlave slave b)
  | some t =>
    (forLinks (fun t i => t.next i) (tlbInitTableEntry interval saveLoad) 258 t (b.head slave)).map fun t =>
      tlbInitSlave slave { b with txHashtbl := some t }

/-- A table of zero bytes; index 0 is no null index. -/
def zeroTxHashtbl : TxHashtbl σ :=
  ⟨fun _ => none,fun _ => 0,fun _ => 0,fun _ => some zeroIndex,fun _ => some zeroIndex⟩

def newTxHashtbl (interval : UInt32) : TxHashtbl σ :=
  (List.finRange 256).foldl (tlbInitTableEntry interval false) zeroTxHashtbl

def tlbInitialize (interval : UInt32) (b : TlbInfo σ) : TlbInfo σ :=
  { b with txHashtbl := some (newTxHashtbl interval) }

def tlbDeinitialize (b : TlbInfo σ) : TlbInfo σ := { b with txHashtbl := none }

/-- Speed in Mbit/s and load in bytes to bits; both shifts are of 32 bits. -/
def computeGap (S : Slaves σ) (b : TlbInfo σ) (slave : σ) : ℤ :=
  ((S.speed slave <<< 20).toNat : ℤ) - ((b.load slave <<< 3).toNat : ℤ)

/-- The loop starts with `LLONG_MIN`. -/
def tlbGetLeastLoadedSlave (S : Slaves σ) (b : TlbInfo σ) : Option σ :=
  (S.list.foldl (fun (best : Option σ × ℤ) slave =>
    if S.canTx slave ∧ best.2 < computeGap S b slave then (some slave,computeGap S b slave) else best)
    (none,-0x8000000000000000)).1

/-- The entry is put on the list of a slave. -/
def assignTx (t : TxHashtbl σ) (slave : σ) (i : Index) (b : TlbInfo σ) : TlbInfo σ :=
  { b with
    txHashtbl := some { t with
      txSlave := Function.update t.txSlave i (some slave)
      next := Function.update t.next i (b.head slave)
      prev := patch (Function.update t.prev i none) (b.head slave) (some i) }
    head := Function.update b.head slave (some i)
    load := Function.update b.load slave (b.load slave + t.loadHistory i) }

/-- The last part: the length of the packet is added to the entry. -/
def countBytes (i : Index) (len : UInt32) (b : TlbInfo σ) : TlbInfo σ :=
  { b with txHashtbl := b.txHashtbl.map fun t =>
    { t with txBytes := Function.update t.txBytes i (t.txBytes i + len) } }

/-- `__tlb_choose_channel`; without a table it reads through a null pointer. -/
def tlbChooseChannel (S : Slaves σ) (hashIndex : Index) (skbLen : UInt32) (b : TlbInfo σ) :
    Option (Option σ × TlbInfo σ) :=
  b.txHashtbl.map fun t =>
    match t.txSlave hashIndex with
    | some s => (some s,countBytes hashIndex skbLen b)
    | none =>
      match tlbGetLeastLoadedSlave S b with
      | some s => (some s,countBytes hashIndex skbLen (assignTx t s hashIndex b))
      | none => (none,b)

end Source

/-- An entry without a slave has no successor, and one with a slave can be reached from that slave. -/
structure TxHashtbl.Linked (t : TxHashtbl σ) (head : σ → Option Index) : Prop where
  blank : ∀ i, t.txSlave i = none → t.next i = none
  reaches : ∀ i s, t.txSlave i = some s → Reaches t.next (head s) i

section Linked
variable {t : TxHashtbl σ} {head : σ → Option Index} {interval : UInt32} {saveLoad : Bool}

theorem tlbInitTableEntry_next (t : TxHashtbl σ) (i : Index) :
    (tlbInitTableEntry interval saveLoad t i).next = Function.update t.next i none := by
  cases saveLoad <;> rfl

theorem tlbInitTableEntry_txSlave (t : TxHashtbl σ) (i : Index) :
    (tlbInitTableEntry interval saveLoad t i).txSlave = Function.update t.txSlave i none := by
  cases saveLoad <;> rfl

/-- The entries of `V` are free, and all others are as they were. -/
theorem foldl_tlbInitTableEntry (V : List Index) (t : TxHashtbl σ) (i : Index) :
    (V.foldl (tlbInitTableEntry interval saveLoad) t).txSlave i = (if i ∈ V then none else t.txSlave i) ∧
      (V.foldl (tlbInitTableEntry interval saveLoad) t).next i = if i ∈ V then none else t.next i := by
  induction V generalizing t with
  | nil => simp
  | cons j V ih =>
    obtain ⟨hslave,hnext⟩ := ih (tlbInitTableEntry interval saveLoad t j)
    rw [List.foldl_cons,hslave,hnext,tlbInitTableEntry_txSlave,tlbInitTableEntry_next]
    by_cases hi : i = j
    · simp [hi]
    · simp [hi]

/-- If the entries that are reached from a slave are freed, none is left on that slave, and those that are left
are still reached from theirs. -/
theorem TxHashtbl.Linked.clear [DecidableEq σ] (h : t.Linked head) (interval : UInt32) (saveLoad : Bool) {slave : σ}
    {V : List Index} (hfirst : ∀ i, head slave = some i → i ∈ V) (hclosed : ∀ i j, i ∈ V → t.next i = some j → j ∈ V) :
    (V.foldl (tlbInitTableEntry interval saveLoad) t).Linked (Function.update head slave none) ∧
      ∀ i s, (V.foldl (tlbInitTableEntry interval saveLoad) t).txSlave i = some s →
        s ≠ slave ∧ t.txSlave i = some s := by
  have hleft : ∀ i s, (V.foldl (tlbInitTableEntry interval saveLoad) t).txSlave i = some s →
      t.txSlave i = some s ∧ s ≠ slave ∧
        Reaches (V.foldl (tlbInitTableEntry interval saveLoad) t).next (head s) i := by
    intro i s hs
    rw [(foldl_tlbInitTableEntry V t i).1] at hs
    have hi : i ∉ V := fun hi => by
      rw [if_pos hi] at hs
      cases hs
    rw [if_neg hi] at hs
    have hkeep : ∀ j, j ∉ V → (V.foldl (tlbInitTableEntry interval saveLoad) t).next j = t.next j := fun j hj => by
      rw [(foldl_tlbInitTableEntry V t j).2,if_neg hj]
    obtain ⟨hr,hstart⟩ := (h.reaches i s hs).avoids (V := (· ∈ V)) hclosed hi hkeep
    refine ⟨hs,?_,hr⟩
    rintro rfl
    cases hh : head s with
    | none =>
      rw [hh] at hr
      cases hr
    | some j => exact hstart j hh (hfirst j hh)
  refine ⟨⟨fun i hi => ?_,fun i s hs => ?_⟩,fun i s hs => ⟨(hleft i s hs).2.1,(hleft i s hs).1⟩⟩
  · rw [(foldl_tlbInitTableEntry V t i).1] at hi
    rw [(foldl_tlbInitTableEntry V t i).2]
    split
    · rfl
    · next hiV =>
      rw [if_neg hiV] at hi
      exact h.blank i hi
  · obtain ⟨-,hne,hr⟩ := hleft i s hs
    rwa [Function.update_of_ne hne]

/-- A free entry is put in front of the list of a slave. -/
theorem TxHashtbl.Linked.assign [DecidableEq σ] (h : t.Linked head) {i : Index} (hi : t.txSlave i = none) (slave : σ)
    {t' : TxHashtbl σ} (hslave : t'.txSlave = Function.update t.txSlave i (some slave))
    (hnext : t'.next = Function.update t.next i (head slave)) :
    t'.Linked (Function.update head slave (some i)) := by
  constructor
  · intro j hj
    rw [hslave] at hj
    obtain ⟨hji,hj⟩ := of_slots_update hj nofun
    rw [hnext,Function.update_of_ne hji]
    exact h.blank j hj
  · intro j s hs
    rw [hslave] at hs
    rw [hnext]
    by_cases hji : j = i
    · subst hji
      obtain rfl : slave = s := by simpa using hs
      rw [Function.update_self]
      exact .here j
    · rw [Function.update_of_ne hji] at hs
      -- the entry leads nowhere, so no way to another one goes through it
      have hclosed : ∀ k l, k = i → t.next k = some l → l = i := fun k l hk hkl => by
        rw [hk,h.blank i hi] at hkl
        cases hkl
      obtain ⟨hr,-⟩ := (h.reaches j s hs).avoids (V := (· = i)) hclosed hji
        fun k hk => Function.update_of_ne hk (head slave) t.next
      by_cases hss : s = slave
      · subst hss
        rw [Function.update_self]
        refine .next ?_
        rwa [Function.update_self]
      · rwa [Function.update_of_ne hss]

end Linked

namespace TlbInfo

/-- The table, if there is one, and the lists of the slaves fit. -/
def Linked (b : TlbInfo σ) : Prop := ∀ t, b.txHashtbl = some t → t.Linked b.head

/-- A slave has traffic assigned to it. -/
def Uses (b : TlbInfo σ) (s : σ) : Prop := ∃ t i, b.txHashtbl = some t ∧ t.txSlave i = some s

end TlbInfo

section Steps
variable [DecidableEq σ] {b : TlbInfo σ} {S : Slaves σ}

/-- Clearing a slave always ends, and leaves no entry on that slave. -/
theorem exists_tlbClearSlave (h : b.Linked) (interval : UInt32) (slave : σ) (saveLoad : Bool) :
    ∃ b', tlbClearSlave interval slave saveLoad b = some b' ∧ b'.Linked ∧ ∀ s, b'.Uses s → s ≠ slave ∧ b.Uses s := by
  rw [tlbClearSlave]
  cases ht : b.txHashtbl with
  | none =>
    refine ⟨_,rfl,fun t' ht' => ?_,fun s ⟨t',_,ht',_⟩ => ?_⟩ <;> exact absurd (ht.symm.trans ht') nofun
  | some t =>
    have hcard : Finset.card {i | (t.next i).isSome = true} ≤ 256 :=
      (Finset.card_le_univ _).trans_eq (Fintype.card_fin 256)
    have hself : ∀ (t : TxHashtbl σ) i, (tlbInitTableEntry interval saveLoad t i).next i = none := fun t i => by
      rw [tlbInitTableEntry_next,Function.update_self]
    have hother : ∀ (t : TxHashtbl σ) i j, j ≠ i → (tlbInitTableEntry interval saveLoad t i).next j = t.next j :=
      fun t i j hij => by rw [tlbInitTableEntry_next,Function.update_of_ne hij]
    obtain ⟨V,hV,hfirst,hclosed⟩ := forLinks_clearing hself hother (s := t) (n := 258) (by omega) (b.head slave)
    obtain ⟨hlinked,hleft⟩ := (h t ht).clear interval saveLoad hfirst hclosed
    dsimp only
    rw [hV]
    refine ⟨_,rfl,fun t' ht' => ?_,fun s ⟨t',i,ht',hs⟩ => ?_⟩
    · obtain rfl := Option.some.inj ht'
      exact hlinked
    · obtain rfl := Option.some.inj ht'
      exact ⟨(hleft i s hs).1,t,i,ht,(hleft i s hs).2⟩

omit [DecidableEq σ] in
theorem countBytes_linked (h : b.Linked) (i : Index) (len : UInt32) : (countBytes i len b).Linked := by
  intro t' ht'
  obtain ⟨t,ht,rfl⟩ := Option.map_eq_some_iff.mp ht'
  exact ⟨(h t ht).blank,(h t ht).reaches⟩

omit [DecidableEq σ] in
theorem countBytes_uses {i : Index} {len : UInt32} {s : σ} (h : (countBytes i len b).Uses s) : b.Uses s := by
  obtain ⟨t',j,ht',hs⟩ := h
  obtain ⟨t,ht,rfl⟩ := Option.map_eq_some_iff.mp ht'
  exact ⟨t,j,ht,hs⟩

omit [DecidableEq σ] in
/-- The least loaded slave is one of the list that can transmit. -/
theorem mem_of_tlbGetLeastLoadedSlave {s : σ} (h : tlbGetLeastLoadedSlave S b = some s) :
    s ∈ S.list ∧ S.canTx s = true := by
  have hfold := List.foldlRecOn (motive := fun best => ∀ s, best.1 = some s → s ∈ S.list ∧ S.canTx s = true) S.list
    (fun (best : Option σ × ℤ) slave =>
      if S.canTx slave ∧ best.2 < computeGap S b slave then (some slave,computeGap S b slave) else best)
    (b := (none,-0x8000000000000000)) nofun fun best hbest x hx => by
      split
      · next hc =>
        intro s hs
        obtain rfl := Option.some.inj hs
        exact ⟨hx,hc.1⟩
      · exact hbest
  exact hfold s h

/-- While the bond is open, a slave is chosen from the list or was assigned before. -/
theorem exists_tlbChooseChannel (h : b.Linked) {t : TxHashtbl σ} (ht : b.txHashtbl = some t) (i : Index)
    (len : UInt32) :
    ∃ r b', tlbChooseChannel S i len b = some (r,b') ∧ b'.Linked ∧ ∀ s, b'.Uses s → b.Uses s ∨ s ∈ S.list := by
  rw [tlbChooseChannel,ht,Option.map_some]
  cases hs : t.txSlave i with
  | some s => exact ⟨_,_,rfl,countBytes_linked h i len,fun s hs => .inl (countBytes_uses hs)⟩
  | none =>
    cases hl : tlbGetLeastLoadedSlave S b with
    | none => exact ⟨_,_,rfl,h,fun s hs => .inl hs⟩
    | some a =>
      have hlinked : (assignTx t a i b).Linked := by
        intro t' ht'
        obtain rfl := Option.some.inj ht'
        exact (h t ht).assign hs a rfl rfl
      refine ⟨_,_,rfl,countBytes_linked hlinked i len,fun s hu => ?_⟩
      obtain ⟨t',j,ht',hj⟩ := countBytes_uses hu
      obtain rfl := Option.some.inj ht'
      by_cases hji : j = i
      · subst hji
        obtain rfl : a = s := by simpa using hj
        exact .inr (mem_of_tlbGetLeastLoadedSlave hl).1
      · exact .inl ⟨t,j,ht,by simpa [hji] using hj⟩

omit [DecidableEq σ] in
/-- A new table has no entry in use, whatever the slaves point to. -/
theorem tlbInitialize_linked (interval : UInt32) (b : TlbInfo σ) :
    (tlbInitialize interval b).Linked ∧ ∀ s, ¬(tlbInitialize interval b).Uses s := by
  have hentry : ∀ i, (newTxHashtbl (σ := σ) interval).txSlave i = none ∧
      (newTxHashtbl (σ := σ) interval).next i = none := by
    intro i
    obtain ⟨hslave,hnext⟩ := foldl_tlbInitTableEntry (List.finRange 256) (zeroTxHashtbl : TxHashtbl σ) i
    rw [if_pos (List.mem_finRange i)] at hslave hnext
    exact ⟨hslave,hnext⟩
  constructor
  · intro t ht
    obtain rfl := Option.some.inj ht
    refine ⟨fun i _ => (hentry i).2,fun i s hs => ?_⟩
    rw [(hentry i).1] at hs
    cases hs
  · rintro s ⟨t,i,ht,hs⟩
    obtain rfl := Option.some.inj ht
    rw [(hentry i).1] at hs
    cases hs

end Steps
end Linuxab.Bonding
