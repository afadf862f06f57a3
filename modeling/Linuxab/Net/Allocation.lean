import Linuxab.Net.Transmit

/-! Where a new buffer lies. `alloc_skb` takes one page whatever the size asked for, and the size
`dev_alloc_skb` asks for is computed in 32 bits. -/
namespace Linuxab.Net
open Linuxab.Base Linuxab.Base.Program

/-- Leave 64 bytes in front of the data; `false` is a NULL result. -/
def devAllocSkb (length : UInt32) : NetProg Bool := do
  if ← allocSkb (length+64) then
    skbReserve 64
    return true
  else return false

/-- `skb->end - skb->tail` as an `unsigned int`. -/
def skbTailroom (skb : SkBuff) : UInt32 := UInt32.ofNat ((skb.bufEnd-skb.tail) % 2^32).toNat

def pageSize : ℤ := 4096

/-- `sizeof(struct sk_buff)` -/
def skbStructSize : ℤ := 136

/-- `[head, end)` lies behind the structure and inside the page. -/
structure InPage (page : ℤ) (skb : SkBuff) : Prop where
  behind : page+skbStructSize ≤ skb.head
  ordered : skb.head ≤ skb.bufEnd
  inside : skb.bufEnd ≤ page+pageSize

/-- The buffer that the call returns, if any. -/
def Machine.allocated (m : Machine) (alloc : NetProg Bool) : Option SkBuff :=
  if (alloc.exec Machine.handle m).1 then some (alloc.exec Machine.handle m).2.skb else none

/-- `alloc_skb` returns NULL or a buffer inside its page. -/
def AllocSafe (m : Machine) (size : UInt32) : Prop :=
  ∀ skb, m.allocated (allocSkb size) = some skb → ∃ page, m.page = some page ∧ InPage page skb

/-- `dev_alloc_skb` returns NULL or a buffer inside its page with at least `size` bytes after the tail. -/
def DevAllocSafe (m : Machine) (size : UInt32) : Prop :=
  ∀ skb, m.allocated (devAllocSkb size) = some skb →
    ∃ page, m.page = some page ∧ InPage page skb ∧ skb.tail+size.toNat ≤ skb.bufEnd

section Alloc
variable {m : Machine} {page : ℤ}

/-- The buffer in the page, with its data `reserve` bytes behind the head. -/
def freshSkb (page : ℤ) (size : UInt32) (reserve : ℤ) : SkBuff :=
  ⟨page+skbHeaderSize,page+skbHeaderSize+reserve,page+skbHeaderSize+reserve,page+skbHeaderSize+size.toNat,0,none,none,0,
    .host,0⟩

lemma allocated_allocSkb (m : Machine) (size : UInt32) :
    m.allocated (allocSkb size) = m.page.map fun page => freshSkb page size 0 := by
  cases hpage : m.page with
  | none => simp [Machine.allocated,allocSkb,perform,Machine.handle,hpage]
  | some page => simp [Machine.allocated,allocSkb,perform,Machine.handle,hpage,setSkb,freshSkb]

lemma allocated_devAllocSkb (m : Machine) (size : UInt32) :
    m.allocated (devAllocSkb size) = m.page.map fun page => freshSkb page (size+64) 64 := by
  cases hpage : m.page with
  | none => simp [Machine.allocated,devAllocSkb,allocSkb,perform,Machine.handle,hpage]
  | some page =>
    simp [Machine.allocated,devAllocSkb,allocSkb,perform,Machine.handle,hpage,setSkb,getSkb,skbReserve,freshSkb]

lemma inPage_freshSkb_iff (page : ℤ) (size : UInt32) (reserve : ℤ) :
    InPage page (freshSkb page size reserve) ↔ size.toNat ≤ 3904 := by
  constructor
  · intro h
    have := h.inside
    simp only [freshSkb,skbHeaderSize,pageSize] at this
    omega
  · intro h
    constructor <;> simp only [freshSkb,skbHeaderSize,skbStructSize,pageSize] <;> omega

lemma allocSafe_iff (hpage : m.page = some page) (size : UInt32) : AllocSafe m size ↔ size.toNat ≤ 3904 := by
  simp [AllocSafe,allocated_allocSkb,hpage,inPage_freshSkb_iff]

/-- A size near `2^32` wraps around, and then the tail is behind the end. -/
lemma tailroom_freshSkb_iff (page : ℤ) (size : UInt32) :
    (freshSkb page (size+64) 64).tail+size.toNat ≤ (freshSkb page (size+64) 64).bufEnd ↔ size.toNat+64 < 2^32 := by
  have hlt := size.toNat_lt
  have hadd : (size+64).toNat = (size.toNat+64) % 2^32 := UInt32.toNat_add size 64
  simp only [freshSkb,hadd]
  omega

lemma devAllocSafe_iff (hpage : m.page = some page) (size : UInt32) :
    DevAllocSafe m size ↔ size.toNat ≤ 3840 := by
  have hlt := size.toNat_lt
  have hadd : (size+64).toNat = (size.toNat+64) % 2^32 := UInt32.toNat_add size 64
  have hsafe : DevAllocSafe m size ↔ (size+64).toNat ≤ 3904 ∧ size.toNat+64 < 2^32 := by
    simp [DevAllocSafe,allocated_devAllocSkb,hpage,inPage_freshSkb_iff,tailroom_freshSkb_iff]
  rw [hsafe,hadd]
  omega

/-- What `skb_tailroom` reports is the size asked for, also where the tail is behind the end. -/
lemma skbTailroom_freshSkb (page : ℤ) (size : UInt32) : skbTailroom (freshSkb page (size+64) 64) = size := by
  have hlt := size.toNat_lt
  have hadd : (size+64).toNat = (size.toNat+64) % 2^32 := UInt32.toNat_add size 64
  have hroom : (((freshSkb page (size+64) 64).bufEnd-(freshSkb page (size+64) 64).tail) % 2^32).toNat = size.toNat := by
    simp only [freshSkb,hadd]
    omega
  rw [skbTailroom,hroom,UInt32.ofNat_toNat]

/-- A buffer lies in its page exactly if the page has room for it; the tailroom that is reported is the
size asked for in any case. -/
theorem allocation_safe_iff (m : Machine) (size : UInt32) :
    (AllocSafe m size ↔ m.page = none ∨ size.toNat ≤ 3904) ∧
    (DevAllocSafe m size ↔ m.page = none ∨ size.toNat ≤ 3840) ∧
    ∀ skb, m.allocated (devAllocSkb size) = some skb → skbTailroom skb = size := by
  cases hpage : m.page with
  | none =>
    have halloc : m.allocated (allocSkb size) = none := by rw [allocated_allocSkb,hpage,Option.map_none]
    have hdev : m.allocated (devAllocSkb size) = none := by rw [allocated_devAllocSkb,hpage,Option.map_none]
    simp [AllocSafe,DevAllocSafe,halloc,hdev]
  | some page =>
    rw [allocSafe_iff hpage,devAllocSafe_iff hpage,allocated_devAllocSkb,hpage]
    simp [skbTailroom_freshSkb]

/-- A page is not enough for 4096 bytes of data, and for the largest size the tail is behind the end. -/
theorem allocation_unsafe : ¬ AllocSafe (sending 0) 4096 ∧ ¬ DevAllocSafe (sending 0) 4096 ∧
    ¬ DevAllocSafe (sending 0) 0xffffffff := by
  have hpage : (sending 0).page = some 0 := rfl
  rw [allocSafe_iff hpage,devAllocSafe_iff hpage,devAllocSafe_iff hpage]
  decide

end Alloc
end Linuxab.Net
