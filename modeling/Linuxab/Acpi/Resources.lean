import Linuxab.Base.Walk
import Linuxab.Base.While
import Mathlib.Algebra.Group.Nat.Defs
import Mathlib.Data.Int.Notation
import Mathlib.Data.List.TakeWhile
import Mathlib.Tactic.SplitIfs

/-! The resource descriptors of kernel/drivers/accel/acpi_resource.c. The memory is numbered from the start of
the buffer, and what lies behind the buffer is part of it. -/
namespace Linuxab.Acpi
open Linuxab.Base

def ACPI_RESOURCE_IRQ : UInt8 := 0x20
def ACPI_RESOURCE_IO : UInt8 := 0x24
def ACPI_RESOURCE_END_TAG : UInt8 := 0x2F
def ACPI_RESOURCE_ADDRESS64 : UInt8 := 0x89
def ACPI_RESOURCE_EXTENDED_IRQ : UInt8 := 0x8B

structure AcpiResourceIo where
  info : UInt8
  minimum : UInt16
  maximum : UInt16
  alignment : UInt8
  length : UInt8
  deriving DecidableEq

/-- `struct acpi_resource` with the member of the union that is written. -/
structure AcpiResource where
  type : UInt32
  io : AcpiResourceIo
  deriving DecidableEq

/-- After the `memset`. -/
def AcpiResource.zero : AcpiResource := ⟨0,0,0,0,0,0⟩

/-- What the parser of one descriptor returns and stores, and the positions it reads. -/
structure Parsed where
  ret : ℤ
  res : AcpiResource
  consumed : UInt32
  reads : List ℕ

section Source
variable (mem : ℕ → UInt8)

def word16 (p : ℕ) : UInt16 := (mem p).toUInt16 ||| (mem (p+1)).toUInt16 <<< 8

def parseLarge (ptr : ℕ) (res : AcpiResource) : Parsed :=
  let tag := mem ptr
  let len := (mem (ptr+1)).toUInt32 ||| (mem (ptr+2)).toUInt32 <<< 8
  let reads := [ptr,ptr+1,ptr+2]
  if tag = ACPI_RESOURCE_ADDRESS64 then ⟨0,{ res with type := tag.toUInt32 },len+3,reads⟩
  else if tag = ACPI_RESOURCE_EXTENDED_IRQ then ⟨0,{ res with type := tag.toUInt32 },len+3,reads⟩
  else ⟨0,res,len+3,reads⟩

def parseSmall (ptr : ℕ) (res : AcpiResource) : Parsed :=
  let len := (mem ptr &&& 0x07).toUInt32
  let tag := mem ptr &&& 0xF8
  if tag = ACPI_RESOURCE_IRQ then ⟨0,{ res with type := tag.toUInt32 },len+1,[ptr]⟩
  else if tag = ACPI_RESOURCE_IO then
    if len ≥ 7 then
      ⟨0,⟨tag.toUInt32,mem (ptr+1),word16 mem (ptr+2),word16 mem (ptr+4),mem (ptr+6),mem (ptr+7)⟩,len+1,
        (List.range 8).map (ptr+·)⟩
    else ⟨0,{ res with type := tag.toUInt32 },len+1,[ptr]⟩
  else if tag = ACPI_RESOURCE_END_TAG then ⟨1,res,len+1,[ptr]⟩
  else ⟨0,res,len+1,[ptr]⟩

/-- The argument `length` is not used. -/
def acpiParseResourceData (ptr : ℕ) (res : AcpiResource) : Parsed :=
  if mem ptr &&& 0x80 ≠ 0 then parseLarge mem ptr res else parseSmall mem ptr res

/-- The variables of the loop with the calls of the handler, the positions that were read, and the return value
once it is decided. -/
structure ResourceWalk where
  ptr : ℕ
  calls : List (ℕ × AcpiResource)
  reads : List ℕ
  ret : Option ℤ

def ResourceWalk.step (handler : Bool) (s : ResourceWalk) : ResourceWalk :=
  let r := acpiParseResourceData mem s.ptr .zero
  if r.ret = 1 then { s with reads := s.reads ++ r.reads, ret := some 0 }
  else if r.ret < 0 then { s with reads := s.reads ++ r.reads, ret := some r.ret }
  else { s with
    reads := s.reads ++ r.reads
    calls := if handler then s.calls ++ [(s.ptr,r.res)] else s.calls
    ptr := s.ptr+r.consumed.toNat }

/-- `handler` tells whether there is one. -/
def acpiParseResources (rounds : ℕ) (length : UInt32) (handler : Bool) : Option ResourceWalk :=
  (whileLoop (fun s => s.ret.isNone && s.ptr < length.toNat) (ResourceWalk.step mem handler) rounds
    ⟨0,[],[],none⟩).map (fun s => { s with ret := some (s.ret.getD 0) })

end Source

section Descriptors
variable (mem : ℕ → UInt8) (p : ℕ)

/-- A descriptor with a length of two bytes. -/
def IsLarge : Prop := 0x80 ≤ mem p

instance : Decidable (IsLarge mem p) := inferInstanceAs (Decidable (_ ≤ _))

/-- The number of bytes to the next descriptor. -/
def descriptorSize : ℕ :=
  if IsLarge mem p then (mem (p+1)).toNat+256*(mem (p+2)).toNat+3 else (mem p).toNat%8+1

/-- The descriptors from `p` on that are reached by their lengths. -/
def descriptorsFrom (length : UInt32) (p : ℕ) : List ℕ :=
  positions (fun p => p+descriptorSize mem p) length.toNat p

def descriptors (length : UInt32) : List ℕ := descriptorsFrom mem length 0

lemma lt_descriptorSize : p < p+descriptorSize mem p := by
  rw [descriptorSize]
  split_ifs <;> omega

/-- A constant with one of the low bits is never what the mask leaves. -/
lemma and_F8_ne {c : UInt8} (hc : c &&& 7 ≠ 0) (tag : UInt8) : tag &&& 0xF8 ≠ c := by
  rintro rfl
  apply hc
  rw [UInt8.and_assoc]
  exact UInt8.and_zero

lemma large_iff : mem p &&& 0x80 ≠ 0 ↔ IsLarge mem p := by
  have hall : ∀ k < 256, UInt8.ofNat k &&& 0x80 ≠ 0 ↔ 0x80 ≤ UInt8.ofNat k := by decide +kernel
  have htag := hall (mem p).toNat (mem p).toNat_lt
  rwa [UInt8.ofNat_toNat] at htag

lemma toNat_large (lo hi : UInt8) : (lo.toUInt32 ||| hi.toUInt32 <<< 8).toNat = lo.toNat+256*hi.toNat := by
  have hlo := lo.toNat_lt
  have hhi := hi.toNat_lt
  have hshift : (hi.toUInt32 <<< 8).toNat = hi.toNat <<< 8 := by
    rw [UInt32.toNat_shiftLeft]
    change hi.toNat <<< 8 % 4294967296 = _
    rw [Nat.shiftLeft_eq]
    omega
  rw [UInt32.toNat_or,hshift,UInt8.toNat_toUInt32,Nat.or_comm,← Nat.shiftLeft_add_eq_or_of_lt hlo,Nat.shiftLeft_eq]
  omega

lemma toNat_small (tag : UInt8) : (tag &&& 0x07).toUInt32.toNat = tag.toNat%8 := by
  rw [UInt8.toNat_toUInt32,UInt8.toNat_and]
  exact Nat.and_two_pow_sub_one_eq_mod tag.toNat 3

/-- A large descriptor: its header is read, the length as its own bytes give it. -/
lemma parseLarge_eq (res : AcpiResource) :
    (parseLarge mem p res).ret = 0 ∧ (parseLarge mem p res).reads = [p,p+1,p+2] ∧
    (parseLarge mem p res).consumed.toNat = (mem (p+1)).toNat+256*(mem (p+2)).toNat+3 := by
  have hlo := (mem (p+1)).toNat_lt
  have hhi := (mem (p+2)).toNat_lt
  have hconsumed : ((mem (p+1)).toUInt32 ||| (mem (p+2)).toUInt32 <<< 8)+3 = UInt32.ofNat
      ((mem (p+1)).toNat+256*(mem (p+2)).toNat+3) := by
    rw [UInt32.ofNat_add,← toNat_large,UInt32.ofNat_toNat]
    rfl
  have hsize : (mem (p+1)).toNat+256*(mem (p+2)).toNat+3 < UInt32.size := by
    change _ < 4294967296
    omega
  rw [parseLarge,hconsumed]
  split_ifs
  all_goals exact ⟨rfl,rfl,UInt32.toNat_ofNat_of_lt hsize⟩

/-- A small descriptor: neither the case of the ports nor that of the end tag is ever taken. -/
lemma parseSmall_eq (res : AcpiResource) :
    (parseSmall mem p res).ret = 0 ∧ (parseSmall mem p res).reads = [p] ∧
    (parseSmall mem p res).consumed.toNat = (mem p).toNat%8+1 := by
  have hio : mem p &&& 0xF8 ≠ ACPI_RESOURCE_IO := and_F8_ne (by decide) _
  have hend : mem p &&& 0xF8 ≠ ACPI_RESOURCE_END_TAG := and_F8_ne (by decide) _
  have hconsumed : (mem p &&& 0x07).toUInt32+1 = UInt32.ofNat ((mem p).toNat%8+1) := by
    rw [UInt32.ofNat_add,← toNat_small,UInt32.ofNat_toNat]
    rfl
  have hsize : (mem p).toNat%8+1 < UInt32.size := by
    change _ < 4294967296
    omega
  rw [parseSmall,hconsumed,if_neg hio,if_neg hend]
  split_ifs
  all_goals exact ⟨rfl,rfl,UInt32.toNat_ofNat_of_lt hsize⟩

/-- What the parser makes of a descriptor: it never reports the end. -/
lemma acpiParseResourceData_eq (res : AcpiResource) :
    (acpiParseResourceData mem p res).ret = 0 ∧
    (acpiParseResourceData mem p res).reads = (if IsLarge mem p then [p,p+1,p+2] else [p]) ∧
    (acpiParseResourceData mem p res).consumed.toNat = descriptorSize mem p := by
  rw [acpiParseResourceData,descriptorSize]
  by_cases hp : IsLarge mem p
  · rw [if_pos ((large_iff mem p).mpr hp),if_pos hp,if_pos hp]
    exact parseLarge_eq mem p res
  · rw [if_neg (mt (large_iff mem p).mp hp),if_neg hp,if_neg hp]
    exact parseSmall_eq mem p res

end Descriptors

section Walk
variable (mem : ℕ → UInt8)

/-- The bytes of a descriptor that are read. -/
def headerOf (p : ℕ) : List ℕ := if IsLarge mem p then [p,p+1,p+2] else [p]

/-- The calls of the handler for a descriptor. -/
def callsOf (handler : Bool) (p : ℕ) : List (ℕ × AcpiResource) :=
  if handler then [(p,(acpiParseResourceData mem p .zero).res)] else []

lemma step_eq (handler : Bool) (s : ResourceWalk) : s.step mem handler = { s with
    reads := s.reads ++ headerOf mem s.ptr
    calls := s.calls ++ callsOf mem handler s.ptr
    ptr := s.ptr+descriptorSize mem s.ptr } := by
  obtain ⟨hret,hreads,hconsumed⟩ := acpiParseResourceData_eq mem s.ptr .zero
  rw [ResourceWalk.step,hret,if_neg (by decide),if_neg (by decide),hreads,hconsumed,callsOf,headerOf]
  cases handler with
  | true => rfl
  | false => rw [if_neg Bool.false_ne_true,if_neg Bool.false_ne_true,List.append_nil]

/-- What was visited, followed by what is still to be visited, is the whole list. -/
structure OnTheWay (length : UInt32) (handler : Bool) (s : ResourceWalk) : Prop where
  ret : s.ret = none
  calls : s.calls ++ (descriptorsFrom mem length s.ptr).flatMap (callsOf mem handler) =
    (descriptors mem length).flatMap (callsOf mem handler)
  reads : s.reads ++ (descriptorsFrom mem length s.ptr).flatMap (headerOf mem) =
    (descriptors mem length).flatMap (headerOf mem)

variable {mem} {length : UInt32} {handler : Bool} {s : ResourceWalk}

lemma OnTheWay.step (h : OnTheWay mem length handler s) (hptr : s.ptr < length.toNat) :
    OnTheWay mem length handler (s.step mem handler) := by
  have hrest : descriptorsFrom mem length s.ptr =
      s.ptr::descriptorsFrom mem length (s.ptr+descriptorSize mem s.ptr) :=
    positions_of_lt (lt_descriptorSize mem) hptr
  have hcalls := h.calls
  have hreads := h.reads
  rw [hrest,List.flatMap_cons,← List.append_assoc] at hcalls hreads
  rw [step_eq]
  exact ⟨h.ret,hcalls,hreads⟩

/-- The loop visits the descriptors in order, reads the header of each and hands each one to the handler. -/
lemma acpiParseResources_eq (mem : ℕ → UInt8) (length : UInt32) (handler : Bool) :
    ∃ t, (∀ rounds, length.toNat ≤ rounds → acpiParseResources mem rounds length handler = some t) ∧
      t.calls = (descriptors mem length).flatMap (callsOf mem handler) ∧
      t.reads = (descriptors mem length).flatMap (headerOf mem) := by
  have hstep : ∀ s : ResourceWalk, OnTheWay mem length handler s →
      (s.ret.isNone && s.ptr < length.toNat) = true → OnTheWay mem length handler (s.step mem handler) ∧
        length.toNat-(s.step mem handler).ptr < length.toNat-s.ptr := by
    intro s hs hc
    have hptr : s.ptr < length.toNat := of_decide_eq_true (Bool.and_eq_true_iff.mp hc).2
    have hforward : s.ptr < (s.step mem handler).ptr := by
      rw [step_eq]
      exact lt_descriptorSize mem s.ptr
    exact ⟨hs.step hptr,by omega⟩
  obtain ⟨t,ht,hway,hend⟩ := exists_whileLoop (OnTheWay mem length handler) (fun s => length.toNat-s.ptr) hstep
    (s := ⟨0,[],[],none⟩) ⟨rfl,rfl,rfl⟩
  have hdone : length.toNat ≤ t.ptr := by
    rw [hway.ret] at hend
    exact Nat.le_of_not_lt (of_decide_eq_false hend)
  have hrest : descriptorsFrom mem length t.ptr = [] := positions_of_le hdone
  have hcalls := hway.calls
  have hreads := hway.reads
  rw [hrest,List.flatMap_nil,List.append_nil] at hcalls hreads
  refine ⟨{ t with ret := some 0 },fun rounds hrounds => ?_,hcalls,hreads⟩
  rw [acpiParseResources,ht rounds hrounds,Option.map_some,hway.ret]
  rfl

lemma headerOf_within_iff {p : ℕ} (hp : p < length.toNat) :
    (∀ i ∈ headerOf mem p, i < length.toNat) ↔ (IsLarge mem p → p+2 < length.toNat) := by
  rw [headerOf]
  by_cases hlarge : IsLarge mem p
  · rw [if_pos hlarge]
    constructor
    · exact fun h _ => h _ (by simp)
    · intro h i hi
      have hlast := h hlarge
      simp only [List.mem_cons,List.not_mem_nil,or_false] at hi
      omega
  · rw [if_neg hlarge]
    constructor
    · exact fun _ h => absurd h hlarge
    · intro _ i hi
      rwa [List.mem_singleton.mp hi]

end Walk

/-- The walk always ends; it reads only bytes of the buffer exactly if no large descriptor that it comes to has
its length behind the end. -/
theorem acpi_reads_within_iff (mem : ℕ → UInt8) (length : UInt32) (handler : Bool) :
    ∃ t, (∀ rounds, length.toNat ≤ rounds → acpiParseResources mem rounds length handler = some t) ∧
      ((∀ i ∈ t.reads, i < length.toNat) ↔
        ∀ p ∈ descriptors mem length, IsLarge mem p → p+2 < length.toNat) := by
  obtain ⟨t,ht,-,hreads⟩ := acpiParseResources_eq mem length handler
  refine ⟨t,ht,?_⟩
  rw [hreads]
  constructor
  · intro h p hp
    refine (headerOf_within_iff (lt_of_mem_positions hp)).mp ?_
    exact fun i hi => h i (List.mem_flatMap.mpr ⟨p,hp,hi⟩)
  · intro h i hi
    obtain ⟨p,hp,hi⟩ := List.mem_flatMap.mp hi
    exact (headerOf_within_iff (lt_of_mem_positions hp)).mpr (h p hp) i hi

/-- A buffer of one byte, the first one of a large descriptor. -/
theorem acpi_reads_behind : ∃ t, acpiParseResources (fun _ => 0x89) 1 1 true = some t ∧ ∃ i ∈ t.reads, ¬ i < 1 := by
  refine ⟨_,rfl,?_⟩
  decide

/-- The handler is called for the descriptors before the first end tag only if there is no end tag. -/
theorem acpi_end_tag_iff (mem : ℕ → UInt8) (length : UInt32) :
    ∃ t, (∀ rounds, length.toNat ≤ rounds → acpiParseResources mem rounds length true = some t) ∧
      (t.calls.map Prod.fst = (descriptors mem length).takeWhile (fun p => mem p ≠ ACPI_RESOURCE_END_TAG) ↔
        ∀ p ∈ descriptors mem length, mem p ≠ ACPI_RESOURCE_END_TAG) := by
  obtain ⟨t,ht,hcalls,-⟩ := acpiParseResources_eq mem length true
  have hall : t.calls.map Prod.fst = descriptors mem length := by
    rw [hcalls,List.map_flatMap]
    exact List.flatMap_singleton' _
  refine ⟨t,ht,?_⟩
  rw [hall,eq_comm,List.takeWhile_eq_self_iff]
  constructor
  · exact fun h p hp => of_decide_eq_true (h p hp)
  · exact fun h p hp => decide_eq_true (h p hp)

/-- A descriptor of an interrupt, an end tag with its seven bytes, and one more byte: all three are handed to the
handler. -/
theorem acpi_end_tag_ignored : ∃ mem : ℕ → UInt8, mem 1 = ACPI_RESOURCE_END_TAG ∧
    (descriptors mem 10).takeWhile (fun p => mem p ≠ ACPI_RESOURCE_END_TAG) = [0] ∧
    (acpiParseResources mem 10 10 true).map (fun t => t.calls.map Prod.fst) = some [0,1,9] := by
  refine ⟨fun p => [0x20,0x2F,0,0,0,0,0,0,0,0x20].getD p 0,rfl,?_,?_⟩
  · decide
  · decide

end Linuxab.Acpi
