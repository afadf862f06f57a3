import Linuxab.Base.Integers
import Linuxab.Elf.Loader

/-! The relocations of kernel/drivers/elf.c. The relocation and the symbol table are values beside the memory
that is relocated. -/
namespace Linuxab.Elf
open Linuxab.Base

def R_X86_64_64 : UInt32 := 1
def R_X86_64_PC32 : UInt32 := 2
def R_X86_64_32 : UInt32 := 10
def R_X86_64_32S : UInt32 := 11

/-- The fields of `Elf64_Sym` that are read. -/
structure Sym where
  stShndx : UInt16
  stValue : UInt64

/-- `Elf64_Rela` -/
structure Rela where
  rOffset : UInt64
  rInfo : UInt64
  rAddend : Int64

/-- `ELF64_R_SYM` -/
def Rela.symIdx (r : Rela) : UInt32 := (r.rInfo >>> 32).toUInt32

/-- `ELF64_R_TYPE` -/
def Rela.type (r : Rela) : UInt32 := (r.rInfo &&& 0xFFFFFFFF).toUInt32

/-- A number is stored in `n` bytes, the low ones first. -/
def writeLe (m : UInt64 → UInt8) (a : UInt64) (n v : ℕ) : UInt64 → UInt8 :=
  sweep (fun j => a+UInt64.ofNat j) (fun _ j => UInt8.ofNat (v/256^j)) (List.range n) m

section Source
variable (base : UInt64) (symtab : UInt32 → Sym)

def symval (r : Rela) : UInt64 :=
  if r.symIdx ≠ 0 then
    if (symtab r.symIdx).stShndx ≠ 0 then (symtab r.symIdx).stValue else 0
  else 0

/-- The return value and the memory; `ehdr` and `strtab` are not used. -/
def elf64ApplyRela : List Rela → (UInt64 → UInt8) → ℤ × (UInt64 → UInt8)
  | [],m => (0,m)
  | r::rela,m =>
    let target := base+r.rOffset
    let symval := symval symtab r
    if r.type = R_X86_64_64 then
      elf64ApplyRela rela (writeLe m target 8 (symval+r.rAddend.toUInt64).toNat)
    else if r.type = R_X86_64_PC32 then
      elf64ApplyRela rela (writeLe m target 4 (symval+r.rAddend.toUInt64-target).toUInt32.toNat)
    else if r.type = R_X86_64_32 ∨ r.type = R_X86_64_32S then
      elf64ApplyRela rela (writeLe m target 4 (symval+r.rAddend.toUInt64).toUInt32.toNat)
    else (-1,m)

end Source

section Bytes
variable {m : UInt64 → UInt8} {a : UInt64} {n v : ℕ}

lemma writeLe_of_outside {b : UInt64} (h : ∀ j < n, a+UInt64.ofNat j ≠ b) : writeLe m a n v b = m b :=
  sweep_of_forall_ne fun j hj => h j (List.mem_range.mp hj)

lemma writeLe_byte (hn : n ≤ 8) {j : ℕ} (hj : j < n) :
    writeLe m a n v (a+UInt64.ofNat j) = UInt8.ofNat (v/256^j) := by
  have hdistinct : (List.range n).Pairwise fun i j => a+UInt64.ofNat i ≠ a+UInt64.ofNat j := by
    refine List.nodup_range.imp_of_mem fun {i j} hi hj hne heq => hne ?_
    have hi := List.mem_range.mp hi
    have hj := List.mem_range.mp hj
    have hij := congrArg UInt64.toNat (UInt64.add_right_inj a |>.mp heq)
    rw [UInt64.toNat_ofNat',UInt64.toNat_ofNat'] at hij
    omega
  exact sweep_values (v := fun j => UInt8.ofNat (v/256^j)) hdistinct (List.mem_range.mpr hj)

lemma readLe_writeLe (hn : n ≤ 8) {k : ℕ} (hk : k ≤ n) : readLe (writeLe m a n v) a k = v%256^k := by
  induction k with
  | zero => rw [readLe,Nat.pow_zero,Nat.mod_one]
  | succ k ih =>
    rw [readLe,ih (by omega),writeLe_byte hn (by omega),Nat.mod_pow_succ,UInt8.toNat_ofNat']

end Bytes

namespace Rela
variable (base : UInt64) (symtab : UInt32 → Sym) (r : Rela)

def Supported : Prop :=
  r.type = R_X86_64_64 ∨ r.type = R_X86_64_PC32 ∨ r.type = R_X86_64_32 ∨ r.type = R_X86_64_32S

instance : Decidable r.Supported := inferInstanceAs (Decidable (_ ∨ _))

/-- The symbol is defined; number 0 stands for none. -/
def Defined : Prop := r.symIdx ≠ 0 → (symtab r.symIdx).stShndx ≠ 0

instance : Decidable (r.Defined symtab) := inferInstanceAs (Decidable (_ → _))

/-- `S` -/
def symbol : UInt64 := if r.symIdx = 0 then 0 else (symtab r.symIdx).stValue

/-- `P` -/
def place : UInt64 := base+r.rOffset

/-- `S + A` or `S + A - P` -/
def value : UInt64 :=
  if r.type = R_X86_64_PC32 then r.symbol symtab+r.rAddend.toUInt64-r.place base
  else r.symbol symtab+r.rAddend.toUInt64

def fieldSize : ℕ := if r.type = R_X86_64_64 then 8 else 4

/-- The value in the field, extended by its sign or by zeros as the type says. -/
def readBack (m : UInt64 → UInt8) : UInt64 :=
  if r.type = R_X86_64_64 then UInt64.ofNat (readLe m (r.place base) 8)
  else if r.type = R_X86_64_32 then (UInt32.ofNat (readLe m (r.place base) 4)).toUInt64
  else (UInt32.ofNat (readLe m (r.place base) 4)).toInt32.toInt64.toUInt64

/-- The value is one of those that the field can give back. -/
def Fits (v : UInt64) : Prop :=
  if r.type = R_X86_64_64 then True
  else if r.type = R_X86_64_32 then v.toNat < 2^32
  else v.toNat < 2^31 ∨ 2^64-2^31 ≤ v.toNat

/-- No byte is in both fields. -/
def Disjoint (r' : Rela) : Prop :=
  ∀ i < r.fieldSize, ∀ j < r'.fieldSize, r.place base+UInt64.ofNat i ≠ r'.place base+UInt64.ofNat j

instance (r' : Rela) : Decidable (r.Disjoint base r') := inferInstanceAs (Decidable (∀ i < _, _))

/-- What is stored for a relocation. -/
def stored : ℕ :=
  if r.type = R_X86_64_64 then (r.value base symtab).toNat else (r.value base symtab).toUInt32.toNat

def store (m : UInt64 → UInt8) (r : Rela) : UInt64 → UInt8 :=
  writeLe m (r.place base) r.fieldSize (r.stored base symtab)

variable {base symtab r}

lemma fieldSize_le : r.fieldSize ≤ 8 := by
  rw [fieldSize]
  split_ifs <;> omega

lemma stored_lt : r.stored base symtab < 256^r.fieldSize := by
  rw [stored,fieldSize]
  split_ifs
  · exact (r.value base symtab).toNat_lt
  · exact (r.value base symtab).toUInt32.toNat_lt

lemma symval_eq (h : r.Defined symtab) : symval symtab r = r.symbol symtab := by
  rw [symval,symbol]
  by_cases hidx : r.symIdx = 0
  · rw [if_neg (not_not.mpr hidx),if_pos hidx]
  · rw [if_pos hidx,if_neg hidx,if_pos (h hidx)]

/-- The loop stores for one relocation after the other. -/
lemma elf64ApplyRela_eq {rela : List Rela} (htype : ∀ r ∈ rela, r.Supported) (hdef : ∀ r ∈ rela, r.Defined symtab)
    (m : UInt64 → UInt8) : elf64ApplyRela base symtab rela m = (0,rela.foldl (store base symtab) m) := by
  induction rela generalizing m with
  | nil => rfl
  | cons r rela ih =>
    rw [List.forall_mem_cons] at htype hdef
    have hrest := ih htype.2 hdef.2
    rw [elf64ApplyRela,symval_eq hdef.1,hrest,hrest,hrest,List.foldl_cons,store,stored,value,fieldSize,place]
    rcases htype.1 with h | h | h | h <;> rw [h] <;> rfl

/-- A field that is disjoint from all fields that are stored later keeps its value. -/
lemma readLe_foldl_store {rela : List Rela} (h : ∀ r' ∈ rela, r.Disjoint base r') (m : UInt64 → UInt8) :
    readLe (rela.foldl (store base symtab) m) (r.place base) r.fieldSize = readLe m (r.place base) r.fieldSize := by
  induction rela generalizing m with
  | nil => rfl
  | cons r' rela ih =>
    rw [List.forall_mem_cons] at h
    rw [List.foldl_cons,ih h.2]
    apply readLe_congr
    intro j hj
    exact writeLe_of_outside fun i hi heq => h.1 j hj i hi heq.symm

/-- At the end every field holds what was stored for its relocation. -/
lemma readLe_final {rela : List Rela} (hdisjoint : rela.Pairwise (Disjoint base)) (hr : r ∈ rela) (m : UInt64 → UInt8) :
    readLe (rela.foldl (store base symtab) m) (r.place base) r.fieldSize = r.stored base symtab := by
  obtain ⟨before,later,rfl⟩ := List.append_of_mem hr
  have hlater : ∀ r' ∈ later, r.Disjoint base r' := fun r' hr' =>
    List.rel_of_pairwise_cons (List.pairwise_append.mp hdisjoint).2.1 hr'
  rw [List.foldl_append,List.foldl_cons,readLe_foldl_store hlater,store,readLe_writeLe fieldSize_le (Nat.le_refl _),
    Nat.mod_eq_of_lt stored_lt]

lemma zeroExtend_eq_iff (v : UInt64) : v.toUInt32.toUInt64 = v ↔ v.toNat < 2^32 := by
  rw [← UInt64.toNat_inj,UInt32.toNat_toUInt64,UInt64.toNat_toUInt32]
  have hlt := v.toNat_lt
  omega

lemma signExtend_eq_iff (v : UInt64) :
    v.toUInt32.toInt32.toInt64.toUInt64 = v ↔ v.toNat < 2^31 ∨ 2^64-2^31 ≤ v.toNat := by
  have hsigned : v.toUInt32.toInt32.toInt64.toUInt64 = v ↔ v.toUInt32.toInt32.toInt = v.toInt64.toInt := by
    rw [← Int32.toInt_toInt64,Int64.toInt_inj]
    constructor
    · exact congrArg UInt64.toInt64
    · exact congrArg Int64.toUInt64
  have hlt := v.toNat_lt
  rw [hsigned,toInt_toInt32,toInt_toInt64,UInt64.toNat_toUInt32]
  split_ifs <;> omega

/-- The field gives the value back exactly if the value fits. -/
lemma readBack_iff {m : UInt64 → UInt8} (h : readLe m (r.place base) r.fieldSize = r.stored base symtab) :
    r.readBack base m = r.value base symtab ↔ r.Fits (r.value base symtab) := by
  rw [fieldSize,stored] at h
  rw [readBack,Fits]
  by_cases h64 : r.type = R_X86_64_64
  · rw [if_pos h64,if_pos h64] at h
    rw [if_pos h64,if_pos h64,h,UInt64.ofNat_toNat]
    exact iff_of_true rfl trivial
  rw [if_neg h64,if_neg h64] at h
  rw [if_neg h64,if_neg h64,h,UInt32.ofNat_toNat]
  by_cases h32 : r.type = R_X86_64_32
  · rw [if_pos h32,if_pos h32,zeroExtend_eq_iff]
  · rw [if_neg h32,if_neg h32,signExtend_eq_iff]

end Rela

/-- The relocation of a list succeeds; all values are read back exactly if all of them fit their fields. -/
theorem rela_reads_back_iff (base : UInt64) (symtab : UInt32 → Sym) (rela : List Rela)
    (hdisjoint : rela.Pairwise (Rela.Disjoint base)) (htype : ∀ r ∈ rela, r.Supported)
    (hdef : ∀ r ∈ rela, r.Defined symtab) (m : UInt64 → UInt8) :
    ∃ m', elf64ApplyRela base symtab rela m = (0,m') ∧
      ((∀ r ∈ rela, r.readBack base m' = r.value base symtab) ↔ ∀ r ∈ rela, r.Fits (r.value base symtab)) := by
  refine ⟨_,Rela.elf64ApplyRela_eq htype hdef m,?_⟩
  exact forall₂_congr fun r hr => Rela.readBack_iff (Rela.readLe_final hdisjoint hr m)

/-- An address of eight bytes and a distance of four behind it. -/
theorem rela_reads_back_pair : ∃ rela : List Rela, rela.map Rela.type = [R_X86_64_64,R_X86_64_PC32] ∧
    ∃ m', elf64ApplyRela 0x400000 (fun _ => ⟨1,0x401000⟩) rela (fun _ => 0) = (0,m') ∧
      ((∀ r ∈ rela, r.readBack 0x400000 m' = r.value 0x400000 (fun _ => ⟨1,0x401000⟩)) ↔
        ∀ r ∈ rela, r.Fits (r.value 0x400000 (fun _ => ⟨1,0x401000⟩))) :=
  ⟨[⟨0x10,0x100000001,8⟩,⟨0x18,0x100000002,-4⟩],by decide,
    rela_reads_back_iff _ _ _ (by decide) (by decide) (by decide) _⟩

/-- A symbol at 2^32 in a field of four bytes: zero is stored, and no error is reported. -/
theorem rela_truncates : ∃ (symtab : UInt32 → Sym) (r : Rela), r.type = R_X86_64_32 ∧ r.Defined symtab ∧
    r.value 0 symtab = 0x100000000 ∧ (elf64ApplyRela 0 symtab [r] (fun _ => 0xFF)).1 = 0 ∧
    r.readBack 0 (elf64ApplyRela 0 symtab [r] (fun _ => 0xFF)).2 = 0 := by
  refine ⟨fun _ => ⟨1,0x100000000⟩,⟨0,0x10000000A,0⟩,?_⟩
  decide +kernel

end Linuxab.Elf
