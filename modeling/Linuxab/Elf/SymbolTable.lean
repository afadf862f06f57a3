import Linuxab.Elf.Loader

/-! The lookup of a symbol in kernel/drivers/elf.c. The name is the list of its bytes before the NUL; an
address of 0 is NULL. -/
namespace Linuxab.Elf

def SHT_SYMTAB : UInt32 := 2

section Source
variable (m : UInt64 → UInt8) (ehdr : UInt64)

def eShoff : UInt64 := UInt64.ofNat (readLe m (ehdr+40) 8)
def eShnum : ℕ := readLe m (ehdr+60) 2

/-- The address of `shdr[i]`. -/
def shdrAddr (i : ℕ) : UInt64 := ehdr+eShoff m ehdr+64*UInt64.ofNat i

def shType (i : ℕ) : UInt32 := UInt32.ofNat (readLe m (shdrAddr m ehdr i+4) 4)
def shOffset (i : ℕ) : UInt64 := UInt64.ofNat (readLe m (shdrAddr m ehdr i+24) 8)
def shSize (i : ℕ) : UInt64 := UInt64.ofNat (readLe m (shdrAddr m ehdr i+32) 8)
def shLink (i : ℕ) : ℕ := readLe m (shdrAddr m ehdr i+40) 4

/-- The start of a section. -/
def sectionStart (i : ℕ) : UInt64 := ehdr+shOffset m ehdr i

/-- The number of symbols in a section. -/
def symbolCount (i : ℕ) : ℕ := (shSize m ehdr i/24).toNat

/-- The variables of the loop over the sections. -/
structure Tables where
  symtab : UInt64
  strtab : UInt64
  symcount : ℕ

def scanSection (t : Tables) (i : ℕ) : Tables :=
  if shType m ehdr i = SHT_SYMTAB then
    { symtab := sectionStart m ehdr i
      symcount := symbolCount m ehdr i
      strtab := if shLink m ehdr i < eShnum m ehdr then sectionStart m ehdr (shLink m ehdr i) else t.strtab }
  else t

def scanSections (n : ℕ) : Tables := (List.range n).foldl (scanSection m ehdr) ⟨0,0,0⟩

/-- The address of `symtab[k]`. -/
def symAddr (symtab : UInt64) (k : ℕ) : UInt64 := symtab+24*UInt64.ofNat k

def stName (sym : UInt64) : UInt64 := UInt64.ofNat (readLe m sym 4)

/-- The rest of both strings where the comparison stops. -/
def compareNames : List UInt8 → UInt64 → List UInt8 × UInt64
  | [],symname => ([],symname)
  | c::name,symname => if m symname ≠ 0 ∧ c = m symname then compareNames name (symname+1) else (c::name,symname)

def sameName (name : List UInt8) (symname : UInt64) : Bool :=
  (compareNames m name symname).1.isEmpty && m (compareNames m name symname).2 = 0

/-- The symbol, and what is stored through `strtab_ptr`, which may be NULL. The table of section names is
computed and not used. -/
def elf64FindSymbol (name : List UInt8) (strtabPtr : Bool) : UInt64 × Option UInt64 :=
  let t := scanSections m ehdr (eShnum m ehdr)
  if t.symtab = 0 ∨ t.strtab = 0 then (0,none)
  else
    let found := (List.range t.symcount).find? fun k =>
      let sym := symAddr t.symtab k
      stName m sym ≠ 0 && sameName m name (t.strtab+stName m sym)
    ((found.map (symAddr t.symtab)).getD 0,if strtabPtr then some t.strtab else none)

end Source

section Specification
variable (m : UInt64 → UInt8) (ehdr : UInt64)

/-- The string at an address. -/
def StringAt : UInt64 → List UInt8 → Prop
  | p,[] => m p = 0
  | p,c::name => m p = c ∧ c ≠ 0 ∧ StringAt (p+1) name

def IsSymtab (i : ℕ) : Prop := i < eShnum m ehdr ∧ shType m ehdr i = SHT_SYMTAB

/-- The section's string table exists. -/
def Linked (i : ℕ) : Prop := shLink m ehdr i < eShnum m ehdr

/-- An entry with the name, in a table whose strings start at `strtab`. -/
def Named (strtab : UInt64) (name : List UInt8) (sym : UInt64) : Prop :=
  stName m sym ≠ 0 ∧ StringAt m (strtab+stName m sym) name

/-- The entry is the first one of that name in the symbol table of section `i`, with the section's own string
table. -/
structure FirstOf (name : List UInt8) (sym strtab : UInt64) (i : ℕ) : Prop where
  symtab : IsSymtab m ehdr i
  linked : Linked m ehdr i
  strings : strtab = sectionStart m ehdr (shLink m ehdr i)
  first : ∃ k < symbolCount m ehdr i, sym = symAddr (sectionStart m ehdr i) k ∧ Named m strtab name sym ∧
    ∀ k' < k, ¬Named m strtab name (symAddr (sectionStart m ehdr i) k')

/-- The last symbol table, which is the one that is searched. -/
def LastSymtab (i : ℕ) : Prop := IsSymtab m ehdr i ∧ ∀ k, i < k → ¬IsSymtab m ehdr k

end Specification

section Lookup
variable {m : UInt64 → UInt8} {ehdr : UInt64}

lemma sameName_iff (name : List UInt8) (p : UInt64) : sameName m name p = true ↔ StringAt m p name := by
  induction name generalizing p with
  | nil => exact decide_eq_true_iff
  | cons c name ih =>
    rw [StringAt]
    by_cases hc : m p ≠ 0 ∧ c = m p
    · have hstep : sameName m (c::name) p = sameName m name (p+1) := by
        rw [sameName,compareNames,if_pos hc,sameName]
      rw [hstep,ih]
      exact ⟨fun h => ⟨hc.2.symm,hc.2 ▸ hc.1,h⟩,fun h => h.2.2⟩
    · have hstop : sameName m (c::name) p = false := by
        rw [sameName,compareNames,if_neg hc]
        rfl
      rw [hstop]
      refine iff_of_false Bool.false_ne_true fun h => hc ?_
      exact ⟨h.1 ▸ h.2.1,h.1.symm⟩

/-- The tables after the first `n` sections. The string table may be older than the symbol table. -/
structure Scanned (m : UInt64 → UInt8) (ehdr : UInt64) (n : ℕ) (t : Tables) : Prop where
  strings : t.strtab ≠ 0 → ∃ i < n, shType m ehdr i = SHT_SYMTAB ∧ Linked m ehdr i
  last : t.symtab ≠ 0 → ∃ i < n, shType m ehdr i = SHT_SYMTAB ∧
    (∀ k, i < k → k < n → shType m ehdr k ≠ SHT_SYMTAB) ∧ t.symtab = sectionStart m ehdr i ∧
    t.symcount = symbolCount m ehdr i ∧
    (Linked m ehdr i → t.strtab = sectionStart m ehdr (shLink m ehdr i))

lemma Scanned.step {n : ℕ} {t : Tables} (h : Scanned m ehdr n t) : Scanned m ehdr (n+1) (scanSection m ehdr t n) := by
  rw [scanSection]
  by_cases htype : shType m ehdr n = SHT_SYMTAB
  · rw [if_pos htype]
    constructor
    · intro hstrings
      by_cases hlinked : Linked m ehdr n
      · exact ⟨n,Nat.lt_succ_self n,htype,hlinked⟩
      · rw [Linked] at hlinked
        dsimp only at hstrings
        rw [if_neg hlinked] at hstrings
        obtain ⟨i,hi,hsymtab⟩ := h.strings hstrings
        exact ⟨i,Nat.lt_succ_of_lt hi,hsymtab⟩
    · intro _
      exact ⟨n,Nat.lt_succ_self n,htype,fun k hk hk' => by omega,rfl,rfl,fun hlinked => if_pos hlinked⟩
  · rw [if_neg htype]
    constructor
    · intro hstrings
      obtain ⟨i,hi,hsymtab⟩ := h.strings hstrings
      exact ⟨i,Nat.lt_succ_of_lt hi,hsymtab⟩
    · intro hsymtab
      obtain ⟨i,hi,hi',hlater,htables⟩ := h.last hsymtab
      refine ⟨i,Nat.lt_succ_of_lt hi,hi',fun k hk hk' => ?_,htables⟩
      obtain hlt | rfl := Nat.lt_succ_iff_lt_or_eq.mp hk'
      · exact hlater k hk hlt
      · exact htype

lemma scanned (m : UInt64 → UInt8) (ehdr : UInt64) (n : ℕ) : Scanned m ehdr n (scanSections m ehdr n) := by
  induction n with
  | zero => exact ⟨fun h => absurd rfl h,fun h => absurd rfl h⟩
  | succ n ih =>
    rw [scanSections,List.range_succ,List.foldl_append]
    exact ih.step

lemma named_iff {strtab sym : UInt64} {name : List UInt8} :
    (stName m sym ≠ 0 && sameName m name (strtab+stName m sym)) = true ↔ Named m strtab name sym := by
  rw [Bool.and_eq_true_iff,decide_eq_true_iff,sameName_iff,Named]

/-- A symbol that is found is the first one with the name in the table that is searched. -/
lemma find_named {strtab symtab : UInt64} {n k : ℕ} {name : List UInt8}
    (h : (List.range n).find? (fun k => stName m (symAddr symtab k) ≠ 0 &&
      sameName m name (strtab+stName m (symAddr symtab k))) = some k) :
    k < n ∧ Named m strtab name (symAddr symtab k) ∧ ∀ k' < k, ¬Named m strtab name (symAddr symtab k') := by
  obtain ⟨hk,hmem,hfirst⟩ := List.find?_range_eq_some.mp h
  refine ⟨List.mem_range.mp hmem,named_iff.mp hk,fun k' hk' h' => ?_⟩
  have hno := hfirst k' hk'
  rw [named_iff.mpr h'] at hno
  cases hno

/-- What is known of the tables where a symbol is returned. -/
lemma elf64FindSymbol_found {name : List UInt8} {t : Tables} (ht : scanSections m ehdr (eShnum m ehdr) = t)
    (h : (elf64FindSymbol m ehdr name true).1 ≠ 0) :
    t.symtab ≠ 0 ∧ t.strtab ≠ 0 ∧ ∃ k < t.symcount,
      elf64FindSymbol m ehdr name true = (symAddr t.symtab k,some t.strtab) ∧
      Named m t.strtab name (symAddr t.symtab k) ∧ ∀ k' < k, ¬Named m t.strtab name (symAddr t.symtab k') := by
  rw [elf64FindSymbol,ht] at h ⊢
  by_cases hnull : t.symtab = 0 ∨ t.strtab = 0
  · rw [if_pos hnull] at h
    exact absurd rfl h
  rw [if_neg hnull] at h ⊢
  obtain ⟨hsymtab,hstrtab⟩ := not_or.mp hnull
  cases hfind : (List.range t.symcount).find? fun k => stName m (symAddr t.symtab k) ≠ 0 &&
      sameName m name (t.strtab+stName m (symAddr t.symtab k)) with
  | none =>
    rw [hfind] at h
    exact absurd rfl h
  | some k =>
    obtain ⟨hk,hnamed⟩ := find_named hfind
    exact ⟨hsymtab,hstrtab,k,hk,rfl,hnamed⟩

end Lookup

/-- A file at address 0 with two symbol tables of one symbol each, at 256 and 280, and a string table at 304. The
first symbol table names the string table; the second one has the given link and the symbol `a`. -/
def twoTables (link : UInt8) (a : UInt64) : UInt8 :=
  if a = 40 then 64 else if a = 60 then 3
  else if a = 68 then 2 else if a = 89 then 1 else if a = 96 then 24 else if a = 104 then 2
  else if a = 132 then 2 else if a = 152 then 0x18 else if a = 153 then 1 else if a = 160 then 24
  else if a = 168 then link
  else if a = 196 then 3 else if a = 216 then 0x30 else if a = 217 then 1
  else if a = 280 then 1 else if a = 305 then 0x61 else 0

lemma twoTables_linked : ∀ j, IsSymtab (twoTables 2) 0 j → Linked (twoTables 2) 0 j := by
  have hall : ∀ j < 3, shLink (twoTables 2) 0 j < 3 := by decide +kernel
  have hnum : eShnum (twoTables 2) 0 = 3 := by decide +kernel
  intro j hj
  have hlt := hj.1
  rw [hnum] at hlt
  rw [Linked,hnum]
  exact hall j hlt

end Linuxab.Elf
