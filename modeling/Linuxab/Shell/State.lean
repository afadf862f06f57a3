import Mathlib.Data.FinEnum
import Mathlib.Data.Fintype.Vector
import Linuxab.Shell.FileSystem
import Linuxab.Shell.PathBounds

/-! The `static mut` state of `terl.rs` and what it prints. A count never exceeds its table and a length
never exceeds its array, so no command can index outside of them. Printing does not feed back into
the state: a command answers with the cursor operations it makes. -/
namespace Linuxab.Shell
open Linuxab.Base

/-- A fixed array of which the first `count` entries are in use. -/
structure Table (α : Type) (n : ℕ) where
  slots : Fin n → α
  count : ℕ
  count_le : count ≤ n

namespace Table
variable {α : Type} {n : ℕ}

/-- The indices of `for i in 0..COUNT`. -/
def indices (t : Table α n) : List (Fin n) := (List.finRange n).take t.count

/-- Rewrite the first unused slot and count it; a full table stays as it is. -/
def push (t : Table α n) (f : α → α) : Table α n :=
  if h : t.count < n then
    { slots := Function.update t.slots ⟨t.count,h⟩ (f (t.slots ⟨t.count,h⟩)), count := t.count+1, count_le := h }
  else t

/-- Move the entries behind `i` down by one. -/
def remove (t : Table α n) (i : Fin n) : Table α n where
  slots j := if h : i ≤ j ∧ j+1 < t.count then t.slots ⟨j+1,h.2.trans_le t.count_le⟩ else t.slots j
  count := t.count-1
  count_le := (Nat.sub_le _ _).trans t.count_le

end Table

structure HistoryEntry where
  cmd : List.Vector UInt8 256
  len : ℕ
  len_le : len ≤ 256

structure EnvVar where
  name : List.Vector UInt8 32
  value : List.Vector UInt8 64

structure Alias where
  name : List.Vector UInt8 32
  cmd : List.Vector UInt8 256
  len : ℕ
  len_le : len ≤ 255

structure ProcInfo where
  pid : UInt32
  ppid : UInt32
  state : UInt8
  name : List.Vector UInt8 16
  cmdline : List.Vector UInt8 64

structure ShellState where
  history : Table HistoryEntry 64
  env : Table EnvVar 16
  aliases : Table Alias 16
  cwd : PathBuf
  cwdLen : ℕ
  files : FileTable
  processes : Table ProcInfo 16
  totalMem : UInt64
  freeMem : UInt64
  cpuFreq : UInt32
  cpuCount : UInt32
  uptime : UInt64
  cwdLen_pos : 1 ≤ cwdLen
  cwdLen_le : cwdLen ≤ 127

lemma rootLen_pos : 1 ≤ 1 := Nat.le_refl 1
lemma rootLen_le : 1 ≤ 127 := by decide

/-- `&CWD[..CWD_LEN]` -/
def ShellState.cwdText (s : ShellState) : List UInt8 := s.cwd.toList.take s.cwdLen

lemma ShellState.length_cwdText (s : ShellState) : s.cwdText.length = s.cwdLen := by
  have := s.cwdLen_le
  simp [ShellState.cwdText]
  omega

lemma ShellState.pathNormalize_isSome (s : ShellState) (input : List UInt8) : (pathNormalize s.cwdText input).isSome := by
  obtain ⟨v,t,hv,-⟩ := pathNormalize_total (s.length_cwdText.le.trans s.cwdLen_le) input
  rw [hv]
  rfl

/-- `path_normalize(&CWD[..CWD_LEN], input)`, which cannot stop the program. -/
def ShellState.normalize (s : ShellState) (input : List UInt8) : PathBuf :=
  (pathNormalize s.cwdText input).get (s.pathNormalize_isSome input)

lemma ShellState.strlen_normalize (s : ShellState) (input : List UInt8) :
    1 ≤ strlen (s.normalize input).toList ∧ strlen (s.normalize input).toList ≤ 127 := by
  obtain ⟨v,t,hv,hp,h0,hpos,hle⟩ := pathNormalize_total (s.length_cwdText.le.trans s.cwdLen_le) input
  have hn : s.normalize input = v := by simp [ShellState.normalize,hv]
  rw [hn,strlen_eq,hp,text_padded h0]
  exact ⟨hpos,hle⟩

section Finite
variable {α : Type} {n : ℕ}

instance [Finite α] : Finite (Table α n) :=
  Finite.of_injective (fun t => (t.slots,(⟨t.count,Nat.lt_succ_of_le t.count_le⟩ : Fin (n+1)))) <| by
    rintro ⟨a,b,h⟩ ⟨a',b',h'⟩ e
    simp_all

instance : Finite HistoryEntry :=
  Finite.of_injective (fun e => (e.cmd,(⟨e.len,Nat.lt_succ_of_le e.len_le⟩ : Fin 257))) <| by
    rintro ⟨a,b,h⟩ ⟨a',b',h'⟩ e
    simp_all

instance : Finite Alias :=
  Finite.of_injective (fun e => (e.name,e.cmd,(⟨e.len,Nat.lt_succ_of_le e.len_le⟩ : Fin 256))) <| by
    rintro ⟨a,b,c,h⟩ ⟨a',b',c',h'⟩ e
    simp_all

instance : Finite EnvVar :=
  Finite.of_injective (fun e => (e.name,e.value)) <| by
    rintro ⟨a,b⟩ ⟨a',b'⟩ e
    simp_all

instance : Finite FileEntry :=
  Finite.of_injective
    (fun e => (e.path,e.data,(⟨e.size,Nat.lt_succ_of_le e.size_le⟩ : Fin 4097),e.isDir,e.used)) <| by
    rintro ⟨a,b,c,d,f,h⟩ ⟨a',b',c',d',f',h'⟩ e
    simp_all

instance : Finite ProcInfo :=
  Finite.of_injective (fun p => (p.pid,p.ppid,p.state,p.name,p.cmdline)) <| by
    rintro ⟨a,b,c,d,f⟩ ⟨a',b',c',d',f'⟩ e
    simp_all

instance : Finite ShellState :=
  Finite.of_injective
    (fun s => (s.history,s.env,s.aliases,s.cwd,(⟨s.cwdLen,Nat.lt_succ_of_le s.cwdLen_le⟩ : Fin 128),s.files,
      s.processes,s.totalMem,s.freeMem,s.cpuFreq,s.cpuCount,s.uptime)) <| by
    rintro ⟨a,b,c,d,e,f,g,h,i,j,k,l,_,_⟩ ⟨a',b',c',d',e',f',g',h',i',j',k',l',_,_⟩ heq
    simp_all

end Finite
end Linuxab.Shell
