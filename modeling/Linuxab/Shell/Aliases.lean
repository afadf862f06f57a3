import Linuxab.Base.FirstMatch
import Linuxab.Base.Fold
import Linuxab.Shell.Boot
import Linuxab.Shell.Commands

/-!
The alias table as a map from names to texts.  `alias` puts its entry behind the others and
`resolve_alias` takes the first one with a name, so a name that is defined again keeps its old text;
`unalias` removes the first entry with a name.
-/
namespace Linuxab.Shell
open Linuxab.Base

namespace Table
variable {α : Type} {n : ℕ} (t : Table α n)

/-- The entries in use, in order. -/
def entries : List α := t.indices.map t.slots

@[simp] lemma length_entries : t.entries.length = t.count := by
  simp [entries,indices,t.count_le]

lemma getElem_entries {k : ℕ} (h : k < t.entries.length) :
    t.entries[k] = t.slots ⟨k,by rw [length_entries] at h; exact h.trans_le t.count_le⟩ := by
  simp [entries,indices]

lemma entries_push (h : t.count < n) (f : α → α) :
    (t.push f).entries = t.entries ++ [f (t.slots ⟨t.count,h⟩)] := by
  have hpush : t.push f = ⟨Function.update t.slots ⟨t.count,h⟩ (f (t.slots ⟨t.count,h⟩)),t.count+1,h⟩ := dif_pos h
  apply List.ext_getElem
  · simp [hpush]
  · intro k hk hk'
    rw [getElem_entries]
    simp only [hpush]
    by_cases he : k = t.count
    · subst he
      rw [Function.update_self,List.getElem_append_right (by simp)]
      simp
    · have hlt : k < t.entries.length := by simp at hk' ⊢; omega
      rw [Function.update_of_ne (by simpa using he),List.getElem_append_left hlt,getElem_entries]

lemma entries_remove {i : Fin n} (hi : i.val < t.count) : (t.remove i).entries = t.entries.eraseIdx i := by
  apply List.ext_getElem
  · rw [length_entries,List.length_eraseIdx_of_lt (by simpa using hi),length_entries]
    rfl
  · intro k hk hk'
    rw [length_entries] at hk
    change k < t.count-1 at hk
    rw [getElem_entries,List.getElem_eraseIdx]
    simp only [remove]
    by_cases hik : k < i.val
    · rw [dif_neg (by simp [Fin.le_def]; omega),dif_pos hik,getElem_entries]
    · rw [dif_pos (by simp [Fin.le_def]; omega),dif_neg hik,getElem_entries]

/-- A search over the indices is one over the entries. -/
lemma map_find?_indices (p : α → Bool) : (t.indices.find? fun i => p (t.slots i)).map t.slots = t.entries.find? p := by
  rw [entries,List.find?_map]
  rfl

/-- The slot that a search finds is the one that is removed when the first entry found is dropped. -/
lemma entries_remove_find? {p : α → Bool} {i : Fin n} (h : t.indices.find? (fun i => p (t.slots i)) = some i) :
    (t.remove i).entries = t.entries.eraseP p := by
  obtain ⟨hp,k,hk,hki,hfirst⟩ := List.find?_eq_some_iff_getElem.mp h
  obtain rfl : i.val = k := by
    rw [← hki]
    simp [indices]
  have hlt : i.val < t.entries.length := by simpa [entries] using hk
  have hfind : t.entries.findIdx? p = some i.val := by
    refine List.findIdx?_eq_some_iff_getElem.mpr ⟨hlt,?_,fun j hj => ?_⟩
    · rw [getElem_entries]
      exact hp
    · have := hfirst j hj
      simpa [entries] using this
  rw [entries_remove t (by simpa using hlt),List.eraseP_eq_eraseIdx,hfind]

end Table

/-! ## The text of an alias -/

/-- The words with one blank between them, cut at 255 bytes. -/
def joinedText (words : Args) : List UInt8 := ([32].intercalate words).take 255

/-- A cut before the rest is put behind does not show after the cut of the whole. -/
lemma take_take_append {α : Type} (n : ℕ) (l r : List α) : (l.take n ++ r).take n = (l ++ r).take n := by
  rw [List.take_append,List.take_append,List.take_take,Nat.min_self,List.length_take]
  rcases Nat.le_total n l.length with h | h
  · rw [Nat.min_eq_left h,Nat.sub_self,Nat.sub_eq_zero_of_le h]
  · rw [Nat.min_eq_right h]

lemma joinWord_of_pos {buf : List UInt8} (hpos : 0 < buf.length) (hle : buf.length ≤ 255) (word : List UInt8) :
    joinWord 256 buf word = (buf ++ 32::word).take 255 := by
  have hcut : ∀ k, word.take (min word.length k) = word.take k := fun k => by
    rw [Nat.min_comm,← List.take_eq_take_min]
  simp only [joinWord,hcut]
  rw [List.take_append,List.take_of_length_le hle]
  by_cases hfull : buf.length = 255
  · simp [hfull]
  · rw [if_pos ⟨hpos,by omega⟩,List.append_assoc,List.singleton_append,List.length_append,List.length_singleton]
    obtain ⟨k,hk⟩ : ∃ k, 255-buf.length = k+1 := ⟨254-buf.length,by omega⟩
    rw [hk,List.take_succ_cons]
    congr 3
    omega

lemma foldl_joinWord {buf : List UInt8} (hpos : 0 < buf.length) (hle : buf.length ≤ 255) (words : Args) :
    words.foldl (joinWord 256) buf = (buf ++ words.flatMap (32::·)).take 255 := by
  induction words generalizing buf with
  | nil => simp [List.take_of_length_le hle]
  | cons w words ih =>
    rw [List.foldl_cons,joinWord_of_pos hpos hle,ih (by simp) (by simp),take_take_append]
    simp

lemma joinWords_nil_cons (words : Args) : joinWords 256 ([]::words) = joinWords 256 words := by
  simp [joinWords,joinWord]

/-- From the first word with bytes on, the loop joins with blanks. -/
lemma joinWords_cons_of_ne_nil {w : List UInt8} (hw : w ≠ []) (words : Args) :
    joinWords 256 (w::words) = joinedText (w::words) := by
  have hpos : 0 < w.length := List.length_pos_iff.mpr hw
  have hfirst : joinWord 256 [] w = w.take 255 := by
    simp [joinWord,Nat.min_comm w.length,← List.take_eq_take_min]
  rw [joinWords,List.foldl_cons,hfirst,foldl_joinWord (by simp; omega) (by simp),take_take_append,joinedText,
    intercalate_cons]

/-- Before it, the blanks between empty words are missing. -/
lemma joinWords_drops_blanks (words : Args) : ∃ k rest,
    [32].intercalate words = List.replicate k 32 ++ rest ∧ joinWords 256 words = rest.take 255 := by
  induction words with
  | nil => exact ⟨0,[],rfl,rfl⟩
  | cons w words ih =>
    by_cases hw : w = []
    · subst hw
      cases words with
      | nil => exact ⟨0,[],rfl,rfl⟩
      | cons v words =>
        obtain ⟨k,rest,hjoin,hstored⟩ := ih
        refine ⟨k+1,rest,?_,by rw [joinWords_nil_cons,hstored]⟩
        rw [List.intercalate_cons_cons,hjoin]
        simp [List.replicate_succ]
    · exact ⟨0,_,rfl,joinWords_cons_of_ne_nil hw words⟩

/-- A list that begins like itself moved back by one element or more repeats that element. -/
lemma take_eq_take_replicate_append_iff {α : Type} (a : α) (n j : ℕ) (l : List α) :
    l.take n = (List.replicate (j+1) a ++ l).take n ↔ l.take n = List.replicate n a := by
  constructor
  · intro h
    have hall : ∀ i, i < n → l[i]? = some a := by
      intro i
      induction i using Nat.strong_induction_on with
      | _ i ih =>
        intro hi
        have hget : (l.take n)[i]? = ((List.replicate (j+1) a ++ l).take n)[i]? := by rw [h]
        rw [List.getElem?_take_of_lt hi,List.getElem?_take_of_lt hi] at hget
        rw [hget]
        by_cases hj : i < j+1
        · rw [List.getElem?_append_left (by simpa using hj)]
          simp [hj]
        · rw [List.getElem?_append_right (by simp; omega)]
          exact ih _ (by simp; omega) (by simp; omega)
    apply List.ext_getElem?
    intro i
    by_cases hi : i < n
    · rw [List.getElem?_take_of_lt hi,hall i hi]
      simp [hi]
    · rw [List.getElem?_take_eq_none (by omega)]
      simp [hi]
  · intro h
    have hl : l = List.replicate n a ++ l.drop n := by rw [← h,List.take_append_drop]
    rw [h,hl,← List.append_assoc,List.replicate_append_replicate,List.take_append_of_le_length (by simp)]
    simp

/-- The table holds the joined words unless the first of several words is empty. -/
lemma joinWords_eq_iff (words : Args) : joinWords 256 words = joinedText words ↔
    words.length ≤ 1 ∨ words.head? ≠ some [] ∨ joinWords 256 words = List.replicate 255 32 := by
  match words with
  | [] => exact iff_of_true rfl (.inl (by simp))
  | [w] =>
    refine iff_of_true ?_ (.inl (by simp))
    by_cases hw : w = []
    · rw [hw]
      rfl
    · exact joinWords_cons_of_ne_nil hw []
  | w::v::words =>
    by_cases hw : w = []
    · subst hw
      obtain ⟨k,rest,hjoin,hstored⟩ := joinWords_drops_blanks (v::words)
      have htext : joinedText ([]::v::words) = (List.replicate (k+1) 32 ++ rest).take 255 := by
        rw [joinedText,List.intercalate_cons_cons,hjoin]
        simp [List.replicate_succ]
      rw [joinWords_nil_cons,hstored,htext,take_eq_take_replicate_append_iff,or_iff_right (by simp),
        or_iff_right (by simp)]
    · exact iff_of_true (joinWords_cons_of_ne_nil hw _) (.inr (.inl (by simpa using hw)))

/-! ## The table -/

/-- The text that `resolve_alias` leads to. -/
def aliasText (s : ShellState) (name : List UInt8) : Option (List UInt8) :=
  (resolveAlias s name).map fun i => (s.aliases.slots i).text

/-- The name an entry is stored under. -/
def aliasKey (a : Alias) : List UInt8 := text a.name.toList

lemma aliasText_eq (s : ShellState) (name : List UInt8) :
    aliasText s name = firstMatch aliasKey Alias.text s.aliases.entries (text name) := by
  have hname : ∀ a : Alias, strEq a.name.toList name = decide (aliasKey a = text name) := by
    intro a
    rw [Bool.eq_iff_iff,strEq_iff,decide_eq_true_eq]
    rfl
  rw [firstMatch,← Table.map_find?_indices,Option.map_map]
  simp only [aliasText,resolveAlias,hname]
  rfl

lemma aliasKey_define (old : Alias) {name : List UInt8} (h : name.length ≤ 31) (words : Args) :
    aliasKey (old.define name words) = text name := by
  have hname : (old.define name words).name.toList = name ++ 0::old.name.toList.drop (name.length+1) := by
    simp only [Alias.define,toList_blit,List.take_of_length_le h,Nat.min_eq_left h]
    simp
  rw [aliasKey,hname,text,text,List.takeWhile_append]
  split_ifs with hlen
  · have hall := (List.takeWhile_prefix (fun x : UInt8 => decide (x ≠ 0)) (l := name)).eq_of_length hlen
    rw [hall]
    simp
  · rfl

lemma Alias.text_define (old : Alias) (name : List UInt8) (words : Args) :
    (old.define name words).text = joinWords 256 words := by
  simp [Alias.text,Alias.define]

/-- `alias name words`. -/
def defineAlias (s : ShellState) (name : List UInt8) (words : Args) : ShellState × Output :=
  cmdAlias s (bytes "alias"::name::words)

/-- `unalias name`. -/
def forgetAlias (s : ShellState) (name : List UInt8) : ShellState := cmdUnalias s [bytes "unalias",name]

section Step
variable {s : ShellState} {name other : List UInt8}

lemma defineAlias_full (h : ¬ s.aliases.count < 16) (words : Args) :
    defineAlias s name words = (s,printColor "alias: table full\n" cBred) := if_pos (Nat.not_lt.mp h)

lemma defineAlias_room (h : s.aliases.count < 16) (words : Args) :
    defineAlias s name words = ({ s with aliases := s.aliases.push (·.define name words) },[]) :=
  if_neg (Nat.not_le.mpr h)

/-- The report is what tells a full table. -/
lemma defineAlias_silent_iff (words : Args) : (defineAlias s name words).2 = [] ↔ s.aliases.count < 16 := by
  by_cases h : s.aliases.count < 16
  · rw [defineAlias_room h]
    exact iff_of_true rfl h
  · rw [defineAlias_full h]
    exact iff_of_false (by simp [printColor]) h

/-- A defined name keeps its text, any other gets the new one. -/
lemma aliasText_defineAlias_self (h : s.aliases.count < 16) (hn : name.length ≤ 31) (words : Args) :
    aliasText (defineAlias s name words).1 name = some ((aliasText s name).getD (joinWords 256 words)) := by
  rw [defineAlias_room h,aliasText_eq,aliasText_eq]
  simp only [Table.entries_push _ h]
  rw [← aliasKey_define (s.aliases.slots ⟨s.aliases.count,h⟩) hn words,firstMatch_append_self,Alias.text_define]

lemma aliasText_defineAlias_of_ne (hn : name.length ≤ 31) (hne : text other ≠ text name) (words : Args) :
    aliasText (defineAlias s name words).1 other = aliasText s other := by
  by_cases h : s.aliases.count < 16
  · rw [defineAlias_room h,aliasText_eq,aliasText_eq]
    simp only [Table.entries_push _ h]
    apply firstMatch_append_of_ne
    rw [aliasKey_define _ hn]
    exact Ne.symm hne
  · rw [defineAlias_full h]

lemma entries_forgetAlias (s : ShellState) (name : List UInt8) :
    (forgetAlias s name).aliases.entries = dropFirst aliasKey s.aliases.entries (text name) := by
  have hname : (fun a : Alias => decide (aliasKey a = text name)) = fun a => strEq a.name.toList name := by
    funext a
    rw [Bool.eq_iff_iff,strEq_iff,decide_eq_true_eq]
    rfl
  simp only [dropFirst,hname]
  cases hfind : resolveAlias s name with
  | none =>
    have hnone : s.aliases.entries.find? (fun a => strEq a.name.toList name) = none := by
      rw [← Table.map_find?_indices]
      exact congrArg (Option.map _) hfind
    rw [List.eraseP_of_forall_not (List.find?_eq_none.mp hnone)]
    simp only [forgetAlias,cmdUnalias,hfind]
  | some i =>
    simp only [forgetAlias,cmdUnalias,hfind]
    exact Table.entries_remove_find? _ hfind

end Step

/-! ## Sequences of calls -/

inductive AliasCall
  | define (name : List UInt8) (words : Args)
  | forget (name : List UInt8)

namespace AliasCall

def name : AliasCall → List UInt8
  | .define name _ => name
  | .forget name => name

def run (s : ShellState) : AliasCall → ShellState
  | .define name words => (defineAlias s name words).1
  | .forget name => forgetAlias s name

/-- Names other than that of the call lead to the same texts as before. -/
def KeepsOthers (s : ShellState) (c : AliasCall) : Prop :=
  ∀ other, text other ≠ text c.name → aliasText (c.run s) other = aliasText s other

/-- What the call does to a map: the last definition of a name counts, unless the table was full. -/
def UpdatesMap (s : ShellState) : AliasCall → Prop
  | .define name words =>
    ((defineAlias s name words).2 = [] → aliasText (run s (.define name words)) name = some (joinedText words)) ∧
      KeepsOthers s (.define name words)
  | .forget name => aliasText (run s (.forget name)) name = none ∧ KeepsOthers s (.forget name)

/-- The name is new and its words are joined as they should be, or it has this text already; a name that
is removed stands in the table at most once. -/
def Distinct (s : ShellState) : AliasCall → Prop
  | .define name words =>
    s.aliases.count < 16 →
      aliasText s name = none ∧
        (words.length ≤ 1 ∨ words.head? ≠ some [] ∨ joinWords 256 words = List.replicate 255 32) ∨
      aliasText s name = some (joinedText words)
  | .forget name => s.aliases.entries.countP (aliasKey · = text name) ≤ 1

instance decidableDistinct (s : ShellState) : (c : AliasCall) → Decidable (c.Distinct s)
  | .define _ _ => inferInstanceAs (Decidable (_ → _))
  | .forget _ => inferInstanceAs (Decidable (_ ≤ _))

lemma keepsOthers {c : AliasCall} (h : c.name.length ≤ 31) (s : ShellState) : c.KeepsOthers s := by
  intro other hne
  cases c with
  | define name words => exact aliasText_defineAlias_of_ne h hne words
  | forget name =>
    change aliasText (forgetAlias s name) other = _
    rw [aliasText_eq,aliasText_eq,entries_forgetAlias]
    exact firstMatch_dropFirst_of_ne hne

lemma updatesMap_iff {c : AliasCall} (h : c.name.length ≤ 31) (s : ShellState) : c.UpdatesMap s ↔ c.Distinct s := by
  have hothers := keepsOthers h s
  cases c with
  | define name words =>
    rw [UpdatesMap,and_iff_left hothers,defineAlias_silent_iff]
    refine imp_congr_right fun hroom => ?_
    have hn : name.length ≤ 31 := h
    change aliasText (defineAlias s name words).1 name = _ ↔ _
    rw [aliasText_defineAlias_self hroom hn,Option.some_inj,← joinWords_eq_iff]
    cases aliasText s name <;> simp
  | forget name =>
    rw [UpdatesMap,and_iff_left hothers]
    change aliasText (forgetAlias s name) name = none ↔ _
    rw [aliasText_eq,entries_forgetAlias]
    exact firstMatch_dropFirst_self

end AliasCall

/-- The alias table is a map with last-definition-wins along a sequence of calls exactly when no call
defines a name again with another text, drops blanks behind leading empty words, or removes a name that
stands there more than once. -/
theorem aliases_map_iff (s : ShellState) (calls : List AliasCall)
    (hnames : ∀ c ∈ calls, 1 ≤ c.name.length ∧ c.name.length ≤ 31) :
    Along AliasCall.run AliasCall.UpdatesMap s calls ↔ Along AliasCall.run AliasCall.Distinct s calls :=
  along_congr (fun c hc s => AliasCall.updatesMap_iff (hnames c hc).2 s) s

/-- Two names, one of them removed and defined again. -/
def someAliases : List AliasCall :=
  [.define (bytes "ll") [bytes "ls",bytes "/etc"],.define (bytes "la") [bytes "ls"],.forget (bytes "ll"),
    .define (bytes "ll") [bytes "ls",bytes "/bin"]]

theorem aliases_map_iff_some : Along AliasCall.run AliasCall.UpdatesMap bootState someAliases := by
  rw [aliases_map_iff bootState someAliases (by decide)]
  decide +kernel

/-- A second definition of `ll` is ignored. -/
theorem aliases_first_definition_wins :
    ¬ Along AliasCall.run AliasCall.UpdatesMap bootState
      [.define (bytes "ll") [bytes "ls",bytes "/etc"],.define (bytes "ll") [bytes "ls",bytes "/bin"]] ∧
    aliasText (AliasCall.run (AliasCall.run bootState (.define (bytes "ll") [bytes "ls",bytes "/etc"]))
      (.define (bytes "ll") [bytes "ls",bytes "/bin"])) (bytes "ll") = some (bytes "ls /etc") := by
  refine ⟨?_,by decide +kernel⟩
  rw [along_congr (R := AliasCall.Distinct) (fun c hc s => AliasCall.updatesMap_iff (by revert c; decide) s)]
  decide +kernel

end Linuxab.Shell
