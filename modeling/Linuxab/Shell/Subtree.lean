import Linuxab.Shell.Boot

/-!
Which entries `fs_delete` removes.  The loop over the table deletes each entry whose path goes on with
a separator behind the path of the directory, and the recursive calls clear entries that the loop has
not come to yet; an entry is cleared once and in the same way in either case.
-/
namespace Linuxab.Shell
open Linuxab.Base

/-- The path `q` is `p`, a separator and more. -/
def Extends (p q : List UInt8) : Prop := ∃ rest, q = p ++ 47::rest

lemma extends_iff_isPrefix (p q : List UInt8) : Extends p q ↔ p ++ [47] <+: q := by
  simp [Extends,List.IsPrefix,eq_comm]

instance (p q : List UInt8) : Decidable (Extends p q) := decidable_of_iff _ (extends_iff_isPrefix p q).symm

lemma Extends.trans {p q r : List UInt8} (hpq : Extends p q) (hqr : Extends q r) : Extends p r := by
  obtain ⟨a,rfl⟩ := hpq
  obtain ⟨b,rfl⟩ := hqr
  exact ⟨a ++ 47::b,by simp⟩

lemma not_extends_self (p : List UInt8) : ¬ Extends p p := by
  rintro ⟨rest,h⟩
  have := congrArg List.length h
  simp at this

lemma noNul_name (e : FileEntry) : 0 ∉ e.name := by
  intro h
  simpa using List.mem_takeWhile_imp h

lemma path_eq_name_append (e : FileEntry) : ∃ rest, e.path.toList = e.name ++ rest :=
  (List.takeWhile_prefix _ : e.name <+: e.path.toList).imp fun _ => Eq.symm

/-- The test of the loop says that the path extends that of the directory. -/
lemma liesBelow_iff (e d : FileEntry) : liesBelow e d (strlen d.path.toList) = true ↔ Extends d.name e.name := by
  have hd : strlen d.name = d.name.length := by rw [strlen_eq,text_of_noNul (noNul_name d)]
  have hdlen : strlen d.path.toList = d.name.length := strlen_eq _
  have helen : strlen e.path.toList = e.name.length := strlen_eq _
  obtain ⟨r,hr⟩ := path_eq_name_append e
  simp only [liesBelow,startsWith,take_strlen,Bool.and_eq_true,decide_eq_true_eq,beq_iff_eq]
  have hname : text d.path.toList = d.name := rfl
  rw [hname,hd,hdlen,helen,hr]
  constructor
  · rintro ⟨⟨⟨-,htake⟩,hlt⟩,hsep⟩
    rw [List.take_append_of_le_length hlt.le] at htake
    rw [List.getElem?_append_left hlt] at hsep
    refine ⟨e.name.drop (d.name.length+1),?_⟩
    obtain ⟨_,hget⟩ := List.getElem?_eq_some_iff.mp hsep
    calc e.name = e.name.take d.name.length ++ e.name.drop d.name.length := (List.take_append_drop _ _).symm
      _ = d.name ++ 47::e.name.drop (d.name.length+1) := by rw [htake,List.drop_eq_getElem_cons hlt,hget]
  · rintro ⟨rest,he⟩
    simp [he]

/-! ## One deletion -/

/-- What is left of an entry that is deleted. -/
def FileEntry.cleared (e : FileEntry) : FileEntry :=
  { e with used := false, size := 0, size_le := FileEntry.empty_le }

/-- No two used entries have one path. -/
def DistinctNames (files : FileTable) : Prop :=
  ∀ i j, (files i).used → (files j).used → (files i).name = (files j).name → i = j

/-- The table after the entries of a set are cleared. -/
def clearAll (files : FileTable) (S : Fin 48 → Prop) [DecidablePred S] : FileTable :=
  fun k => if S k then (files k).cleared else files k

section Delete
variable {files : FileTable} {path : List UInt8} {idx : Fin 48}

lemma fsFind_of_name (hd : DistinctNames files) (hu : (files idx).used) (hp : text path = (files idx).name) :
    fsFind files path = some idx := by
  cases hf : fsFind files path with
  | none => exact absurd hp.symm (fsFind_eq_none.mp hf idx hu)
  | some j =>
    obtain ⟨hj,ht⟩ := fsFind_spec hf
    rw [hd j idx hj hu (ht.trans hp)]

/-- An entry that a deletion of `idx` clears. -/
def Deletes (files : FileTable) (idx k : Fin 48) : Prop :=
  (files k).used = true ∧ (k = idx ∨ (files idx).isDir = true ∧ Extends (files idx).name (files k).name)

instance : DecidablePred (Deletes files idx) := fun _ => inferInstanceAs (Decidable (_ ∧ _))

/-- The body of the loop over the entries below a directory. -/
def deleteStep (idx : Fin 48) (prefixLen : ℕ) (current : FileTable) (j : Fin 48) : FileTable :=
  if j = idx ∨ (current j).used = false then current
  else if liesBelow (current j) (current idx) prefixLen then (fsDelete current (current j).path.toList).2
  else current

/-- The table when the entry itself is about to be cleared. -/
def deleteBelow (files : FileTable) (idx : Fin 48) : FileTable :=
  if (files idx).isDir then (List.finRange 48).foldl (deleteStep idx (strlen (files idx).path.toList)) files
  else files

lemma fsDelete_eq (h : fsFind files path = some idx) :
    fsDelete files path =
      (true,Function.update (deleteBelow files idx) idx (deleteBelow files idx idx).cleared) := by
  unfold fsDelete
  split
  · next j hj =>
    obtain rfl : j = idx := Option.some.inj (hj.symm.trans h)
    simp only [deleteBelow,FileEntry.cleared,dite_eq_ite]
    rfl
  · next hn => cases hn.symm.trans h

/-- Where the loop stands: the entries it has passed are cleared if they are below the directory, and
each entry is as it was or cleared. -/
def Swept (files : FileTable) (idx : Fin 48) (passed : Fin 48 → Prop) (current : FileTable) : Prop :=
  ∀ k, current k = files k ∧ (passed k → (files k).used → ¬ Extends (files idx).name (files k).name) ∨
    (files k).used = true ∧ Extends (files idx).name (files k).name ∧ current k = (files k).cleared

namespace Swept
variable {passed : Fin 48 → Prop} {current : FileTable} (h : Swept files idx passed current)
include h

lemma of_used {k : Fin 48} (hk : (current k).used = true) : current k = files k := by
  rcases h k with hk' | ⟨-,-,he⟩
  · exact hk'.1
  · rw [he] at hk
    cases hk

lemma self : current idx = files idx := by
  rcases h idx with hk | ⟨-,he,-⟩
  · exact hk.1
  · exact absurd he (not_extends_self _)

lemma distinct (hd : DistinctNames files) : DistinctNames current := by
  intro i j hi hj hn
  have ei := h.of_used hi
  have ej := h.of_used hj
  rw [ei] at hi hn
  rw [ej] at hj hn
  exact hd i j hi hj hn

/-- An entry that is not below the directory can be counted as passed. -/
lemma pass {j : Fin 48} (hj : (files j).used = true → current j = files j →
      ¬ Extends (files idx).name (files j).name) : Swept files idx (fun k => passed k ∨ k = j) current := by
  intro k
  rcases h k with ⟨hk,hp⟩ | hk
  · refine .inl ⟨hk,?_⟩
    rintro (hpk | rfl) hu
    · exact hp hpk hu
    · exact hj hu hk
  · exact .inr hk

/-- Clearing an entry below the directory, with all that is below it, passes the entry. -/
lemma clear {j : Fin 48} (hu : (current j).used = true) (hbelow : Extends (files idx).name (current j).name) :
    Swept files idx (fun k => passed k ∨ k = j) (clearAll current (Deletes current j)) := by
  intro k
  unfold clearAll
  split_ifs with hk
  · obtain ⟨huk,hk⟩ := hk
    have he := h.of_used huk
    rw [h.of_used hu] at hbelow hk
    rw [he] at huk hk ⊢
    refine .inr ⟨huk,?_,rfl⟩
    rcases hk with rfl | ⟨-,hk⟩
    · exact hbelow
    · exact hbelow.trans hk
  · rcases h k with ⟨he,hp⟩ | hk'
    · refine .inl ⟨he,?_⟩
      rintro (hpk | rfl) huk
      · exact hp hpk huk
      · exact absurd ⟨hu,.inl rfl⟩ hk
    · exact .inr hk'

/-- One entry: `hrec` says what the recursive call does. -/
lemma step (hd : DistinctNames files) (j : Fin 48)
    (hrec : ∀ current, DistinctNames current → (current j).used = true →
      Extends (files idx).name (current j).name →
        (fsDelete current (current j).path.toList).2 = clearAll current (Deletes current j)) :
    Swept files idx (fun k => passed k ∨ k = j) (deleteStep idx (strlen (files idx).path.toList) current j) := by
  unfold deleteStep
  split_ifs with hskip hbelow
  · refine h.pass fun hu he => ?_
    rcases hskip with rfl | hun
    · exact not_extends_self _
    · rw [he,hu] at hun
      cases hun
  · have hu : (current j).used = true := by
      rw [not_or,Bool.not_eq_false] at hskip
      exact hskip.2
    rw [h.self,liesBelow_iff] at hbelow
    rw [hrec current (h.distinct hd) hu hbelow]
    exact h.clear hu hbelow
  · refine h.pass fun _ he hext => hbelow ?_
    rw [h.self,liesBelow_iff,he]
    exact hext

lemma foldl (hd : DistinctNames files) (l : List (Fin 48))
    (hrec : ∀ current j, DistinctNames current → (current j).used = true →
      Extends (files idx).name (current j).name →
        (fsDelete current (current j).path.toList).2 = clearAll current (Deletes current j)) :
    Swept files idx (fun k => passed k ∨ k ∈ l) (l.foldl (deleteStep idx (strlen (files idx).path.toList)) current) := by
  induction l generalizing passed current with
  | nil => simpa using h
  | cons j l ih =>
    have := ih (h.step hd j fun current => hrec current j)
    simpa only [List.foldl_cons,List.mem_cons,or_assoc] using this

end Swept

lemma swept_start : Swept files idx (fun _ => False) files := fun _ => .inl ⟨rfl,False.elim⟩

lemma length_name_le (e : FileEntry) : e.name.length ≤ 128 := by
  have := (List.takeWhile_prefix _ : e.name <+: e.path.toList).length_le
  rwa [List.Vector.toList_length] at this

/-- With all entries passed, only the entry itself is left to be cleared. -/
lemma update_deleteBelow (hu : (files idx).used = true)
    (hswept : Swept files idx (fun _ => True) ((List.finRange 48).foldl
      (deleteStep idx (strlen (files idx).path.toList)) files)) :
    Function.update (deleteBelow files idx) idx (deleteBelow files idx idx).cleared =
      clearAll files (Deletes files idx) := by
  funext k
  unfold deleteBelow clearAll
  by_cases hdir : (files idx).isDir = true
  · simp only [hdir,if_true,Deletes]
    by_cases hk : k = idx
    · subst hk
      rw [Function.update_self,if_pos ⟨hu,.inl rfl⟩,hswept.self]
    · rw [Function.update_of_ne hk]
      rcases hswept k with ⟨he,hp⟩ | ⟨huk,hext,he⟩
      · rw [he,if_neg]
        rintro ⟨huk,hidx | ⟨-,hext⟩⟩
        · exact hk hidx
        · exact hp trivial huk hext
      · rw [he,if_pos ⟨huk,.inr ⟨trivial,hext⟩⟩]
  · simp only [hdir,Bool.false_eq_true,if_false,Deletes]
    by_cases hk : k = idx
    · subst hk
      rw [Function.update_self,if_pos ⟨hu,.inl rfl⟩]
    · rw [Function.update_of_ne hk,if_neg]
      rintro ⟨-,hidx | ⟨hdir,-⟩⟩
      · exact hk hidx
      · cases hdir

/-- A deletion clears the entry and, if it is a directory, the entries whose paths extend its path. -/
lemma fsDelete_spec (hd : DistinctNames files) (hu : (files idx).used = true) (hp : text path = (files idx).name) :
    fsDelete files path = (true,clearAll files (Deletes files idx)) := by
  -- a recursive call is for a longer path
  induction hn : 128-(files idx).name.length using Nat.strong_induction_on generalizing files path idx with
  | _ n ih =>
    have hrec : ∀ current j, DistinctNames current → (current j).used = true →
        Extends (files idx).name (current j).name →
          (fsDelete current (current j).path.toList).2 = clearAll current (Deletes current j) := by
      intro current j hd' hu' hext
      have hshort : 128-(current j).name.length < n := by
        obtain ⟨rest,he⟩ := hext
        have hlen := congrArg List.length he
        have hle := length_name_le (current j)
        rw [List.length_append,List.length_cons] at hlen
        omega
      rw [ih _ hshort hd' hu' rfl rfl]
    have hswept := swept_start.foldl hd (List.finRange 48) hrec
    simp only [false_or,List.mem_finRange] at hswept
    rw [fsDelete_eq (fsFind_of_name hd hu hp),update_deleteBelow hu hswept]

end Delete

/-! ## Subtrees -/

/-- The used entries have distinct absolute paths, none but the root with a separator at its end. -/
structure PathTable (files : FileTable) : Prop where
  distinct : DistinctNames files
  absolute : ∀ k, (files k).used = true → (files k).name.head? = some 47
  noTrailing : ∀ k, (files k).used = true → (files k).name ≠ [47] → (files k).name.getLast? ≠ some 47

/-- The path `q` lies strictly below `p` in the hierarchy: below the root lies every other path. -/
def StrictlyBelow (p q : List UInt8) : Prop := if p = [47] then q ≠ [47] else Extends p q

instance (p q : List UInt8) : Decidable (StrictlyBelow p q) := inferInstanceAs (Decidable (ite _ _ _))

/-- The entries that make up the subtree of an entry. -/
def InSubtree (files : FileTable) (idx k : Fin 48) : Prop :=
  (files k).used = true ∧
    (k = idx ∨ (files idx).isDir = true ∧ StrictlyBelow (files idx).name (files k).name)

/-- The call succeeds, the entries of the subtree become unused and all others stay as they are. -/
def DeletesSubtree (files : FileTable) (idx : Fin 48) (path : List UInt8) : Prop :=
  (fsDelete files path).1 = true ∧
    ∀ k, (InSubtree files idx k → ((fsDelete files path).2 k).used = false) ∧
      (¬ InSubtree files idx k → (fsDelete files path).2 k = files k)

section Subtree
variable {files : FileTable} {idx : Fin 48}

/-- What extends a path is below it. -/
lemma Extends.strictlyBelow {p q : List UInt8} (h : Extends p q) : StrictlyBelow p q := by
  unfold StrictlyBelow
  split_ifs with hp
  · rintro rfl
    rw [hp] at h
    exact not_extends_self _ h
  · exact h

lemma Deletes.inSubtree {k : Fin 48} (h : Deletes files idx k) : InSubtree files idx k :=
  ⟨h.1,h.2.imp_right fun hdir => ⟨hdir.1,hdir.2.strictlyBelow⟩⟩

lemma deletesSubtree_iff (hd : DistinctNames files) (hu : (files idx).used = true) {path : List UInt8}
    (hp : text path = (files idx).name) :
    DeletesSubtree files idx path ↔ ∀ k, InSubtree files idx k → Deletes files idx k := by
  rw [DeletesSubtree,fsDelete_spec hd hu hp]
  constructor
  · rintro ⟨-,h⟩ k hk
    by_contra hn
    have hused := (h k).1 hk
    simp only [clearAll,if_neg hn,hk.1] at hused
    cases hused
  · refine fun h => ⟨rfl,fun k => ⟨fun hk => ?_,fun hk => if_neg fun hdel => hk hdel.inSubtree⟩⟩
    simp only [clearAll,if_pos (h k hk)]
    rfl

end Subtree

/-- `fs_delete` removes exactly a subtree unless the path is that of the root directory and there is
another entry that does not begin with two separators: only such entries extend the root's path. -/
theorem delete_subtree_iff (files : FileTable) (hfiles : PathTable files) (idx : Fin 48)
    (hu : (files idx).used = true) (path : List UInt8) (hp : text path = (files idx).name) :
    DeletesSubtree files idx path ↔
      ¬ ((files idx).name = [47] ∧ (files idx).isDir = true ∧
        ∃ k, k ≠ idx ∧ (files k).used = true ∧ ¬ Extends [47] (files k).name) := by
  rw [deletesSubtree_iff hfiles.distinct hu hp]
  constructor
  · rintro h ⟨hroot,hdir,k,hk,huk,hext⟩
    have hother : (files k).name ≠ [47] := fun he => hk (hfiles.distinct k idx huk hu (he.trans hroot.symm))
    obtain ⟨-,rfl | ⟨-,hdel⟩⟩ := h k ⟨huk,.inr ⟨hdir,by rwa [StrictlyBelow,if_pos hroot]⟩⟩
    · exact hk rfl
    · rw [hroot] at hdel
      exact hext hdel
  · rintro h k ⟨huk,hk⟩
    refine ⟨huk,hk.imp_right fun ⟨hdir,hbelow⟩ => ⟨hdir,?_⟩⟩
    unfold StrictlyBelow at hbelow
    split_ifs at hbelow with hroot
    · by_contra hext
      rw [hroot] at hext
      refine h ⟨hroot,hdir,k,?_,huk,hext⟩
      rintro rfl
      exact hbelow hroot
    · exact hbelow

/-! ## Tables with given entries -/

/-- A table with these paths and kinds, and with empty files. -/
def tableOf (l : List (List UInt8 × Bool)) : FileTable := fun k =>
  match l[k.val]? with
  | some e => (blankFiles k).claim e.1 e.2
  | none => blankFiles k

section Given
variable {l : List (List UInt8 × Bool)} {k : Fin 48}

lemma tableOf_of_some {e : List UInt8 × Bool} (h : l[k.val]? = some e) : tableOf l k = (blankFiles k).claim e.1 e.2 := by
  simp only [tableOf,h]

lemma exists_of_used (h : (tableOf l k).used = true) : ∃ e, l[k.val]? = some e := by
  cases he : l[k.val]? with
  | none =>
    simp only [tableOf,he] at h
    cases h
  | some e => exact ⟨e,rfl⟩

lemma name_tableOf (hl : ∀ e ∈ l, ValidPath e.1) {e : List UInt8 × Bool} (h : l[k.val]? = some e) :
    (tableOf l k).name = e.1 := by
  rw [tableOf_of_some h]
  exact name_claim _ (hl e (List.mem_of_getElem? h)) _

lemma pathTable_tableOf (hl : ∀ e ∈ l, ValidPath e.1) (hnodup : (l.map Prod.fst).Nodup)
    (habs : ∀ e ∈ l, e.1.head? = some 47 ∧ (e.1 ≠ [47] → e.1.getLast? ≠ some 47)) : PathTable (tableOf l) := by
  constructor
  · intro i j hi hj hn
    obtain ⟨a,ha⟩ := exists_of_used hi
    obtain ⟨b,hb⟩ := exists_of_used hj
    rw [name_tableOf hl ha,name_tableOf hl hb] at hn
    have hlt : i.val < (l.map Prod.fst).length := by
      rw [List.length_map]
      exact (List.getElem?_eq_some_iff.mp ha).1
    exact Fin.ext ((List.getElem?_inj hlt hnodup).mp (by simp [ha,hb,hn]))
  · intro k hk
    obtain ⟨e,he⟩ := exists_of_used hk
    rw [name_tableOf hl he]
    exact (habs e (List.mem_of_getElem? he)).1
  · intro k hk
    obtain ⟨e,he⟩ := exists_of_used hk
    rw [name_tableOf hl he]
    exact (habs e (List.mem_of_getElem? he)).2

end Given

/-- The root, a directory and a file in it. -/
def smallTree : FileTable := tableOf [(bytes "/",true),(bytes "/a",true),(bytes "/a/b",false)]

lemma smallTree_valid : ∀ e ∈ [(bytes "/",true),(bytes "/a",true),(bytes "/a/b",false)], ValidPath e.1 := by
  unfold ValidPath
  decide

lemma pathTable_smallTree : PathTable smallTree := pathTable_tableOf smallTree_valid (by decide) (by decide)

lemma smallTree_names : (smallTree 0).name = bytes "/" ∧ (smallTree 1).name = bytes "/a" :=
  ⟨name_tableOf (k := 0) (e := (bytes "/",true)) smallTree_valid rfl,
    name_tableOf (k := 1) (e := (bytes "/a",true)) smallTree_valid rfl⟩

theorem delete_subtree_iff_directory : DeletesSubtree smallTree 1 (bytes "/a") := by
  have hname : text (bytes "/a") = (smallTree 1).name := by
    rw [smallTree_names.2]
    rfl
  rw [delete_subtree_iff smallTree pathTable_smallTree 1 rfl (bytes "/a") hname,smallTree_names.2]
  rintro ⟨hroot,-⟩
  exact absurd hroot (by decide)

/-- `rm /` removes the root entry and leaves `/a` in the table. -/
theorem delete_root_keeps_entries : PathTable smallTree ∧ (smallTree 0).used = true ∧
    text (bytes "/") = (smallTree 0).name ∧ ¬ DeletesSubtree smallTree 0 (bytes "/") ∧
      ((fsDelete smallTree (bytes "/")).2 1).used = true := by
  obtain ⟨h0,h1⟩ := smallTree_names
  have hname : text (bytes "/") = (smallTree 0).name := by
    rw [h0]
    rfl
  have hnot : ¬ Deletes smallTree 0 1 := by
    rintro ⟨-,h | ⟨-,h⟩⟩
    · cases h
    · rw [h0,h1] at h
      exact absurd h (by decide)
  have hbelow : InSubtree smallTree 0 1 := by
    refine ⟨rfl,.inr ⟨rfl,?_⟩⟩
    rw [h0,h1]
    decide
  refine ⟨pathTable_smallTree,rfl,hname,?_,?_⟩
  · rw [deletesSubtree_iff pathTable_smallTree.distinct rfl hname]
    exact fun h => hnot (h 1 hbelow)
  · rw [fsDelete_spec pathTable_smallTree.distinct rfl hname]
    simp only [clearAll,if_neg hnot]
    rfl

end Linuxab.Shell
