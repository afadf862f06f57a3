import Linuxab.Shell.Directories

/-!
What `ls` prints for a directory.  A line is printed for each entry whose path begins with that of the
directory and has no separator behind it but one that follows at once; that is so for the children of
the directory and for its siblings whose names begin with its name.
-/
namespace Linuxab.Shell
open Linuxab.Base

/-! ## The hierarchy -/

/-- The path of the directory that a path lies in. -/
def parentOf (q : List UInt8) : List UInt8 := orRoot (q.rdropWhile (· ≠ 47)).dropLast

def lastComponent (q : List UInt8) : List UInt8 := q.rtakeWhile (· ≠ 47)

/-- Drop one separator at the front. -/
def dropSeparator (rel : List UInt8) : List UInt8 := if rel.head? = some 47 then rel.tail else rel

/-- The path goes on behind that of the directory without a further separator. -/
def Listed (d q : List UInt8) : Prop := d <+: q ∧ q ≠ d ∧ 47 ∉ dropSeparator (q.drop d.length)

instance (d q : List UInt8) : Decidable (Listed d q) := inferInstanceAs (Decidable (_ ∧ _))

/-- The path lies directly in the directory. -/
def IsChild (d q : List UInt8) : Prop := q ≠ [47] ∧ parentOf q = d

instance (d q : List UInt8) : Decidable (IsChild d q) := inferInstanceAs (Decidable (_ ∧ _))

/-- The path `q` is `d` with more bytes in its last component. -/
def SiblingOf (d q : List UInt8) : Prop := ∃ rel, q = d ++ rel ∧ rel ≠ [] ∧ 47 ∉ rel

section Hierarchy
variable {d q base c rel : List UInt8}

lemma parentOf_append (hc : 47 ∉ c) : parentOf (base ++ 47::c) = orRoot base := by
  rw [parentOf,rdropWhile_component hc,List.dropLast_concat]

lemma lastComponent_append (hc : 47 ∉ c) : lastComponent (base ++ 47::c) = c := by
  have hall : ∀ b ∈ c.reverse, decide (b ≠ 47) = true := by
    intro b hb
    simp only [decide_eq_true_eq]
    rintro rfl
    exact hc (List.mem_reverse.mp hb)
  rw [lastComponent,List.rtakeWhile,List.reverse_append,List.reverse_cons,List.append_assoc,
    List.takeWhile_append_of_pos hall]
  simp

/-- A path with a separator is cut at its last one. -/
lemma dropSeparator_of_notMem (h : 47 ∉ rel) : dropSeparator rel = rel :=
  if_neg fun hhead => h (List.mem_of_head? hhead)

lemma listed_append : Listed d (d ++ rel) ↔ rel ≠ [] ∧ 47 ∉ dropSeparator rel := by
  simp [Listed]

/-- A child is listed with its last component. -/
lemma IsChild.listed (h : IsChild d q) (habs : q.head? = some 47) (hlast : q.getLast? ≠ some 47) :
    Listed d q ∧ dropSeparator (q.drop d.length) = lastComponent q := by
  obtain ⟨-,hparent⟩ := h
  obtain ⟨base,c,rfl,hc⟩ := exists_last_separator (List.mem_of_head? habs)
  have hne : c ≠ [] := by
    rintro rfl
    simp at hlast
  rw [parentOf_append hc] at hparent
  rw [lastComponent_append hc]
  by_cases hbase : base = []
  · subst hbase
    obtain rfl : [47] = d := hparent
    have hq : [] ++ 47::c = [47] ++ c := rfl
    rw [hq,listed_append,List.drop_left,dropSeparator_of_notMem hc]
    exact ⟨⟨hne,hc⟩,rfl⟩
  · rw [orRoot_of_ne_nil hbase] at hparent
    subst hparent
    rw [listed_append,List.drop_left]
    exact ⟨⟨by simp,hc⟩,rfl⟩

/-- What is listed is a child, or a sibling with a longer name. -/
lemma Listed.cases (h : Listed d q) (habs : d.head? = some 47) : IsChild d q ∨ d ≠ [47] ∧ SiblingOf d q := by
  obtain ⟨⟨rel,rfl⟩,hne,hsep⟩ := h
  have hd : d ≠ [] := by
    rintro rfl
    cases habs
  have hrel : rel ≠ [] := by
    rintro rfl
    simp at hne
  rw [List.drop_left] at hsep
  have hroot : d ++ rel ≠ [47] := by
    intro he
    have hlen := congrArg List.length he
    have h1 := List.length_pos_iff.mpr hd
    have h2 := List.length_pos_iff.mpr hrel
    simp at hlen
    omega
  by_cases hhead : rel.head? = some 47
  · obtain ⟨b,r,rfl⟩ := List.exists_cons_of_ne_nil hrel
    obtain rfl : b = 47 := by simpa using hhead
    have hr : 47 ∉ r := hsep
    refine .inl ⟨hroot,?_⟩
    rw [parentOf_append hr,orRoot_of_ne_nil hd]
  · rw [dropSeparator,if_neg hhead] at hsep
    by_cases hd' : d = [47]
    · subst hd'
      exact .inl ⟨hroot,@parentOf_append [] rel hsep⟩
    · exact .inr ⟨hd',rel,rfl,hrel,hsep⟩

/-- Such a sibling is listed, but its parent is another directory. -/
lemma SiblingOf.listed (h : SiblingOf d q) (habs : d.head? = some 47) (hd : d ≠ [47]) :
    Listed d q ∧ ¬ IsChild d q := by
  obtain ⟨rel,rfl,hrel,hsep⟩ := h
  refine ⟨listed_append.mpr ⟨hrel,by rwa [dropSeparator_of_notMem hsep]⟩,?_⟩
  rintro ⟨-,hparent⟩
  obtain ⟨base,c,rfl,hc⟩ := exists_last_separator (List.mem_of_head? habs)
  rw [List.append_assoc,List.cons_append,parentOf_append (by simp [hc,hsep]),orRoot] at hparent
  split_ifs at hparent with hbase
  · exact hd hparent.symm
  · have := congrArg List.length hparent
    simp at this

end Hierarchy

/-! ## The lines -/

/-- A line of the listing: the kind of the entry and a text. -/
def entryLine (e : FileEntry) (shown : List UInt8) : Output :=
  (if e.isDir then printColor "[dir]  " cBcyan else printColor "[file] " cGreen) ++ printBytes shown ++ newline

/-- The lines, or what is printed if there are none. -/
def printListing (lines : List Output) : Output := if lines = [] then printStr "total 0\n" else lines.flatten

/-- The path of an entry is followed by zeros. -/
def ZeroPadded (files : FileTable) : Prop := ∀ k, (files k).used = true → (files k).path.toList = padded (files k).name

section Lines
variable {target : PathBuf} {e : FileEntry} {d : List UInt8}

/-- Zeros behind a text are not printed. -/
lemma printBytes_append_zeros {t : List UInt8} (h : 0 ∉ t) (n : ℕ) :
    printBytes (t ++ List.replicate n 0) = printBytes t := by
  cases n with
  | zero => rw [List.replicate_zero,List.append_nil]
  | succ n => rw [printBytes,printBytes,List.replicate_succ,text_append_nul h,text_of_noNul h]

lemma dropSeparator_append {rel : List UInt8} (h : rel ≠ []) (r : List UInt8) :
    dropSeparator (rel ++ r) = dropSeparator rel ++ r := by
  obtain ⟨b,rel,rfl⟩ := List.exists_cons_of_ne_nil h
  unfold dropSeparator
  by_cases hb : b = 47 <;> simp [hb]

lemma dropSeparator_subset (rel : List UInt8) : dropSeparator rel ⊆ rel := by
  unfold dropSeparator
  split_ifs
  · exact List.tail_subset rel
  · exact List.Subset.refl rel

/-- The comparison of `ls` asks whether the path starts with the target. -/
lemma starts_iff (hp : e.path.toList = padded e.name) :
    (e.name.length < d.length ∨ e.path.toList.take d.length ≠ d) ↔ ¬ d <+: e.name := by
  rw [← not_iff_not,not_or,not_lt,not_not,not_not]
  constructor
  · rintro ⟨hlen,htake⟩
    rw [hp,padded,List.take_append_of_le_length hlen] at htake
    exact List.prefix_iff_eq_take.mpr htake.symm
  · intro hpre
    refine ⟨hpre.length_le,?_⟩
    rw [hp,padded,List.take_append_of_le_length hpre.length_le]
    exact (List.prefix_iff_eq_take.mp hpre).symm

/-- An entry has a line exactly if its path is listed. -/
lemma lsLine_eq (ht : target.toList = padded d) (hd : 0 ∉ d) (hp : e.path.toList = padded e.name) :
    lsLine target e =
      if e.used = true ∧ Listed d e.name then some (entryLine e (dropSeparator (e.name.drop d.length))) else none := by
  have hq0 : 0 ∉ e.name := noNul_name e
  have hlen : strlen e.path.toList = e.name.length := strlen_eq _
  have htlen : strlen target.toList = d.length := by rw [strlen_eq,ht,text_padded hd]
  have httake : target.toList.take d.length = d := by rw [ht,padded,List.take_left]
  unfold lsLine
  simp only [htlen,hlen,httake,starts_iff hp]
  cases hu : e.used with
  | false => rw [if_pos rfl,if_neg fun h => Bool.false_ne_true h.1]
  | true =>
    simp only [Bool.true_eq_false,if_false,true_and]
    by_cases hpre : d <+: e.name
    · rw [if_neg (not_not.mpr hpre)]
      obtain ⟨rel,hrel⟩ := hpre
      have hdrop : e.path.toList.drop d.length = rel ++ List.replicate (128-(d ++ rel).length) 0 := by
        rw [hp,padded,← hrel,List.append_assoc,List.drop_left]
      have hlisted : Listed d (d ++ rel) ↔ rel ≠ [] ∧ 47 ∉ dropSeparator rel := listed_append
      rw [hdrop,← hrel,List.drop_left]
      by_cases hnil : rel = []
      · rw [if_pos (by simp [hnil]),if_neg fun h => (hlisted.mp h).1 hnil]
      · rw [if_neg (by simp [hnil])]
        -- what is printed is the rest of the buffer, with the zeros behind the path
        have hfold : (if (rel ++ List.replicate (128-(d ++ rel).length) (0 : UInt8)).head? = some 47
            then (rel ++ List.replicate (128-(d ++ rel).length) 0).tail
            else rel ++ List.replicate (128-(d ++ rel).length) 0) =
            dropSeparator rel ++ List.replicate (128-(d ++ rel).length) 0 := dropSeparator_append hnil _
        have hrel0 : 0 ∉ dropSeparator rel := fun h0 => hq0 (by
          rw [← hrel]
          exact List.mem_append_right d (dropSeparator_subset rel h0))
        rw [hfold]
        by_cases hsep : 47 ∈ dropSeparator rel
        · rw [if_pos (List.mem_append_left _ hsep),if_neg fun h => (hlisted.mp h).2 hsep]
        · rw [if_neg (by simp [hsep]),if_pos (hlisted.mpr ⟨hnil,hsep⟩),printBytes_append_zeros hrel0]
          rfl
    · rw [if_pos hpre,if_neg fun h => hpre h.1]

end Lines

/-! ## The listing -/

/-- One line for each used entry that lies directly in the directory, with its last component. -/
def childLines (files : FileTable) (d : List UInt8) : List Output :=
  (List.finRange 48).filterMap fun k =>
    if (files k).used = true ∧ IsChild d (files k).name then
      some (entryLine (files k) (lastComponent (files k).name))
    else none

/-- `ls` with the path of a directory prints its children. -/
def ListsChildren (s : ShellState) (d : List UInt8) : Prop :=
  cmdLs s [bytes "ls",d] = printListing (childLines s.files d)

/-- The lines that are printed. -/
def listedLines (files : FileTable) (d : List UInt8) : List Output :=
  (List.finRange 48).filterMap fun k =>
    if (files k).used = true ∧ Listed d (files k).name then
      some (entryLine (files k) (dropSeparator ((files k).name.drop d.length)))
    else none

section Listing
variable {s : ShellState} {files : FileTable} {d : List UInt8}

lemma cmdLs_eq (hpad : ZeroPadded s.files) (habs : d.head? = some 47) (h0 : 0 ∉ d) (hlen : d.length ≤ 127)
    (hdots : NoDots d) : cmdLs s [bytes "ls",d] = printListing (listedLines s.files d) := by
  have hn : (s.normalize d).toList = padded d := normalize_absolute habs h0 hlen hdots
  have hlines : (List.finRange 48).filterMap (fun i => lsLine (s.normalize d) (s.files i)) = listedLines s.files d := by
    refine List.filterMap_congr fun k _ => ?_
    cases hu : (s.files k).used with
    | false => exact (if_pos hu).trans (if_neg fun h => nomatch h.1).symm
    | true => rw [lsLine_eq hn h0 (hpad k hu),hu]
  change printListing ((List.finRange 48).filterMap fun i => lsLine (s.normalize d) (s.files i)) = _
  rw [hlines]

/-- A line sets the colour twice. -/
def IsColor : CursorOp → Bool
  | .setColor _ _ => true
  | _ => false

lemma countP_printBytes (t : List UInt8) : (printBytes t).countP IsColor = 0 := by
  rw [printBytes,List.countP_map,List.countP_eq_zero]
  exact fun _ _ h => nomatch h

lemma countP_printColor (t : String) (fg : UInt8) : (printColor t fg).countP IsColor = 2 := by
  rw [printColor,List.countP_append,List.countP_append,printStr,countP_printBytes]
  rfl

lemma countP_entryLine (e : FileEntry) (shown : List UInt8) : (entryLine e shown).countP IsColor = 2 := by
  have hkind : (if e.isDir then printColor "[dir]  " cBcyan else printColor "[file] " cGreen).countP IsColor = 2 := by
    split <;> exact countP_printColor _ _
  rw [entryLine,List.countP_append,List.countP_append,hkind,countP_printBytes]
  rfl

/-- So the number of lines can be read off the output. -/
lemma countP_printListing {lines : List Output} (h : ∀ line ∈ lines, line.countP IsColor = 2) :
    (printListing lines).countP IsColor = 2*lines.length := by
  unfold printListing
  split_ifs with hnil
  · rw [hnil,printStr,countP_printBytes]
    rfl
  · clear hnil
    induction lines with
    | nil => rfl
    | cons line lines ih =>
      rw [List.forall_mem_cons] at h
      rw [List.flatten_cons,List.countP_append,h.1,ih h.2,List.length_cons]
      omega

/-- Filters of which one lets more through. -/
lemma length_filterMap_lt {α β : Type} {f g : α → Option β} {l : List α} (hle : ∀ a, (g a).isSome → (f a).isSome)
    {a : α} (ha : a ∈ l) (hf : (f a).isSome) (hg : g a = none) : (l.filterMap g).length < (l.filterMap f).length := by
  have hmono : ∀ l : List α, (l.filterMap g).length ≤ (l.filterMap f).length := by
    intro l
    rw [List.length_filterMap_eq_countP,List.length_filterMap_eq_countP]
    exact List.countP_mono_left fun a _ => hle a
  obtain ⟨pre,post,rfl⟩ := List.append_of_mem ha
  obtain ⟨b,hb⟩ := Option.isSome_iff_exists.mp hf
  have h1 := hmono pre
  have h2 := hmono post
  rw [List.filterMap_append,List.filterMap_append,List.filterMap_cons_none hg,List.filterMap_cons_some hb]
  simp only [List.length_append,List.length_cons]
  omega

/-- The children are among the listed entries. -/
lemma listedLine_of_child (hfiles : PathTable files) {k : Fin 48} (hu : (files k).used = true)
    (hchild : IsChild d (files k).name) :
    (if (files k).used = true ∧ Listed d (files k).name then
        some (entryLine (files k) (dropSeparator ((files k).name.drop d.length))) else none) =
      some (entryLine (files k) (lastComponent (files k).name)) := by
  obtain ⟨hlisted,hshown⟩ := hchild.listed (hfiles.absolute k hu) (hfiles.noTrailing k hu hchild.1)
  rw [if_pos ⟨hu,hlisted⟩,hshown]

/-- Without siblings that begin with the directory's name, nothing else is listed. -/
lemma listedLines_eq (hfiles : PathTable files) (habs : d.head? = some 47)
    (h : d = [47] ∨ ¬ ∃ k, (files k).used = true ∧ SiblingOf d (files k).name) :
    listedLines files d = childLines files d := by
  refine List.filterMap_congr fun k _ => ?_
  by_cases hchild : (files k).used = true ∧ IsChild d (files k).name
  · rw [if_pos hchild,listedLine_of_child hfiles hchild.1 hchild.2]
  · rw [if_neg hchild,if_neg]
    rintro ⟨hu,hlisted⟩
    rcases hlisted.cases habs with hc | ⟨hroot,hsibling⟩
    · exact hchild ⟨hu,hc⟩
    · rcases h with he | hnone
      · exact hroot he
      · exact hnone ⟨k,hu,hsibling⟩

/-- Each of them has a line of its own. -/
lemma length_childLines_lt (hfiles : PathTable files) (habs : d.head? = some 47) (hroot : d ≠ [47]) {k : Fin 48}
    (hu : (files k).used = true) (hsibling : SiblingOf d (files k).name) :
    (childLines files d).length < (listedLines files d).length := by
  obtain ⟨hlisted,hchild⟩ := hsibling.listed habs hroot
  refine length_filterMap_lt (fun j hj => ?_) (List.mem_finRange k) ?_ (if_neg fun h => hchild h.2)
  by_cases hc : (files j).used = true ∧ IsChild d (files j).name
  · rw [listedLine_of_child hfiles hc.1 hc.2]
    rfl
  · rw [if_neg hc] at hj
    cases hj
  · rw [if_pos ⟨hu,hlisted⟩]
    rfl

lemma countP_listedLines : ∀ line ∈ listedLines files d, line.countP IsColor = 2 := by
  intro line hline
  obtain ⟨k,-,hk⟩ := List.mem_filterMap.mp hline
  split_ifs at hk
  cases hk
  exact countP_entryLine _ _

lemma countP_childLines : ∀ line ∈ childLines files d, line.countP IsColor = 2 := by
  intro line hline
  obtain ⟨k,-,hk⟩ := List.mem_filterMap.mp hline
  split_ifs at hk
  cases hk
  exact countP_entryLine _ _

/-- A directory in normal form is listed with its children exactly if no entry is taken for one. -/
lemma listsChildren_iff (hfiles : PathTable s.files) (hpad : ZeroPadded s.files) (habs : d.head? = some 47)
    (h0 : 0 ∉ d) (hlen : d.length ≤ 127) (hdots : NoDots d) :
    ListsChildren s d ↔ d = [47] ∨ ¬ ∃ k, (s.files k).used = true ∧ SiblingOf d (s.files k).name := by
  rw [ListsChildren,cmdLs_eq hpad habs h0 hlen hdots]
  constructor
  · intro h
    by_contra hn
    rw [not_or,not_not] at hn
    obtain ⟨hroot,k,hu,hsibling⟩ := hn
    have hlt := length_childLines_lt hfiles habs hroot hu hsibling
    have hcount := congrArg (List.countP IsColor) h
    rw [countP_printListing countP_listedLines,countP_printListing countP_childLines] at hcount
    omega
  · intro h
    rw [listedLines_eq hfiles habs h]

end Listing

/-- A text that is copied into zeros has zeros behind it. -/
lemma copyBytes_zeros {n : ℕ} {src : List UInt8} (h : src.length < n) :
    (copyBytes (List.Vector.replicate n 0) src).toList = src ++ List.replicate (n-src.length) 0 := by
  have hzeros : (List.Vector.replicate n (0 : UInt8)).toList = List.replicate n 0 := rfl
  have hmin : min n src.length = src.length := by omega
  unfold copyBytes
  rw [dif_pos (by omega)]
  simp only [toList_blit,hzeros,hmin,List.take_length,List.take_zero,List.nil_append,Nat.zero_add]
  rw [List.take_left' rfl,List.drop_append,List.drop_of_length_le (by simp),List.nil_append,List.drop_replicate,
    List.drop_replicate,List.append_assoc,← List.replicate_one,List.replicate_append_replicate]
  congr 2
  rw [List.length_replicate]
  omega

lemma zeroPadded_tableOf {l : List (List UInt8 × Bool)} (hl : ∀ e ∈ l, ValidPath e.1) : ZeroPadded (tableOf l) := by
  intro k hk
  obtain ⟨e,he⟩ := exists_of_used hk
  rw [name_tableOf hl he,tableOf_of_some he]
  exact copyBytes_zeros (Nat.lt_succ_of_le (hl e (List.mem_of_getElem? he)).2)

/-- The root with two directories, one of whose names begins with the other, and a file. -/
def siblings : List (List UInt8 × Bool) :=
  [(bytes "/",true),(bytes "/usr",true),(bytes "/usrx",true),(bytes "/usr/local",false)]

def siblingState : ShellState := { bootState with files := tableOf siblings }

lemma siblings_valid : ∀ e ∈ siblings, ValidPath e.1 := by
  unfold ValidPath
  decide

lemma pathTable_siblings : PathTable (tableOf siblings) := pathTable_tableOf siblings_valid (by decide) (by decide)

lemma noDots_usr : NoDots (bytes "/") ∧ NoDots (bytes "/usr") := by
  unfold NoDots
  decide

end Linuxab.Shell
