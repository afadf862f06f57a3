import Linuxab.Shell.PathResolve

/-! Resolution of a path component by component, and the paths on which the scanner agrees with it. -/
namespace Linuxab.Shell
open Linuxab.Base

/-- Drop empty components and `.`; `..` takes back the last kept component. -/
def resolve : List (List UInt8) → List (List UInt8) → List (List UInt8)
  | kept,[] => kept
  | kept,c::cs =>
    if c = [] ∨ c = [46] then resolve kept cs
    else if c = [46,46] then resolve kept.dropLast cs
    else resolve (kept ++ [c]) cs

/-- The path that `input` means in the directory `cwd`. -/
def reference (cwd input : List UInt8) : List UInt8 :=
  orRoot (slashed (resolve [] ((if input.head? = some 47 then input else cwd ++ [47] ++ input).splitOn 47)))

lemma resolve_append (kept a b : List (List UInt8)) : resolve kept (a ++ b) = resolve (resolve kept a) b := by
  induction a generalizing kept with
  | nil => rfl
  | cons c a ih =>
    simp only [List.cons_append,resolve]
    split
    · apply ih
    split <;> apply ih

lemma resolve_components {t : List UInt8} (h : t.head? = some 47) :
    resolve [] (t.splitOn 47) = resolve [] (components t) := by
  cases t with
  | nil => cases h
  | cons b t =>
    obtain rfl : b = 47 := by simpa using h
    rw [components,splitOn_separator,List.tail_cons,resolve,if_pos (Or.inl rfl)]

/-- A second separator between directory and input changes nothing. -/
lemma reference_eq {cwd input : List UInt8} (hcwd : cwd.head? = some 47) :
    reference cwd input = orRoot (slashed (resolve [] (components (joined cwd input)))) := by
  rw [reference,← resolve_components (joined_head hcwd input),joined]
  split
  · rfl
  split
  · next hlast =>
    obtain ⟨d,rfl⟩ : ∃ d, cwd = d ++ [47] := by
      cases cwd using List.reverseRecOn with
      | nil => cases hcwd
      | append_singleton d a => exact ⟨d,by simpa using hlast⟩
    have e₁ : (d ++ [47] ++ [47] ++ input).splitOn 47 = d.splitOn 47 ++ [[]] ++ input.splitOn 47 := by
      rw [List.append_assoc (d ++ [47]),List.singleton_append,List.splitOn_append_cons_self,
        List.splitOn_append_cons_self,List.splitOn_nil]
    have e₂ : (d ++ [47] ++ input).splitOn 47 = d.splitOn 47 ++ input.splitOn 47 := by
      rw [List.append_assoc,List.singleton_append,List.splitOn_append_cons_self]
    rw [e₁,e₂,resolve_append,resolve_append,resolve_append]
    rfl
  · rw [List.append_assoc,List.singleton_append]

/-- Where the scan stands: how many components are kept, whether a separator stands behind the last
of them, and whether a dot component has just taken the next separator with it. -/
structure ScanState where
  depth : ℕ
  trailing : Bool
  bare : Bool

/-- One component that the kept text takes as the resolution does; `none` is one that it does not. -/
def advance (st : ScanState) (c : List UInt8) : Option ScanState :=
  if st.bare then
    -- copied without its separator: a name is right behind a trailing one only
    if c = [] then some {st with bare := false}
    else if st.trailing ∧ c ≠ [46] ∧ c ≠ [46,46] then some ⟨st.depth+1,false,false⟩
    else none
  else if c = [46] then some {st with bare := true}
  else if c = [46,46] then some ⟨st.depth-1,st.depth ≠ 0,true⟩
  else if st.trailing then none
  else if c = [] then some {st with trailing := true}
  else some {st with depth := st.depth+1}

/-- Every component is taken so, and no separator is left behind the last one. -/
def clean : ScanState → List (List UInt8) → Bool
  | st,[] => !st.trailing || st.depth == 0
  | st,c::cs =>
    match advance st c with
    | none => false
    | some st' => clean st' cs

def IsName (c : List UInt8) : Prop := c ≠ [] ∧ 47 ∉ c

/-- The text of the kept components, with or without a separator behind them. -/
def keptText (kept : List (List UInt8)) (trailing : Bool) : List UInt8 :=
  slashed kept ++ if trailing then [47] else []

section Clean
variable {kept : List (List UInt8)}

lemma slashed_concat (c : List UInt8) : slashed (kept ++ [c]) = slashed kept ++ 47::c := by simp [slashed]

lemma rdropWhile_component {l c : List UInt8} (hc : 47 ∉ c) :
    (l ++ 47::c).rdropWhile (· ≠ 47) = l ++ [47] := by
  induction c using List.reverseRecOn with
  | nil => simp
  | append_singleton c b ih =>
    simp only [List.mem_append,List.mem_singleton,not_or] at hc
    rw [← List.cons_append,← List.append_assoc,List.rdropWhile_concat,if_pos (by simpa using Ne.symm hc.2)]
    exact ih hc.1

lemma parent_separator (t : List UInt8) : parent (t ++ [47]) = t.rdropWhile (· ≠ 47) := by simp [parent]

lemma parent_name {l c : List UInt8} (hc : IsName c) : parent (l ++ 47::c) = l ++ [47] := by
  cases c using List.reverseRecOn with
  | nil => exact absurd rfl hc.1
  | append_singleton c b =>
    have hb : b ≠ 47 := fun e => hc.2 (by simp [e])
    have hlast : (l ++ 47::(c ++ [b])).getLast? = some b := by
      rw [← List.cons_append,← List.append_assoc,List.getLast?_concat]
    rw [parent,hlast,if_neg (by simpa using hb)]
    exact rdropWhile_component hc.2

lemma parent_keptText (hn : ∀ c ∈ kept, IsName c) (trailing : Bool) :
    parent (keptText kept trailing) = keptText kept.dropLast (kept.length ≠ 0) := by
  cases kept using List.reverseRecOn with
  | nil => cases trailing <;> rfl
  | append_singleton kept c =>
    have hc : IsName c := hn c (by simp)
    have hgoal : keptText (kept ++ [c]).dropLast ((kept ++ [c]).length ≠ 0) = slashed kept ++ [47] := by
      simp [keptText]
    rw [hgoal]
    cases trailing with
    | true => simp only [keptText,if_true,slashed_concat,parent_separator,rdropWhile_component hc.2]
    | false => simp [keptText,slashed_concat,parent_name hc]

/-- A component that is taken leads text and components to the next state together. -/
lemma walk_advance {st st' : ScanState} {c : List UInt8} (hc : 47 ∉ c) (hn : ∀ c ∈ kept, IsName c)
    (hd : kept.length = st.depth) (h : advance st c = some st') :
    ∃ kept', (∀ c ∈ kept', IsName c) ∧ kept'.length = st'.depth ∧
      ∀ cs, walk st.bare (keptText kept st.trailing) (c::cs) = walk st'.bare (keptText kept' st'.trailing) cs ∧
        resolve kept (c::cs) = resolve kept' cs := by
  obtain ⟨depth,trailing,bare⟩ := st
  simp only at hd
  have hname : c ≠ [] → ∀ x ∈ kept ++ [c], IsName x := by
    intro hne x hx
    cases List.mem_append.mp hx with
    | inl hk => exact hn x hk
    | inr hs => exact List.mem_singleton.mp hs ▸ ⟨hne,hc⟩
  unfold advance at h
  simp only at h
  split_ifs at h with hb hnil hok hdot hdd ht hnil <;> cases h
  · subst hnil
    exact ⟨kept,hn,hd,fun cs => by simp [walk,resolve,hb]⟩
  · exact ⟨kept ++ [c],hname hnil,by simp [hd],fun cs => by
      simp [walk,resolve,hb,hok,hnil,keptText,slashed_concat]⟩
  · exact ⟨kept,hn,hd,fun cs => by simp [walk,resolve,hb,hdot]⟩
  · refine ⟨kept.dropLast,fun x hx => hn x ((List.dropLast_prefix kept).subset hx),by simp [hd],fun cs => ?_⟩
    subst hdd hd
    simp [walk,resolve,hb,parent_keptText hn]
  · exact ⟨kept,hn,hd,fun cs => by simp [walk,resolve,hb,ht,hnil,keptText]⟩
  · exact ⟨kept ++ [c],hname hnil,by simp [hd],fun cs => by
      simp [walk,resolve,hb,ht,hnil,hdot,hdd,keptText,slashed_concat]⟩

lemma orRoot_of_ne_nil {t : List UInt8} (h : t ≠ []) : orRoot t = t := if_neg h

/-- A text with a component copied behind it is neither the root nor a shorter text. -/
lemma append_ne_orRoot {l c t : List UInt8} (hc : IsName c) (hlen : t.length ≤ l.length) : l ++ c ≠ orRoot t := by
  intro h
  unfold orRoot at h
  obtain ⟨b,hb⟩ := List.exists_mem_of_ne_nil c hc.1
  split at h
  · have hmem : b ∈ ([47] : List UInt8) := h ▸ List.mem_append_right l hb
    exact hc.2 (List.mem_singleton.mp hmem ▸ hb)
  · have hl := congrArg List.length h
    have hpos := List.length_pos_of_mem hb
    simp only [List.length_append] at hl
    omega

lemma length_slashed_dropLast_le (kept : List (List UInt8)) : (slashed kept.dropLast).length ≤ (slashed kept).length := by
  cases kept using List.reverseRecOn with
  | nil => simp
  | append_singleton kept c => simp [slashed_concat]

/-- A component that is not taken leaves a wrong path. -/
lemma walk_not_advance {st : ScanState} {c : List UInt8} (hc : 47 ∉ c) (h : advance st c = none) :
    orRoot (walk st.bare (keptText kept st.trailing) [c]) ≠ orRoot (slashed (resolve kept [c])) := by
  obtain ⟨depth,trailing,bare⟩ := st
  unfold advance at h
  simp only at h
  split_ifs at h with hb hnil hok hdot hdd ht hnil
  · have hlen : (slashed kept).length ≤ (keptText kept trailing).length := by simp [keptText]
    have hname : IsName c := ⟨hnil,hc⟩
    simp only [hb,walk]
    rw [orRoot_of_ne_nil (by simp [hnil])]
    by_cases hdot : c = [46]
    · simpa [resolve,hdot] using append_ne_orRoot (hdot ▸ hname) hlen
    by_cases hdd : c = [46,46]
    · have hlen' := (length_slashed_dropLast_le kept).trans hlen
      simpa [resolve,hdd] using append_ne_orRoot (hdd ▸ hname) hlen'
    · have ht : trailing = false := by simpa [hdot,hdd] using hok
      simp [resolve,hnil,hdot,hdd,ht,keptText,slashed_concat,orRoot]
  · have hw : walk bare (keptText kept trailing) [c] = slashed kept ++ 47::47::c := by
      simp [walk,hb,hdot,hdd,keptText,ht]
    have hr : (orRoot (slashed (resolve kept [c]))).length ≤ (slashed kept).length+c.length+1 := by
      by_cases hnil : c = []
      · simp only [resolve,hnil,true_or,if_true,orRoot]
        split <;> simp
      · simp [resolve,hnil,hdot,hdd,slashed_concat,orRoot]
        omega
    intro heq
    have hl := congrArg List.length heq
    simp only at hl
    rw [hw,orRoot_of_ne_nil (by simp)] at hl
    simp only [List.length_append,List.length_cons] at hl
    omega

/-- On a clean path the walk keeps the text of the components that the resolution keeps. -/
lemma walk_of_clean {cs : List (List UInt8)} (hcs : ∀ c ∈ cs, IsComponent c) (hn : ∀ c ∈ kept, IsName c)
    {st : ScanState} (hd : kept.length = st.depth) (hclean : clean st cs = true) :
    orRoot (walk st.bare (keptText kept st.trailing) cs) = orRoot (slashed (resolve kept cs)) := by
  induction cs generalizing kept st with
  | nil =>
    obtain ⟨depth,trailing,bare⟩ := st
    cases trailing with
    | false => simp [walk,resolve,keptText]
    | true =>
      have h0 : kept.length = 0 := hd.trans (by simpa [clean] using hclean)
      obtain rfl := List.length_eq_zero_iff.mp h0
      simp [walk,resolve,keptText,slashed,orRoot]
  | cons c cs ih =>
    cases hadv : advance st c with
    | none => simp [clean,hadv] at hclean
    | some st' =>
      obtain ⟨kept',hn',hd',hwalk⟩ := walk_advance (hcs c (by simp)).1 hn hd hadv
      rw [(hwalk cs).1,(hwalk cs).2]
      exact ih (fun x hx => hcs x (by simp [hx])) hn' hd' (by simpa [clean,hadv] using hclean)

/-- On any other path some of the first components are already resolved wrongly. -/
lemma walk_of_not_clean {cs : List (List UInt8)} (hcs : ∀ c ∈ cs, IsComponent c) (hn : ∀ c ∈ kept, IsName c)
    {st : ScanState} (hd : kept.length = st.depth) (hclean : clean st cs = false) :
    ∃ k, orRoot (walk st.bare (keptText kept st.trailing) (cs.take k)) ≠
      orRoot (slashed (resolve kept (cs.take k))) := by
  induction cs generalizing kept st with
  | nil =>
    refine ⟨0,?_⟩
    obtain ⟨depth,trailing,bare⟩ := st
    obtain ⟨rfl,hne⟩ : trailing = true ∧ depth ≠ 0 := by simpa [clean] using hclean
    have hkept : slashed kept ≠ [] := by
      cases kept with
      | nil => exact absurd hd.symm hne
      | cons c kept => simp [slashed]
    simp [walk,resolve,keptText,orRoot,hkept]
  | cons c cs ih =>
    have hc : 47 ∉ c := (hcs c (by simp)).1
    cases hadv : advance st c with
    | none => exact ⟨1,walk_not_advance hc hadv⟩
    | some st' =>
      obtain ⟨kept',hn',hd',hwalk⟩ := walk_advance hc hn hd hadv
      obtain ⟨k,hk⟩ := ih (fun x hx => hcs x (by simp [hx])) hn' hd' (by simpa [clean,hadv] using hclean)
      refine ⟨k+1,?_⟩
      rwa [List.take_succ_cons,(hwalk _).1,(hwalk _).2]

end Clean

section NoNul
variable {cs : List (List UInt8)}

lemma walk_noNul (hcs : ∀ c ∈ cs, IsComponent c) {acc : List UInt8} (h : 0 ∉ acc) (bare : Bool) :
    0 ∉ walk bare acc cs := by
  induction cs generalizing acc bare with
  | nil => simpa [walk] using h
  | cons c cs ih =>
    have hc : 0 ∉ c := (hcs c (by simp)).2
    replace hcs : ∀ c ∈ cs, IsComponent c := fun x hx => hcs x (by simp [hx])
    cases bare with
    | true => exact ih hcs (by simp [h,hc]) false
    | false =>
      unfold walk
      split
      · exact ih hcs h true
      split
      · exact ih hcs (fun hp => h ((parent_isPrefix acc).subset hp)) true
      · exact ih hcs (by simp [h,hc]) false

lemma mem_resolve {kept : List (List UInt8)} {c : List UInt8} (h : c ∈ resolve kept cs) : c ∈ kept ∨ c ∈ cs := by
  induction cs generalizing kept with
  | nil => exact Or.inl h
  | cons d cs ih =>
    unfold resolve at h
    split at h
    · exact (ih h).imp_right (List.mem_cons_of_mem d)
    split at h
    · exact (ih h).imp ((List.dropLast_prefix kept).subset ·) (List.mem_cons_of_mem d)
    · cases ih h with
      | inl hk => simpa [or_assoc] using Or.inl (b := c ∈ cs) hk
      | inr hc => exact Or.inr (List.mem_cons_of_mem d hc)

lemma orRoot_noNul {t : List UInt8} (h : 0 ∉ t) : 0 ∉ orRoot t := by unfold orRoot; split <;> simp [h]

lemma slashed_noNul (hcs : ∀ c ∈ cs, IsComponent c) : 0 ∉ slashed cs := by
  simp only [slashed,List.mem_flatMap,List.mem_cons,not_exists,not_and,not_or]
  exact fun c hc => ⟨by decide,(hcs c hc).2⟩

end NoNul

/-- The scan of an absolute text starts with nothing kept. -/
def scanStart : ScanState := ⟨0,false,false⟩

/-- The array that comes back holds the resolved path. -/
def Resolves (cwd input : List UInt8) : Prop :=
  (pathNormalize cwd input).map (·.toList) = some (padded (reference cwd input))

lemma resolves_iff {cwd input : List UInt8} (hcwd : cwd.head? = some 47) (hc : 0 ∉ cwd) (hi : 0 ∉ input)
    (hfit : (joined cwd input).length ≤ 127) :
    Resolves cwd input ↔ orRoot (walk false [] (components (joined cwd input))) =
      orRoot (slashed (resolve [] (components (joined cwd input)))) := by
  rw [Resolves,pathNormalize_eq hcwd hc hi hfit,reference_eq hcwd,Option.some_inj]
  constructor
  · intro h
    have hcs : ∀ c ∈ components (joined cwd input), IsComponent c :=
      fun c => isComponent_of_mem (joined_noNul hc hi)
    have hres : ∀ c ∈ resolve [] (components (joined cwd input)), IsComponent c :=
      fun c hm => (mem_resolve hm).elim (fun hnil => nomatch hnil) (hcs c)
    have ht := congrArg text h
    rwa [text_padded (orRoot_noNul (walk_noNul hcs (by simp) false)),
      text_padded (orRoot_noNul (slashed_noNul hres))] at ht
  · intro h
    rw [h]

lemma components_slashed {cs : List (List UInt8)} (hcs : ∀ c ∈ cs, IsComponent c) (hne : cs ≠ []) :
    components (slashed cs) = cs := by
  rw [slashed_eq_intercalate hne,components,splitOn_separator,List.tail_cons,
    List.splitOn_intercalate 47 (fun c hc => (hcs c hc).1) hne]

lemma length_slashed_take_le (cs : List (List UInt8)) (k : ℕ) :
    (slashed (cs.take k)).length ≤ (slashed cs).length := by
  conv_rhs => rw [← List.take_append_drop k cs,slashed,List.flatMap_append,List.length_append]
  exact Nat.le_add_right _ _

/-- A clean path is resolved as it should be. Any other one reaches a component that is not: the path
of its first components is resolved wrongly. -/
theorem clean_resolves {cwd input : List UInt8} (hcwd : cwd.head? = some 47) (hc : 0 ∉ cwd) (hi : 0 ∉ input)
    (hfit : (joined cwd input).length ≤ 127) :
    (clean scanStart (components (joined cwd input)) = true → Resolves cwd input) ∧
      (clean scanStart (components (joined cwd input)) = false →
        ∃ k > 0, ¬Resolves cwd (slashed ((components (joined cwd input)).take k))) := by
  have hcs : ∀ c ∈ components (joined cwd input), IsComponent c :=
    fun c => isComponent_of_mem (joined_noNul hc hi)
  constructor
  · intro hclean
    rw [resolves_iff hcwd hc hi hfit]
    exact walk_of_clean hcs (show ∀ c ∈ ([] : List (List UInt8)), IsName c by simp) (by rfl) hclean
  · intro hclean
    obtain ⟨k,hk⟩ := walk_of_not_clean hcs (show ∀ c ∈ ([] : List (List UInt8)), IsName c by simp)
      (by rfl) hclean
    have htake : ∀ c ∈ (components (joined cwd input)).take k, IsComponent c :=
      fun c hm => hcs c (List.mem_of_mem_take hm)
    have hlen := length_slashed_take_le (components (joined cwd input)) k
    rw [slashed_components (joined_head hcwd input)] at hlen
    generalize hp : (components (joined cwd input)).take k = p at *
    -- nothing is wrong before the first component
    have hne : p ≠ [] := fun h => hk (by rw [h]; rfl)
    have hhead : (slashed p).head? = some 47 := by rw [slashed_eq_intercalate hne]; rfl
    have habs : joined cwd (slashed p) = slashed p := if_pos hhead
    refine ⟨k,Nat.pos_of_ne_zero fun h => hne (by rw [← hp,h,List.take_zero]),?_⟩
    rw [hp,resolves_iff hcwd hc (slashed_noNul htake) (habs.symm ▸ hlen.trans hfit),habs,components_slashed htake hne]
    exact hk

/-- In `/usr` the input `../lib` is clean. -/
theorem clean_resolves_parent : Resolves [47,117,115,114] [46,46,47,108,105,98] :=
  (clean_resolves (by decide) (by decide) (by decide) (by decide)).1 (by decide)

/-- The input `./a` in the root directory comes back as `a`, which is not even an absolute path. -/
theorem not_resolves_dot : (pathNormalize [47] [46,47,97]).map (·.toList) = some (padded [97]) ∧
    reference [47] [46,47,97] = [47,97] ∧ ¬Resolves [47] [46,47,97] := by
  refine ⟨?_,by decide,?_⟩
  · rw [pathNormalize_eq (by decide) (by decide) (by decide) (by decide)]
    decide
  · rw [resolves_iff (by decide) (by decide) (by decide) (by decide)]
    decide

end Linuxab.Shell
