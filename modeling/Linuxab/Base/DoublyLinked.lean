import Linuxab.Base.Chain
import Linuxab.Base.Simulation
import Mathlib.Data.Fintype.Card

/-! Doubly linked lists inside a table, over an arbitrary type of nodes: the list ends with the null
pointer, and the back link of its first node is a given pointer, null or that of the list itself. Loops over
such a list equal folds over its nodes as long as they leave the links ahead of them alone. -/
namespace Linuxab.Base
variable {α : Type*}

/-- Following `next` from `p` gives the nodes `xs` and then the null pointer; `prev` leads back, and from
the first node to `q`. -/
def DChain (next prev : α → Option α) : Option α → Option α → List α → Prop
  | _,p,[] => p = none
  | q,p,x::xs => p = some x ∧ prev x = q ∧ DChain next prev (some x) (next x) xs

/-- A store through a pointer that may be null. -/
def patch [DecidableEq α] {β : Type*} (f : α → β) : Option α → β → α → β
  | none,_ => f
  | some x,b => Function.update f x b

section Patch
variable [DecidableEq α] {β : Type*} {f : α → β} {p : Option α} {b : β} {y : α}

@[simp] theorem patch_none : patch f none b = f := rfl

@[simp] theorem patch_some {x : α} : patch f (some x) b = Function.update f x b := rfl

theorem patch_of_ne (h : p ≠ some y) : patch f p b y = f y := by
  cases p with
  | none => rfl
  | some x => exact Function.update_of_ne (fun he => h (by rw [he])) _ _

theorem patch_update_of_ne {x : α} {a : β} (h : y ≠ x) : patch (Function.update f x a) p b y = patch f p b y := by
  cases p with
  | none => exact Function.update_of_ne h _ _
  | some z =>
    by_cases hy : y = z
    · subst hy
      simp
    · simp [hy,h]

end Patch

section DChain
variable {next prev : α → Option α} {p q : Option α} {x : α} {xs ys : List α}

theorem DChain.chain (h : DChain next prev q p xs) : Chain next p xs := by
  induction xs generalizing p q with
  | nil => exact h
  | cons x xs ih => exact ⟨h.1,ih h.2.2⟩

theorem DChain.nodup (h : DChain next prev q p xs) : xs.Nodup := h.chain.nodup

theorem DChain.head? (h : DChain next prev q p xs) : p = xs.head? := by
  cases xs with
  | nil => exact h
  | cons x xs => exact h.1

theorem DChain.congr {next' prev' : α → Option α} (h : DChain next prev q p xs)
    (hn : ∀ y ∈ xs, next' y = next y) (hp : ∀ y ∈ xs, prev' y = prev y) : DChain next' prev' q p xs := by
  induction xs generalizing p q with
  | nil => exact h
  | cons x xs ih =>
    obtain ⟨rfl,hq,h⟩ := h
    refine ⟨rfl,(hp x List.mem_cons_self).trans hq,?_⟩
    rw [hn x List.mem_cons_self]
    exact ih h (fun y hy => hn y (List.mem_cons_of_mem x hy)) fun y hy => hp y (List.mem_cons_of_mem x hy)

/-- The links of the node between `xs` and `ys`. -/
theorem DChain.links (h : DChain next prev q p (xs ++ x::ys)) :
    prev x = xs.getLast?.or q ∧ next x = ys.head? ∧ DChain next prev (some x) (next x) ys := by
  induction xs generalizing p q with
  | nil => exact ⟨h.2.1,h.2.2.head?,h.2.2⟩
  | cons y xs ih =>
    obtain ⟨hprev,hrest⟩ := ih h.2.2
    refine ⟨?_,hrest⟩
    rw [hprev,List.getLast?_cons]
    cases xs.getLast? <;> rfl

theorem DChain.not_mem (h : DChain next prev q p (xs ++ x::ys)) : x ∉ xs ∧ x ∉ ys := by
  obtain ⟨-,hys,hdisj⟩ := List.nodup_append.mp h.nodup
  exact ⟨fun hx => hdisj x hx x List.mem_cons_self rfl,(List.nodup_cons.mp hys).1⟩

variable [DecidableEq α]

/-- Another list to lead back to from the first node. -/
theorem DChain.patch_prev (h : DChain next prev q p xs) (q' : Option α) :
    DChain next (patch prev p q') q' p xs := by
  cases xs with
  | nil =>
    obtain rfl : p = none := h
    exact rfl
  | cons x xs =>
    have hx := (List.nodup_cons.mp h.nodup).1
    obtain ⟨rfl,-,h⟩ := h
    refine ⟨rfl,Function.update_self ..,h.congr (fun _ _ => rfl) fun y hy => ?_⟩
    exact Function.update_of_ne (ne_of_mem_of_not_mem hy hx) _ _

/-- A new first node. -/
theorem DChain.push (h : DChain next prev q p xs) (hx : x ∉ xs) (hq : prev x = q) :
    DChain (Function.update next x p) (patch prev p (some x)) q (some x) (x::xs) := by
  have hp : p ≠ some x := by
    rintro rfl
    exact hx (List.mem_of_mem_head? h.head?.symm)
  refine ⟨rfl,(patch_of_ne hp).trans hq,?_⟩
  rw [Function.update_self]
  refine (h.patch_prev (some x)).congr (fun y hy => ?_) fun _ _ => rfl
  exact Function.update_of_ne (ne_of_mem_of_not_mem hy hx) _ _

/-- Taking a node out: the link to it, which is the variable for the first node or the link of the node
before, goes to the node behind it, and that one leads back to the node before. -/
theorem DChain.unlink (h : DChain next prev q p (xs ++ x::ys)) :
    DChain (patch next xs.getLast? (next x)) (patch prev (next x) (prev x)) q
      (if xs = [] then next x else p) (xs ++ ys) := by
  have hnodup := h.nodup
  induction xs generalizing p q with
  | nil =>
    obtain ⟨hprev,-,h⟩ := h.links
    rw [if_pos rfl,hprev]
    exact h.patch_prev q
  | cons z xs ih =>
    obtain ⟨rfl,hz,hrest⟩ := h
    obtain ⟨hzrest,hnodup⟩ := List.nodup_cons.mp hnodup
    obtain ⟨hprev,hnext,-⟩ := hrest.links
    have hback : next x ≠ some z := by
      rw [hnext]
      intro hy
      exact hzrest (by simp [List.mem_of_mem_head? hy])
    refine ⟨if_neg (by simp),(patch_of_ne hback).trans hz,?_⟩
    have hih := ih hrest hnodup
    cases xs with
    | nil =>
      rw [List.getLast?_singleton,patch_some,Function.update_self]
      rw [if_pos rfl,List.getLast?_nil,patch_none] at hih
      refine hih.congr (fun y hy => ?_) fun _ _ => rfl
      exact Function.update_of_ne (fun he => hzrest (by simp_all)) _ _
    | cons w xs =>
      have hlast : (z::w::xs).getLast? = (w::xs).getLast? := by simp [List.getLast?_cons]
      have hzlast : (w::xs).getLast? ≠ some z := fun he =>
        hzrest (List.mem_append.mpr (.inl (List.mem_of_getLast? he)))
      rw [hlast,patch_of_ne hzlast]
      rw [if_neg (by simp)] at hih
      exact hih

end DChain

/-- One list, with the variable for its first node. -/
structure DList (α : Type*) where
  head : Option α
  next : α → Option α
  prev : α → Option α

namespace DList

/-- The list has the nodes `xs`, and the links of all other nodes are null. -/
structure Is (l : DList α) (xs : List α) : Prop where
  chain : DChain l.next l.prev none l.head xs
  idle : ∀ x, x ∉ xs → l.next x = none ∧ l.prev x = none

variable [DecidableEq α] {l : DList α} {x : α} {xs : List α}

def push (l : DList α) (x : α) : DList α :=
  ⟨some x,Function.update l.next x l.head,patch l.prev l.head (some x)⟩

/-- Take a node out and set its own links to null. -/
def delete (l : DList α) (x : α) : DList α :=
  ⟨if l.head = some x then l.next x else l.head,Function.update (patch l.next (l.prev x) (l.next x)) x none,
    Function.update (patch l.prev (l.next x) (l.prev x)) x none⟩

theorem Is.push (h : l.Is xs) (hx : x ∉ xs) : (l.push x).Is (x::xs) where
  chain := h.chain.push hx (h.idle x hx).2
  idle y hy := by
    obtain ⟨hyx,hy⟩ := List.ne_and_not_mem_of_not_mem_cons hy
    have hhead : l.head ≠ some y := by
      rw [h.chain.head?]
      exact fun he => hy (List.mem_of_mem_head? he)
    exact ⟨(Function.update_of_ne hyx _ _).trans (h.idle y hy).1,(patch_of_ne hhead).trans (h.idle y hy).2⟩

theorem Is.delete (h : l.Is xs) (hx : x ∈ xs) : (l.delete x).Is (xs.erase x) := by
  obtain ⟨pre,post,rfl⟩ := List.append_of_mem hx
  obtain ⟨hpre,hpost⟩ := h.chain.not_mem
  obtain ⟨hprev,hnext,-⟩ := h.chain.links
  rw [Option.or_none] at hprev
  have herase : (pre ++ x::post).erase x = pre ++ post := by
    rw [List.erase_append_right _ hpre,List.erase_cons_head]
  have hhead : (if l.head = some x then l.next x else l.head) = if pre = [] then l.next x else l.head := by
    refine if_congr ?_ rfl rfl
    rw [h.chain.head?]
    cases pre with
    | nil => simp
    | cons y pre => simpa using ne_of_mem_of_not_mem List.mem_cons_self hpre
  have hout : x ∉ pre ++ post := by simp [hpre,hpost]
  rw [herase]
  constructor
  · have hunlink := h.chain.unlink
    rw [← hprev,← hhead] at hunlink
    refine hunlink.congr (fun y hy => ?_) fun y hy => ?_
    · exact Function.update_of_ne (ne_of_mem_of_not_mem hy hout) _ _
    · exact Function.update_of_ne (ne_of_mem_of_not_mem hy hout) _ _
  · intro y hy
    by_cases hyx : y = x
    · subst hyx
      exact ⟨Function.update_self ..,Function.update_self ..⟩
    · have hidle := h.idle y (by simp_all)
      have hyprev : l.prev x ≠ some y := by
        rw [hprev]
        exact fun he => hy (List.mem_append.mpr (.inl (List.mem_of_getLast? he)))
      have hynext : l.next x ≠ some y := by
        rw [hnext]
        exact fun he => hy (List.mem_append.mpr (.inr (List.mem_of_mem_head? he)))
      constructor
      · exact (Function.update_of_ne hyx _ _).trans ((patch_of_ne hyprev).trans hidle.1)
      · exact (Function.update_of_ne hyx _ _).trans ((patch_of_ne hynext).trans hidle.2)

end DList

/-- A list for every node of the table, its variable for the first node in that node; the first node of the
list of `h` leads back to `h`. -/
structure Buckets (α : Type*) where
  first : α → Option α
  next : α → Option α
  prev : α → Option α

namespace Buckets

/-- The list of `h` has the nodes `L h`; no node is on two lists, and one on no list has no links. -/
structure Is (b : Buckets α) (L : α → List α) : Prop where
  chain : ∀ h, DChain b.next b.prev (some h) (b.first h) (L h)
  disjoint : ∀ {x g h}, x ∈ L g → x ∈ L h → g = h
  idle : ∀ x, (∀ h, x ∉ L h) → b.next x = none ∧ b.prev x = none

variable [DecidableEq α] {b : Buckets α} {L : α → List α} {g h x : α}

/-- Put a node in front of the list of `h`. -/
def link (b : Buckets α) (h x : α) : Buckets α :=
  ⟨Function.update b.first h (some x),Function.update b.next x (b.first h),
    patch (Function.update b.prev x (some h)) (b.first h) (some x)⟩

/-- Take a node out. Whether the node before it is the list itself shows in that list's first node. -/
def unlink (b : Buckets α) (x : α) : Buckets α :=
  let next := Function.update b.next x none
  let prev := patch (Function.update b.prev x none) (b.next x) (b.prev x)
  match b.prev x with
  | none => ⟨b.first,next,prev⟩
  | some p =>
    if b.first p = some x then ⟨Function.update b.first p (b.next x),next,prev⟩
    else ⟨b.first,Function.update next p (b.next x),prev⟩

omit [DecidableEq α] in
theorem Is.of_first (hb : b.Is L) (h : b.first g = some x) : x ∈ L g :=
  List.mem_of_mem_head? ((hb.chain g).head?.symm.trans h)

theorem mem_update_cons {y : α} : y ∈ Function.update L h (x::L h) g ↔ y ∈ L g ∨ g = h ∧ y = x := by
  by_cases hg : g = h
  · subst hg
    simp [or_comm]
  · simp [hg]

theorem Is.link (hb : b.Is L) (hx : ∀ g, x ∉ L g) (h : α) : (b.link h x).Is (Function.update L h (x::L h)) where
  chain g := by
    have hne : ∀ y ∈ L g, y ≠ x := fun y hy => ne_of_mem_of_not_mem hy (hx g)
    by_cases hg : g = h
    · subst hg
      have hq : DChain b.next (Function.update b.prev x (some g)) (some g) (b.first g) (L g) :=
        (hb.chain g).congr (fun _ _ => rfl) fun y hy => Function.update_of_ne (hne y hy) _ _
      simpa [Buckets.link] using hq.push (hx g) (Function.update_self ..)
    · have hfirst : (b.link h x).first g = b.first g := Function.update_of_ne hg _ _
      rw [hfirst,Function.update_of_ne hg]
      refine (hb.chain g).congr (fun y hy => Function.update_of_ne (hne y hy) _ _) fun y hy => ?_
      have hhead : b.first h ≠ some y := fun he => hg (hb.disjoint hy (hb.of_first he))
      exact (patch_of_ne hhead).trans (Function.update_of_ne (hne y hy) _ _)
  disjoint {y g g'} hg hg' := by
    rw [mem_update_cons] at hg hg'
    obtain hg | ⟨hg,hy⟩ := hg
    · obtain hg' | ⟨-,rfl⟩ := hg'
      · exact hb.disjoint hg hg'
      · exact absurd hg (hx g)
    · obtain hg' | ⟨hg',-⟩ := hg'
      · rw [hy] at hg'
        exact absurd hg' (hx g')
      · rw [hg,hg']
  idle y hy := by
    have hyL : ∀ g, y ∉ L g := fun g hg => hy g (mem_update_cons.mpr (.inl hg))
    have hyx : y ≠ x := fun he => hy h (mem_update_cons.mpr (.inr ⟨rfl,he⟩))
    have hhead : b.first h ≠ some y := fun he => hyL h (hb.of_first he)
    exact ⟨(Function.update_of_ne hyx _ _).trans (hb.idle y hyL).1,
      (patch_of_ne hhead).trans ((Function.update_of_ne hyx _ _).trans (hb.idle y hyL).2)⟩

/-- A node on no list has nothing to be taken out of. -/
theorem Is.unlink_eq_self (hb : b.Is L) (hx : ∀ g, x ∉ L g) : b.unlink x = b := by
  obtain ⟨hn,hp⟩ := hb.idle x hx
  have hnext : Function.update b.next x none = b.next := by rw [← hn,Function.update_eq_self]
  have hprev : Function.update b.prev x none = b.prev := by rw [← hp,Function.update_eq_self]
  rw [unlink,hp,hn,patch_none,hnext,hprev]

section OnList
variable {pre post : List α}

/-- What `unlink` writes if the node is on the list of `h`. -/
theorem Is.unlink_eq (hb : b.Is L) (hL : L h = pre ++ x::post) :
    b.unlink x = ⟨if pre = [] then Function.update b.first h (b.next x) else b.first,
      patch (Function.update b.next x none) pre.getLast? (b.next x),
      patch (Function.update b.prev x none) (b.next x) (b.prev x)⟩ := by
  have hc := hb.chain h
  rw [hL] at hc
  have hprev := hc.links.1
  cases pre using List.reverseRecOn with
  | nil =>
    have hp : b.prev x = some h := hprev
    have hfirst : b.first h = some x := hc.head?
    rw [unlink,hp]
    simp [hfirst]
  | append_singleton pre z =>
    rw [List.getLast?_concat] at hprev ⊢
    have hp : b.prev x = some z := hprev
    have hfirst : b.first z ≠ some x := fun he => by
      -- then `z` would be the list and `x` its first node, but `z` stands before it
      obtain rfl : h = z := hb.disjoint (x := x) (by simp [hL]) (hb.of_first he)
      have hhead := hc.head?.symm.trans he
      have hout := hc.not_mem.1
      cases pre <;> simp_all
    rw [unlink,hp]
    simp [hfirst]

/-- It writes no link of a node on another list or on none. -/
theorem Is.unlink_frame (hb : b.Is L) (hL : L h = pre ++ x::post) {y : α} (hy : y ∉ L h) :
    (b.unlink x).next y = b.next y ∧ (b.unlink x).prev y = b.prev y := by
  have hnext : b.next x = post.head? := by
    have hc := hb.chain h
    rw [hL] at hc
    exact hc.links.2.1
  rw [hL] at hy
  have hyx : y ≠ x := fun he => hy (by simp [he])
  rw [hb.unlink_eq hL]
  constructor
  · exact (patch_of_ne fun he => hy (by simp [List.mem_of_getLast? he])).trans (Function.update_of_ne hyx _ _)
  · refine (patch_of_ne fun he => hy ?_).trans (Function.update_of_ne hyx _ _)
    rw [hnext] at he
    simp [List.mem_of_mem_head? he]

theorem Is.unlink_chain (hb : b.Is L) (hL : L h = pre ++ x::post) :
    DChain (b.unlink x).next (b.unlink x).prev (some h) ((b.unlink x).first h) (pre ++ post) := by
  have hc := hb.chain h
  rw [hL] at hc
  obtain ⟨hpre,hpost⟩ := hc.not_mem
  have hout : ∀ y ∈ pre ++ post, y ≠ x := fun y hy => ne_of_mem_of_not_mem hy (by simp [hpre,hpost])
  have hfirst : (b.unlink x).first h = if pre = [] then b.next x else b.first h := by
    rw [hb.unlink_eq hL]
    by_cases hnil : pre = [] <;> simp [hnil]
  rw [hfirst,hb.unlink_eq hL]
  exact hc.unlink.congr (fun y hy => patch_update_of_ne (hout y hy)) fun y hy => patch_update_of_ne (hout y hy)

theorem Is.unlink_self (hb : b.Is L) (hL : L h = pre ++ x::post) :
    (b.unlink x).next x = none ∧ (b.unlink x).prev x = none := by
  have hc := hb.chain h
  rw [hL] at hc
  obtain ⟨hpre,hpost⟩ := hc.not_mem
  rw [hb.unlink_eq hL]
  constructor
  · exact (patch_of_ne fun he => hpre (List.mem_of_getLast? he)).trans (Function.update_self ..)
  · refine (patch_of_ne fun he => hpost ?_).trans (Function.update_self ..)
    rw [hc.links.2.1] at he
    exact List.mem_of_mem_head? he

end OnList

theorem Is.unlink (hb : b.Is L) (x : α) : (b.unlink x).Is fun g => (L g).erase x := by
  have hmem : ∀ {y g}, y ∈ (L g).erase x ↔ y ≠ x ∧ y ∈ L g := (hb.chain _).nodup.mem_erase_iff
  by_cases hx : ∃ h, x ∈ L h
  · obtain ⟨h,hx⟩ := hx
    obtain ⟨pre,post,hL⟩ := List.append_of_mem hx
    have hother : ∀ {y g}, g ≠ h → y ∈ L g → y ∉ L h := fun hg hy hyh => hg (hb.disjoint hy hyh)
    constructor
    · intro g
      by_cases hg : g = h
      · subst hg
        have hpre : x ∉ pre := by
          have hc := hb.chain g
          rw [hL] at hc
          exact hc.not_mem.1
        have herase : (L g).erase x = pre ++ post := by rw [hL,List.erase_append_right _ hpre,List.erase_cons_head]
        rw [herase]
        exact hb.unlink_chain hL
      · have hfirst : (b.unlink x).first g = b.first g := by
          rw [hb.unlink_eq hL]
          by_cases hnil : pre = [] <;> simp [hnil,hg]
        rw [List.erase_of_not_mem fun hxg => hother hg hxg hx,hfirst]
        exact (hb.chain g).congr (fun y hy => (hb.unlink_frame hL (hother hg hy)).1)
          fun y hy => (hb.unlink_frame hL (hother hg hy)).2
    · exact fun hy hy' => hb.disjoint (hmem.mp hy).2 (hmem.mp hy').2
    · intro y hy
      by_cases hyx : y = x
      · subst hyx
        exact hb.unlink_self hL
      · have hyL : ∀ g, y ∉ L g := fun g hg => hy g (hmem.mpr ⟨hyx,hg⟩)
        obtain ⟨hn,hp⟩ := hb.unlink_frame hL (hyL h)
        exact ⟨hn.trans (hb.idle y hyL).1,hp.trans (hb.idle y hyL).2⟩
  · have hx : ∀ g, x ∉ L g := fun g hg => hx ⟨g,hg⟩
    have hL : (fun g => (L g).erase x) = L := funext fun g => List.erase_of_not_mem (hx g)
    rw [hb.unlink_eq_self hx,hL]
    exact hb

end Buckets

section Loop
variable {σ : Type*}

/-- `for (x = p; x != NULL; x = next)` with the link read before the body. -/
def forLinks (next : σ → α → Option α) (body : σ → α → σ) : ℕ → σ → Option α → Option σ
  | 0,_,_ => none
  | _+1,s,none => some s
  | n+1,s,some x => forLinks next body n (body s x) (next s x)

/-- A loop whose body leaves the links ahead alone is the fold over the nodes ahead. -/
theorem forLinks_eq_foldl {next : σ → α → Option α} {body : σ → α → σ} (I : List α → σ → Prop)
    (hstep : ∀ s x xs, I (x::xs) s → next s x = xs.head? ∧ I xs (body s x)) {xs : List α} {s : σ} {n : ℕ}
    (hI : I xs s) (hn : xs.length < n) : forLinks next body n s xs.head? = some (xs.foldl body s) := by
  induction xs generalizing s n with
  | nil =>
    obtain ⟨n,rfl⟩ : ∃ m, n = m+1 := ⟨n-1,by omega⟩
    rfl
  | cons x xs ih =>
    obtain ⟨n,rfl⟩ : ∃ m, n = m+1 := ⟨n-1,by omega⟩
    obtain ⟨hnext,hrest⟩ := hstep s x xs hI
    rw [List.head?_cons,forLinks,hnext,ih hrest (by simpa using hn),List.foldl_cons]

/-- The body of a loop that replaces what the nodes of a table hold and carries a value along. -/
def storeEach [DecidableEq α] {ρ γ : Type*} (body : ρ → γ → ρ × γ) (s : ρ × (α → γ)) (x : α) : ρ × (α → γ) :=
  ((body s.1 (s.2 x)).1,Function.update s.2 x (body s.1 (s.2 x)).2)

theorem foldl_storeEach [DecidableEq α] {ρ γ : Type*} (body : ρ → γ → ρ × γ) {xs : List α} (hxs : xs.Nodup) (r : ρ)
    (f : α → γ) :
    ((xs.foldl (storeEach body) (r,f)).1,xs.map (xs.foldl (storeEach body) (r,f)).2) = mapAccum body r (xs.map f) ∧
      ∀ y, y ∉ xs → (xs.foldl (storeEach body) (r,f)).2 y = f y := by
  induction xs generalizing r f with
  | nil => exact ⟨rfl,fun _ _ => rfl⟩
  | cons x xs ih =>
    obtain ⟨hx,hxs⟩ := List.nodup_cons.mp hxs
    obtain ⟨hmap,hout⟩ := ih hxs (body r (f x)).1 (Function.update f x (body r (f x)).2)
    have hsame : xs.map (Function.update f x (body r (f x)).2) = xs.map f :=
      List.map_congr_left fun y hy => Function.update_of_ne (ne_of_mem_of_not_mem hy hx) _ _
    rw [hsame,Prod.ext_iff] at hmap
    constructor
    · refine Prod.ext hmap.1 ?_
      exact congrArg₂ List.cons ((hout x hx).trans (Function.update_self ..)) hmap.2
    · intro y hy
      obtain ⟨hyx,hy⟩ := List.ne_and_not_mem_of_not_mem_cons hy
      exact (hout y hy).trans (Function.update_of_ne hyx _ _)

end Loop

/-- From the pointer `p`, the links lead to the node. -/
inductive Reaches (next : α → Option α) : Option α → α → Prop
  | here (x : α) : Reaches next (some x) x
  | next {x y : α} (h : Reaches next (next x) y) : Reaches next (some x) y

section Reaches
variable {next next' : α → Option α} {p : Option α} {x y : α}

/-- A way to a node outside of a closed set of nodes avoids that set, so links in it do not matter. -/
theorem Reaches.avoids {V : α → Prop} (h : Reaches next p y) (hV : ∀ x y, V x → next x = some y → V y) (hy : ¬V y)
    (hnext : ∀ x, ¬V x → next' x = next x) : Reaches next' p y ∧ ∀ x, p = some x → ¬V x := by
  induction h with
  | here x =>
    refine ⟨.here x,fun z hz => ?_⟩
    cases hz
    exact hy
  | @next x y h ih =>
    obtain ⟨hr,hout⟩ := ih hy
    have hx : ¬V x := fun hx => by
      cases hn : next x with
      | none =>
        rw [hn] at h
        cases h
      | some z => exact hout z hn (hV x z hx hn)
    refine ⟨.next (by rwa [hnext x hx]),fun z hz => ?_⟩
    cases hz
    exact hx

variable [DecidableEq α] [Fintype α] {σ : Type*}

/-- A loop that sets the links of the nodes it comes through to null ends also if the links run in a circle:
it goes through a closed set of nodes. -/
theorem forLinks_clearing {next : σ → α → Option α} {body : σ → α → σ} (hself : ∀ s x, next (body s x) x = none)
    (hother : ∀ s x y, y ≠ x → next (body s x) y = next s y) {s : σ} {n : ℕ}
    (hn : Finset.card {x | (next s x).isSome = true} + 2 ≤ n) (p : Option α) :
    ∃ V : List α, forLinks next body n s p = some (V.foldl body s) ∧ (∀ x, p = some x → x ∈ V) ∧
      ∀ x y, x ∈ V → next s x = some y → y ∈ V := by
  induction n generalizing s p with
  | zero => omega
  | succ n ih =>
    cases p with
    | none => exact ⟨[],rfl,nofun,fun _ _ hx => absurd hx List.not_mem_nil⟩
    | some x =>
      rw [forLinks]
      cases hx : next s x with
      | none =>
        obtain ⟨n,rfl⟩ : ∃ m, n = m+1 := ⟨n-1,by omega⟩
        refine ⟨[x],rfl,by simp,fun z y hz hzy => ?_⟩
        rw [List.mem_singleton.mp hz,hx] at hzy
        cases hzy
      | some y =>
        have hlt : Finset.card {z | (next (body s x) z).isSome = true} <
            Finset.card {z | (next s z).isSome = true} := by
          refine Finset.card_lt_card ((Finset.ssubset_iff_of_subset fun z hz => ?_).mpr
            ⟨x,by simp [hx],by simp [hself]⟩)
          simp only [Finset.mem_filter,Finset.mem_univ,true_and] at hz ⊢
          by_cases hzx : z = x
          · rw [hzx,hself] at hz
            cases hz
          · rwa [hother s x z hzx] at hz
        obtain ⟨V,hV,hfirst,hclosed⟩ := ih (s := body s x) (by omega) (some y)
        refine ⟨x::V,hV,by simp,fun z w hz hzw => ?_⟩
        by_cases hzx : z = x
        · rw [hzx,hx] at hzw
          cases hzw
          exact List.mem_cons_of_mem x (hfirst y rfl)
        · refine List.mem_cons_of_mem x (hclosed z w ((List.mem_cons.mp hz).resolve_left hzx) ?_)
          rwa [hother s x z hzx]

end Reaches
end Linuxab.Base
