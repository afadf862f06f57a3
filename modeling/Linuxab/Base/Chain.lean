import Mathlib.Data.List.Induction
import Mathlib.Data.List.Nodup
import Mathlib.Data.Set.Insert
import Mathlib.Logic.Function.Basic

/-! Singly linked lists that end with the null pointer, over an arbitrary type of nodes. Loops over such
a list take a number of rounds and give nothing if these do not suffice, so a list that runs into itself
is one on which a loop gives nothing with any number of rounds. -/
namespace Linuxab.Base

/-- The variable for the first node and the link field of every node. -/
structure Slist (α : Type*) where
  head : Option α
  next : α → Option α

/-- Following `next` from `p` gives the nodes `xs` and then the null pointer. -/
def Chain {α : Type*} (next : α → Option α) : Option α → List α → Prop
  | p,[] => p = none
  | p,x::xs => p = some x ∧ Chain next (next x) xs

section Chain
variable {α : Type*} {next : α → Option α} {p : Option α} {x : α} {xs ys : List α}

theorem Chain.unique (h : Chain next p xs) (h' : Chain next p ys) : xs = ys := by
  induction xs generalizing p ys with
  | nil =>
    cases ys with
    | nil => rfl
    | cons y ys =>
      obtain rfl : p = none := h
      cases h'.1
  | cons x xs ih =>
    obtain ⟨rfl,h⟩ := h
    cases ys with
    | nil => cases h'
    | cons y ys =>
      obtain ⟨hy,h'⟩ := h'
      cases hy
      rw [ih h h']

theorem Chain.suffix (h : Chain next p (xs ++ ys)) : ∃ q, Chain next q ys := by
  induction xs generalizing p with
  | nil => exact ⟨p,h⟩
  | cons x xs ih => exact ih h.2

/-- A list with an end meets no node twice. -/
theorem Chain.nodup (h : Chain next p xs) : xs.Nodup := by
  induction xs generalizing p with
  | nil => exact List.nodup_nil
  | cons x xs ih =>
    refine List.nodup_cons.mpr ⟨fun hx => ?_,ih h.2⟩
    -- from its second occurrence on the list would be as long as from its first
    obtain ⟨pre,post,rfl⟩ := List.append_of_mem hx
    obtain ⟨q,hq,hpost⟩ := h.2.suffix
    have hlen := congrArg List.length (h.2.unique hpost)
    simp at hlen
    omega

theorem Chain.congr {next' : α → Option α} (h : Chain next p xs) (hn : ∀ y ∈ xs, next' y = next y) :
    Chain next' p xs := by
  induction xs generalizing p with
  | nil => exact h
  | cons x xs ih =>
    refine ⟨h.1,?_⟩
    rw [hn x List.mem_cons_self]
    exact ih h.2 fun y hy => hn y (List.mem_cons_of_mem x hy)

theorem Chain.update [DecidableEq α] (h : Chain next p xs) (hx : x ∉ xs) (q : Option α) :
    Chain (Function.update next x q) p xs := by
  apply h.congr
  intro y hy
  exact Function.update_of_ne (ne_of_mem_of_not_mem hy hx) _ _

/-- There is always a next node: the nodes of `S` lead on to each other. -/
def Endless (next : α → Option α) (p : Option α) : Prop :=
  ∃ S : Set α, (∃ x ∈ S, p = some x) ∧ ∀ x ∈ S, ∃ y ∈ S, next x = some y

theorem Endless.exists_next (h : Endless next p) : ∃ x, p = some x ∧ Endless next (next x) := by
  obtain ⟨S,⟨x,hx,rfl⟩,hS⟩ := h
  exact ⟨x,rfl,S,hS x hx,hS⟩

/-- A new first node in front of an endless list. -/
theorem Endless.push [DecidableEq α] (h : Endless next p) (x : α) :
    Endless (Function.update next x p) (some x) := by
  obtain ⟨S,⟨y,hy,rfl⟩,hS⟩ := h
  refine ⟨insert x S,⟨x,Set.mem_insert x S,rfl⟩,fun z hz => ?_⟩
  by_cases hzx : z = x
  · exact ⟨y,Set.mem_insert_of_mem x hy,by rw [hzx,Function.update_self]⟩
  · obtain ⟨w,hw,he⟩ := hS z (hz.resolve_left hzx)
    exact ⟨w,Set.mem_insert_of_mem x hw,by rw [Function.update_of_ne hzx,he]⟩

/-- Up to `x` every link leads to a node up to `x`. -/
theorem Chain.leads {post : List α} (h : Chain next p (xs ++ x::post)) :
    ∀ q ∈ p::xs.map next, ∃ y ∈ xs ++ [x], q = some y := by
  induction xs generalizing p with
  | nil => simpa using h.1
  | cons y xs ih =>
    intro q hq
    obtain rfl | hq := List.mem_cons.mp hq
    · exact ⟨y,by simp,h.1⟩
    · obtain ⟨z,hz,he⟩ := ih h.2 q hq
      exact ⟨z,List.mem_cons_of_mem y hz,he⟩

/-- A node that is put in front of the list it is on closes a circle. -/
theorem Chain.endless_push [DecidableEq α] (h : Chain next p xs) (hx : x ∈ xs) :
    Endless (Function.update next x p) (some x) := by
  obtain ⟨pre,post,rfl⟩ := List.append_of_mem hx
  refine ⟨{y | y ∈ pre ++ [x]},⟨x,by simp,rfl⟩,fun y hy => ?_⟩
  by_cases hyx : y = x
  · obtain ⟨z,hz,rfl⟩ := h.leads p List.mem_cons_self
    exact ⟨z,hz,by rw [hyx,Function.update_self]⟩
  · have hpre : y ∈ pre := by simpa [hyx] using hy
    obtain ⟨z,hz,he⟩ := h.leads (next y) (List.mem_cons_of_mem p (List.mem_map_of_mem hpre))
    exact ⟨z,hz,by rw [Function.update_of_ne hyx,he]⟩

/-- Redirecting the link of `y` over its successor. -/
theorem Chain.redirect [DecidableEq α] {y : α} (h : Chain next p (xs ++ y::x::ys)) :
    Chain (Function.update next y (next x)) p (xs ++ y::ys) := by
  have hnodup := h.nodup
  induction xs generalizing p with
  | nil =>
    obtain ⟨rfl,hy,h⟩ := h
    refine ⟨rfl,?_⟩
    rw [Function.update_self]
    apply h.update
    simp_all
  | cons z xs ih =>
    have hz : z ≠ y := by
      rintro rfl
      simp at hnodup
    refine ⟨h.1,?_⟩
    rw [Function.update_of_ne hz]
    exact ih h.2 h.2.nodup

end Chain

namespace Slist
variable {α : Type*}

/-- The list has the nodes `xs`, in this order. -/
def Is (l : Slist α) (xs : List α) : Prop := Chain l.next l.head xs

/-- A pointer to a pointer: to the variable for the first node, or to the link of a node. -/
def load (l : Slist α) : Option α → Option α
  | none => l.head
  | some x => l.next x

/-- The loop that looks for a node with a property. -/
def find (l : Slist α) (stop : α → Bool) : ℕ → Option α → Option (Option α)
  | 0,_ => none
  | _+1,none => some none
  | n+1,some x => if stop x then some (some x) else find l stop n (l.next x)

variable [DecidableEq α]

def store (l : Slist α) : Option α → Option α → Slist α
  | none,q => { l with head := q }
  | some x,q => { l with next := Function.update l.next x q }

/-- Put a node in front. -/
def push (l : Slist α) (x : α) : Slist α := ⟨some x,Function.update l.next x l.head⟩

/-- The loop over pointers to pointers that looks for the one to `x`. -/
def slot (l : Slist α) (x : α) : ℕ → Option α → Option (Option (Option α))
  | 0,_ => none
  | n+1,p =>
    match l.load p with
    | none => some none
    | some y => if y = x then some (some p) else slot l x n (some y)

variable {l : Slist α} {x : α} {xs : List α} {n : ℕ}

theorem Is.push (h : l.Is xs) (hx : x ∉ xs) : (l.push x).Is (x::xs) := by
  refine ⟨rfl,?_⟩
  change Chain (Function.update l.next x l.head) (Function.update l.next x l.head x) xs
  rw [Function.update_self]
  exact Chain.update h hx l.head

omit [DecidableEq α] in
theorem find_of_chain (stop : α → Bool) {p : Option α} (h : Chain l.next p xs) (hn : xs.length < n) :
    l.find stop n p = some (xs.find? stop) := by
  induction n generalizing p xs with
  | zero => omega
  | succ n ih =>
    cases xs with
    | nil =>
      obtain rfl : p = none := h
      rfl
    | cons y xs =>
      obtain ⟨rfl,h⟩ := h
      rw [find,List.find?_cons]
      cases stop y with
      | true => rfl
      | false => exact ih h (by simpa using hn)

omit [DecidableEq α] in
/-- The pointer behind the nodes `xs` points to the first node of the rest. -/
theorem Is.load_getLast? {ys : List α} (h : l.Is (xs ++ ys)) : Chain l.next (l.load xs.getLast?) ys := by
  induction xs using List.reverseRecOn generalizing ys with
  | nil => exact h
  | append_singleton xs x ih =>
    rw [List.append_assoc] at h
    rw [List.getLast?_concat]
    exact (ih h).2

/-- Redirecting that pointer over a node takes the node out. -/
theorem Is.unlink {ys : List α} (h : l.Is (xs ++ x::ys)) : (l.store xs.getLast? (l.next x)).Is (xs ++ ys) := by
  cases xs using List.reverseRecOn with
  | nil => exact h.2
  | append_singleton xs y =>
    rw [List.getLast?_concat]
    rw [List.append_assoc] at h ⊢
    exact Chain.redirect h

/-- The loop over pointers to pointers, started behind the nodes `xs`. -/
theorem Is.slot_append {ys : List α} (h : l.Is (xs ++ ys)) (hx : x ∉ xs) (hn : ys.length < n) :
    (x ∉ ys ∧ l.slot x n xs.getLast? = some none) ∨
    x ∈ ys ∧ ∃ p, l.slot x n xs.getLast? = some (some p) ∧ (l.store p (l.next x)).Is ((xs ++ ys).erase x) := by
  induction n generalizing xs ys with
  | zero => omega
  | succ n ih =>
    rw [slot]
    cases ys with
    | nil =>
      have hend : l.load xs.getLast? = none := h.load_getLast?
      exact .inl ⟨List.not_mem_nil,by rw [hend]⟩
    | cons y ys =>
      have hy : l.load xs.getLast? = some y := h.load_getLast?.1
      rw [hy]
      by_cases hyx : y = x
      · subst hyx
        refine .inr ⟨List.mem_cons_self,xs.getLast?,if_pos rfl,?_⟩
        rw [List.erase_append_right _ hx,List.erase_cons_head]
        exact h.unlink
      · have happ : xs ++ y::ys = (xs ++ [y]) ++ ys := by simp
        have hx' : x ∉ xs ++ [y] := by simp [hx,Ne.symm hyx]
        rw [happ] at h ⊢
        have hstep := ih h hx' (by simpa using hn)
        rw [List.getLast?_concat] at hstep
        simpa [hyx,Ne.symm hyx] using hstep

/-- It finds the pointer to a node that is on the list, and redirecting it takes out that node. -/
theorem Is.slot (h : l.Is xs) (hn : xs.length < n) :
    (x ∉ xs ∧ l.slot x n none = some none) ∨
    x ∈ xs ∧ ∃ p, l.slot x n none = some (some p) ∧ (l.store p (l.next x)).Is (xs.erase x) := by
  have hstart : l.Is ([] ++ xs) := h
  exact hstart.slot_append List.not_mem_nil hn

end Slist
end Linuxab.Base
