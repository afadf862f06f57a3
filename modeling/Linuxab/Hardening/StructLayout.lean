import Linuxab.Base.Exchange
import Mathlib.Data.Nat.Notation
import Mathlib.Order.Nat

/-!
The reordering of structure fields in `randstruct_plugin.c`: a shuffle driven by a linear congruential
generator, or in performance mode a sort by alignment.  The number of fields is an `unsigned int`; the
loops of the sort are reached with at least two fields only, so that `n - 1` does not wrap around.
-/

namespace Linuxab.Hardening
open Linuxab.Base

structure RandstructField (Tree : Type) where
  field : Tree
  size : UInt32
  alignment : UInt32
  sensitive : Bool

variable {Tree : Type}

/-- A round of the shuffle for the position `i`, with `randstruct_seed`. -/
def shuffleStep (s : UInt32 × List (RandstructField Tree)) (i : ℕ) : UInt32 × List (RandstructField Tree) :=
  let seed := s.1*1103515245+12345
  let j := (seed%UInt32.ofNat (i+1)).toNat
  (seed,exchange s.2 j i)

/-- `i` runs from `n - 1` down to 1. -/
def shuffleFields (seed : UInt32) (fields : List (RandstructField Tree)) : UInt32 × List (RandstructField Tree) :=
  if fields.length < 2 then (seed,fields)
  else (List.range' 1 (fields.length-1)).reverse.foldl shuffleStep (seed,fields)

def groupByAlignment (performanceMode : Bool) (fields : List (RandstructField Tree)) : List (RandstructField Tree) :=
  if performanceMode then sinkSort (fun f => f.alignment.toNat) fields.length fields else fields

/-- What `randomize_struct` does with the fields it has collected. -/
def reorder (performanceMode : Bool) (seed : UInt32) (fields : List (RandstructField Tree)) :
    UInt32 × List (RandstructField Tree) :=
  if fields.length < 2 then (seed,fields)
  else if performanceMode then (seed,groupByAlignment performanceMode fields)
  else shuffleFields seed fields

section Layout
variable {fields : List (RandstructField Tree)}

theorem shuffleStep_perm (s : UInt32 × List (RandstructField Tree)) (i : ℕ) : (shuffleStep s i).2.Perm s.2 := by
  rw [shuffleStep]
  exact exchange_perm s.2 _ i

theorem foldl_shuffleStep_perm (l : List ℕ) (s : UInt32 × List (RandstructField Tree)) :
    (l.foldl shuffleStep s).2.Perm s.2 := by
  induction l generalizing s with
  | nil => exact .refl _
  | cons i l ih =>
    rw [List.foldl_cons]
    exact (ih (shuffleStep s i)).trans (shuffleStep_perm s i)

theorem shuffleFields_perm (seed : UInt32) (fields : List (RandstructField Tree)) :
    (shuffleFields seed fields).2.Perm fields := by
  rw [shuffleFields]
  split
  · exact .refl fields
  · exact foldl_shuffleStep_perm _ _

/-- Sorted by falling alignment, with the order kept among fields of one alignment. -/
structure Grouped (fields fields' : List (RandstructField Tree)) : Prop where
  perm : fields'.Perm fields
  sorted : fields'.Pairwise fun f g => g.alignment ≤ f.alignment
  stable : ∀ a : UInt32, fields'.filter (·.alignment = a) = fields.filter (·.alignment = a)

theorem groupByAlignment_grouped (fields : List (RandstructField Tree)) :
    Grouped fields (groupByAlignment true fields) := by
  obtain ⟨hsorted,hstable⟩ := @sinkSort_spec _ _ _ (fun f : RandstructField Tree => f.alignment.toNat) fields
  rw [groupByAlignment,if_pos rfl]
  refine ⟨hstable.perm,hsorted.imp fun h => UInt32.le_iff_toNat_le.mpr h,fun a => ?_⟩
  simpa only [UInt32.toNat_inj] using hstable.filter_eq a.toNat

/-- No field is lost or doubled, whichever of the two the plugin does. -/
theorem randstruct_rearranges (hfields : 2 ≤ fields.length) (seed : UInt32) :
    (shuffleFields seed fields).2.Perm fields ∧ Grouped fields (groupByAlignment true fields) ∧
      (reorder false seed fields).2.Perm fields ∧ Grouped fields (reorder true seed fields).2 := by
  have hmany : ¬fields.length < 2 := by omega
  refine ⟨shuffleFields_perm seed fields,groupByAlignment_grouped fields,?_,?_⟩
  · rw [reorder,if_neg hmany,if_neg Bool.false_ne_true]
    exact shuffleFields_perm seed fields
  · rw [reorder,if_neg hmany,if_pos rfl]
    exact groupByAlignment_grouped fields

end Layout

/-- Three fields of alignment 1, 8 and 1. -/
theorem randstruct_rearranges_three :
    (shuffleFields 42 [⟨'a',1,1,false⟩,⟨'b',8,8,false⟩,⟨'c',1,1,false⟩]).2.Perm
      [⟨'a',1,1,false⟩,⟨'b',8,8,false⟩,⟨'c',1,1,false⟩] :=
  (randstruct_rearranges (by decide) 42).1

end Linuxab.Hardening
