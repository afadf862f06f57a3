import Linuxab.Base.Fold
import Linuxab.Memory.FrameAllocator
import Mathlib.Data.Finset.Image

/-! Who holds which frame. A session follows the allocator through the calls of its clients, together with
the addresses that were returned and not freed since. -/
namespace Linuxab.Memory
open Linuxab.Base BitmapAllocator

inductive Call
  | allocFrame
  | freeFrame (addr : ℕ)
  deriving DecidableEq, Repr

structure Session where
  allocator : BitmapAllocator
  held : Finset ℕ

namespace Session

/-- What a call returns. -/
def returns (s : Session) : Call → Option ℕ
  | .allocFrame => s.allocator.allocFrame.1
  | .freeFrame _ => none

/-- An address that `alloc_frame` returned is held from then on. -/
def hold (held : Finset ℕ) : Option ℕ → Finset ℕ
  | some a => insert a held
  | none => held

def call (s : Session) : Call → Session
  | .allocFrame => ⟨s.allocator.allocFrame.2,hold s.held s.allocator.allocFrame.1⟩
  | .freeFrame addr => ⟨s.allocator.freeFrame addr,s.held.erase addr⟩

/-- Only a held address may be freed. -/
def Allowed (s : Session) : Call → Prop
  | .allocFrame => True
  | .freeFrame addr => addr ∈ s.held

def run (s : Session) (calls : List Call) : Session := calls.foldl call s

def Legal (s : Session) (calls : List Call) : Prop := Along call Allowed s calls

/-- The addresses that the calls return. -/
def returned : Session → List Call → List ℕ
  | _,[] => []
  | s,c::calls => (s.returns c).toList ++ returned (s.call c) calls

/-- A fresh allocator after `init(start, size)`. -/
def start (memory : ℕ → BitVec 64) (start size : ℕ) : Session := ⟨(new memory).init start size,∅⟩

/-- The bits below `total_frames` are the held frames, and the counter is their number. -/
structure Inv (s : Session) : Prop where
  frames : ∀ a ∈ s.held, ∃ k < s.allocator.totalFrames, a = k*4096
  bits : ∀ k < s.allocator.totalFrames, bitAt s.allocator.read k = decide (k*4096 ∈ s.held)
  used : s.allocator.usedFrames = s.held.card
  range : s.allocator.totalFrames < 2^64

theorem card_le_total {held : Finset ℕ} {total : ℕ} (h : ∀ a ∈ held, ∃ k < total, a = k*4096) :
    held.card ≤ total := by
  have hsub : held ⊆ (Finset.range total).image (·*4096) := by
    intro a ha
    obtain ⟨k,hk,rfl⟩ := h a ha
    exact Finset.mem_image_of_mem _ (Finset.mem_range.mpr hk)
  calc held.card ≤ ((Finset.range total).image (·*4096)).card := Finset.card_le_card hsub
    _ ≤ (Finset.range total).card := Finset.card_image_le
    _ = total := Finset.card_range total

section Step
variable {s : Session}

theorem Inv.fullBelow_iff (h : s.Inv) {n : ℕ} (hn : n ≤ s.allocator.totalFrames) :
    FullBelow s.allocator.read n ↔ ∀ k < n, k*4096 ∈ s.held := by
  apply forall₂_congr
  intro k hk
  rw [h.bits k (by omega),decide_eq_true_eq]

/-- What `alloc_frame` does, in terms of the held addresses. -/
theorem Inv.allocFrame_cases (h : s.Inv) :
    (∃ k < s.allocator.totalFrames, (∀ j < k, j*4096 ∈ s.held) ∧ k*4096 ∉ s.held ∧
      s.allocator.allocFrame = (some (k*4096),s.allocator.take k)) ∨
    ((∀ k < s.allocator.totalFrames, k*4096 ∈ s.held) ∧ s.allocator.allocFrame = (none,s.allocator)) := by
  cases s.allocator.allocFrame_spec with
  | inl hsome =>
    obtain ⟨k,hk,hfull,hfree,he⟩ := hsome
    rw [h.bits k hk,decide_eq_false_iff_not] at hfree
    exact .inl ⟨k,hk,(h.fullBelow_iff hk.le).mp hfull,hfree,he⟩
  | inr hnone => exact .inr ⟨(h.fullBelow_iff le_rfl).mp hnone.1,hnone.2⟩

theorem Inv.alloc (h : s.Inv) : (s.call .allocFrame).Inv := by
  obtain ⟨k,hk,-,hfree,he⟩ | ⟨-,he⟩ := h.allocFrame_cases
  · have hframes : ∀ a ∈ insert (k*4096) s.held, ∃ j < s.allocator.totalFrames, a = j*4096 := by
      intro a ha
      obtain rfl | ha := Finset.mem_insert.mp ha
      · exact ⟨k,hk,rfl⟩
      · exact h.frames a ha
    have hcard := card_le_total hframes
    have hrange := h.range
    rw [Finset.card_insert_of_notMem hfree] at hcard
    rw [call,he,hold]
    refine ⟨hframes,fun j hj => ?_,?_,hrange⟩
    · have hmul : j*4096 = k*4096 ↔ j = k := Nat.mul_left_inj (by decide)
      rw [bitAt_take,h.bits j hj]
      simp [hmul,Bool.or_comm]
    · rw [take_usedFrames,h.used,fetchAdd,Nat.mod_eq_of_lt (by omega),Finset.card_insert_of_notMem hfree]
  · rw [call,he,hold]
    exact h

theorem Inv.free (h : s.Inv) {addr : ℕ} (ha : addr ∈ s.held) : (s.call (.freeFrame addr)).Inv := by
  obtain ⟨k,hk,rfl⟩ := h.frames addr ha
  have hpos := Finset.card_pos.mpr ⟨_,ha⟩
  have hcard := card_le_total h.frames
  have hrange := h.range
  rw [call]
  refine ⟨?_,?_,?_,?_⟩
  · rw [freeFrame_totalFrames]
    exact fun a ha => h.frames a (Finset.mem_of_mem_erase ha)
  · rw [freeFrame_totalFrames]
    intro j hj
    have hmul : j*4096 = k*4096 ↔ j = k := Nat.mul_left_inj (by decide)
    rw [bitAt_freeFrame,h.bits j hj,Nat.mul_div_cancel k (by decide)]
    simp [hmul,Bool.and_comm]
  · rw [freeFrame_usedFrames,h.used,fetchSub,Finset.card_erase_of_mem ha]
    omega
  · rwa [freeFrame_totalFrames]

theorem Inv.call (h : s.Inv) {c : Call} (hc : s.Allowed c) : (s.call c).Inv := by
  cases c with
  | allocFrame => exact h.alloc
  | freeFrame addr => exact h.free hc

theorem Inv.run (h : s.Inv) {calls : List Call} (hl : s.Legal calls) : (s.run calls).Inv :=
  Along.keeps (fun _ _ hs hc => hs.call hc) hl h

end Step

theorem start_totalFrames (memory : ℕ → BitVec 64) (start size : ℕ) :
    (Session.start memory start size).allocator.totalFrames = size/4096 :=
  (foldl_write_zero (s := { new memory with bitmap := start, totalFrames := size/4096 }) _).2.1

theorem start_inv (memory : ℕ → BitVec 64) (start size : ℕ) (hsize : size < 2^64) :
    (Session.start memory start size).Inv := by
  have htotal := start_totalFrames memory start size
  refine ⟨by simp [Session.start],fun k hk => ?_,?_,by omega⟩
  · rw [htotal] at hk
    simpa [Session.start] using bitAt_init start size k hk
  · exact (foldl_write_zero (s := { new memory with bitmap := start, totalFrames := size/4096 }) _).2.2.1

/-- The first allocation gets frame 0. -/
theorem start_allocFrame (memory : ℕ → BitVec 64) (start size : ℕ) (hsize : size < 2^64) (hpos : 4096 ≤ size) :
    (Session.start memory start size).allocator.allocFrame.1 = some 0 := by
  obtain ⟨k,-,hlow,-,he⟩ | ⟨hall,-⟩ := (start_inv memory start size hsize).allocFrame_cases
  · cases k with
    | zero => simp [he]
    | succ k => exact absurd (hlow 0 k.succ_pos) (Finset.notMem_empty _)
  · rw [start_totalFrames] at hall
    exact absurd (hall 0 (by omega)) (Finset.notMem_empty _)

end Session

/-- Frames are handed out exclusively: whatever was allocated and freed before, `alloc_frame` returns the
lowest frame that nobody holds, or nothing exactly if all are held. -/
structure Exclusive (s : Session) : Prop where
  lowest : ∀ a, s.allocator.allocFrame.1 = some a →
    ∃ k, a = 4096*k ∧ IsLeast {k | k < s.allocator.totalFrames ∧ 4096*k ∉ s.held} k
  not_held : ∀ a, s.allocator.allocFrame.1 = some a → a ∉ s.held
  none_iff : s.allocator.allocFrame.1 = none ↔ ∀ k < s.allocator.totalFrames, 4096*k ∈ s.held
  used : s.allocator.usedFrames = s.held.card

theorem frames_exclusive (memory : ℕ → BitVec 64) (start size : ℕ) (hsize : size < 2^64) (calls : List Call)
    (hl : (Session.start memory start size).Legal calls) :
    Exclusive ((Session.start memory start size).run calls) := by
  have h := (Session.start_inv memory start size hsize).run hl
  obtain ⟨k,hk,hlow,hfree,he⟩ | ⟨hall,he⟩ := h.allocFrame_cases
  · simp only [Nat.mul_comm _ 4096] at hlow hfree he
    refine ⟨?_,?_,?_,h.used⟩
    · intro a ha
      obtain rfl : 4096*k = a := by simpa [he] using ha
      refine ⟨k,rfl,⟨hk,hfree⟩,fun j hj => ?_⟩
      by_contra hjk
      exact hj.2 (hlow j (by omega))
    · intro a ha
      obtain rfl : 4096*k = a := by simpa [he] using ha
      exact hfree
    · simp only [he,reduceCtorEq,false_iff]
      exact fun hall => hfree (hall k hk)
  · simp only [Nat.mul_comm _ 4096] at hall
    exact ⟨by simp [he],by simp [he],by simpa [he] using hall,h.used⟩

/-- A frame that was freed is handed out again. -/
theorem frames_exclusive_again :
    (Session.start (fun _ => 0) 4096 8192).Legal [.allocFrame,.freeFrame 0,.allocFrame] ∧
    Exclusive ((Session.start (fun _ => 0) 4096 8192).run [.allocFrame,.freeFrame 0,.allocFrame]) := by
  have hl : (Session.start (fun _ => 0) 4096 8192).Legal [.allocFrame,.freeFrame 0,.allocFrame] := by
    have hfirst := Session.start_allocFrame (fun _ => 0) 4096 8192 (by decide) (by decide)
    refine ⟨trivial,?_,trivial,trivial⟩
    rw [Session.call,hfirst]
    exact Finset.mem_insert_self 0 _
  exact ⟨hl,frames_exclusive (fun _ => 0) 4096 8192 (by decide) _ hl⟩

/-- The frame at `a` lies in the region and does not meet the words that `init` wrote. -/
structure InRegion (start size a : ℕ) : Prop where
  above : start ≤ a
  below : a+4096 ≤ start+size
  off_bitmap : ∀ i < (size/4096+63)/64, ∀ x, a ≤ x ∧ x < a+4096 → ¬(start+8*i ≤ x ∧ x < start+8*i+8)

/-- Address 0 lies below the region, or else its frame has the bitmap in it. -/
theorem not_inRegion_zero {start size : ℕ} (hpos : 4096 ≤ size) : ¬InRegion start size 0 := by
  intro h
  obtain rfl : start = 0 := Nat.le_zero.mp h.above
  exact h.off_bitmap 0 (by omega) 0 (by decide) (by decide)

/-- Without a whole frame in the region nothing is ever returned. -/
theorem returned_of_no_frames {s : Session} (h : s.Inv) (hzero : s.allocator.totalFrames = 0) {calls : List Call}
    (hl : s.Legal calls) : s.returned calls = [] := by
  induction calls generalizing s with
  | nil => rfl
  | cons c calls ih =>
    cases c with
    | allocFrame =>
      obtain ⟨k,hk,-⟩ | ⟨-,he⟩ := h.allocFrame_cases
      · omega
      · have hcall : s.call .allocFrame = s := by rw [Session.call,he]; rfl
        have hrest := ih h hzero (hcall ▸ hl.2)
        rw [Session.returned,hcall,hrest,Session.returns,he]
        rfl
    | freeFrame addr =>
      obtain ⟨k,hk,-⟩ := h.frames addr hl.1
      omega

/-- Nothing can be freed before the first allocation. -/
theorem legal_start {memory : ℕ → BitVec 64} {start size : ℕ} {calls : List Call}
    (hl : (Session.start memory start size).Legal calls) : calls = [] ∨ ∃ rest, calls = .allocFrame::rest := by
  cases calls with
  | nil => exact .inl rfl
  | cons c calls =>
    cases c with
    | allocFrame => exact .inr ⟨calls,rfl⟩
    | freeFrame addr => exact absurd hl.1 (Finset.notMem_empty addr)

/-- Every address handed out lies in the region and off the bitmap exactly if no frame is handed out: the
allocator multiplies the frame number by 4096 and never adds `start`. -/
theorem frames_in_region_iff (memory : ℕ → BitVec 64) (start size : ℕ)
    (hfit : start+size < 2^64) (calls : List Call) (hl : (Session.start memory start size).Legal calls) :
    (∀ a ∈ (Session.start memory start size).returned calls, InRegion start size a) ↔
      size < 4096 ∨ .allocFrame ∉ calls := by
  have hinv := Session.start_inv memory start size (by omega)
  obtain rfl | ⟨rest,rfl⟩ := legal_start hl
  · simp [Session.returned]
  · constructor
    · intro hall
      by_contra hno
      push Not at hno
      have hfirst := Session.start_allocFrame memory start size (by omega) hno.1
      exact not_inRegion_zero hno.1 (hall 0 (by simp [Session.returned,Session.returns,hfirst]))
    · intro h a ha
      have hsmall : size < 4096 := h.resolve_right fun hno => hno List.mem_cons_self
      have hzero : (Session.start memory start size).allocator.totalFrames = 0 := by
        rw [Session.start_totalFrames]
        omega
      rw [returned_of_no_frames hinv hzero hl] at ha
      exact absurd ha List.not_mem_nil

theorem frames_in_region_iff_small :
    (Session.start (fun _ => 0) 4096 4095).Legal [.allocFrame] ∧
    ∀ a ∈ (Session.start (fun _ => 0) 4096 4095).returned [.allocFrame], InRegion 4096 4095 a :=
  ⟨⟨trivial,trivial⟩,
    (frames_in_region_iff (fun _ => 0) 4096 4095 (by decide) [.allocFrame] ⟨trivial,trivial⟩).mpr
      (.inl (by decide))⟩

/-- The first frame of a region at 1 MiB is at address 0. -/
theorem frame_outside_region :
    (Session.start (fun _ => 0) 0x100000 0x10000).Legal [.allocFrame] ∧
    0 ∈ (Session.start (fun _ => 0) 0x100000 0x10000).returned [.allocFrame] ∧
    ¬InRegion 0x100000 0x10000 0 := by
  have hfirst := Session.start_allocFrame (fun _ => 0) 0x100000 0x10000 (by decide) (by decide)
  refine ⟨⟨trivial,trivial⟩,?_,not_inRegion_zero (by decide)⟩
  rw [Session.returned,Session.returns,hfirst]
  exact List.mem_cons_self

end Linuxab.Memory
