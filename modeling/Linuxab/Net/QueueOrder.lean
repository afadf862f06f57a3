import Mathlib.Data.List.Infix
import Linuxab.Net.QueueRuns

/-! The order in which one list hands its buffers back. `skb_queue_tail` links every new buffer
directly behind the head, where `skb_dequeue` also takes from. -/
namespace Linuxab.Net.Queue

inductive QueueCall (B : Type*)
  | tail (b : B)
  | dequeue
  deriving DecidableEq

/-- A list with the logs of the buffers passed to it and returned from it. -/
structure QueueTrace (H B : Type*) where
  state : QueueState H B
  passed : List (Node H B)
  returned : List (Node H B)

section Order
variable {H B : Type*} [DecidableEq H] [DecidableEq B]

def QueueTrace.step (l : H) (t : QueueTrace H B) : QueueCall B → QueueTrace H B
  | .tail b => ⟨skbQueueTail t.state l (.skb b),t.passed ++ [.skb b],t.returned⟩
  | .dequeue =>
    ⟨(skbDequeue t.state l).2,t.passed,t.returned ++ (skbDequeue t.state l).1.toList⟩

/-- Initialise the list and make the calls. -/
def runCalls (s : QueueState H B) (l : H) (calls : List (QueueCall B)) : QueueTrace H B :=
  calls.foldl (QueueTrace.step l) ⟨skbQueueHeadInit s l,[],[]⟩

/-- Every buffer is queued only while it is off the list: all earlier passes were returned. -/
def QueuedWhileFree (s : QueueState H B) (l : H) (calls : List (QueueCall B)) : Prop :=
  ∀ pre b, pre ++ [.tail b] <+: calls →
    (runCalls s l pre).passed.count (.skb b) = (runCalls s l pre).returned.count (.skb b)

/-- First in, first out, with NULL exactly when nothing is outstanding. -/
def IsFifo (s : QueueState H B) (l : H) (calls : List (QueueCall B)) : Prop :=
  (runCalls s l calls).returned <+: (runCalls s l calls).passed ∧
  ∀ pre, pre ++ [.dequeue] <+: calls → ((skbDequeue (runCalls s l pre).state l).1 = none ↔
    ∀ n, (runCalls s l pre).passed.count n = (runCalls s l pre).returned.count n)

/-- How many buffers wait on the list, counted from the calls alone. -/
def waiting (calls : List (QueueCall B)) : ℕ :=
  calls.foldl (fun n c => match c with | .tail _ => n+1 | .dequeue => n-1) 0

/-- No dequeue is made while two or more buffers wait. -/
def DequeuesAtMostOne (calls : List (QueueCall B)) : Prop :=
  ∀ pre, pre ++ [QueueCall.dequeue] <+: calls → waiting pre ≤ 1

lemma runCalls_concat (s : QueueState H B) (l : H) (calls : List (QueueCall B)) (c : QueueCall B) :
    runCalls s l (calls ++ [c]) = (runCalls s l calls).step l c := by
  simp [runCalls]

/-- A condition on the calls before every `d` of a longer run. -/
lemma forall_before_concat {α : Type*} {P : List α → Prop} {calls : List α} {c d : α} :
    (∀ pre, pre ++ [d] <+: calls ++ [c] → P pre) ↔ (∀ pre, pre ++ [d] <+: calls → P pre) ∧ (c = d → P calls) := by
  constructor
  · intro h
    refine ⟨fun pre hp => h pre (hp.trans (List.prefix_append _ _)),?_⟩
    rintro rfl
    exact h calls (List.prefix_refl _)
  · rintro ⟨h,hc⟩ pre hp
    rcases List.prefix_concat_iff.mp hp with he | hp
    · obtain ⟨hpre,hlast⟩ := List.append_inj' he rfl
      rw [hpre]
      exact hc (List.singleton_inj.mp hlast).symm
    · exact h pre hp

omit [DecidableEq B] in
lemma dequeuesAtMostOne_concat (calls : List (QueueCall B)) (c : QueueCall B) :
    DequeuesAtMostOne (calls ++ [c]) ↔ DequeuesAtMostOne calls ∧ (c = .dequeue → waiting calls ≤ 1) :=
  forall_before_concat

lemma queuedWhileFree_concat (s : QueueState H B) (l : H) (calls : List (QueueCall B))
    (c : QueueCall B) : QueuedWhileFree s l (calls ++ [c]) ↔ QueuedWhileFree s l calls ∧
      ∀ b, c = .tail b →
        (runCalls s l calls).passed.count (.skb b) = (runCalls s l calls).returned.count (.skb b) := by
  unfold QueuedWhileFree
  rw [forall_comm,forall_comm (α := List (QueueCall B)),← forall_and]
  exact forall_congr' fun b => forall_before_concat

lemma queuedWhileFree_nil (s : QueueState H B) (l : H) : QueuedWhileFree s l [] := by
  intro pre b hp
  simp at hp

omit [DecidableEq B] in
lemma dequeuesAtMostOne_nil : DequeuesAtMostOne ([] : List (QueueCall B)) := by
  intro pre hp
  simp at hp

omit [DecidableEq B] in
lemma waiting_tail (calls : List (QueueCall B)) (b : B) :
    waiting (calls ++ [.tail b]) = waiting calls+1 := by simp [waiting]

omit [DecidableEq B] in
lemma waiting_dequeue (calls : List (QueueCall B)) :
    waiting (calls ++ [.dequeue]) = waiting calls-1 := by simp [waiting]

/-- The one initialised list. -/
def onlyList (l : H) (xs : List B) : Contents H B := Function.update (fun _ => none) l (some xs)

omit [DecidableEq B] in
@[simp] lemma onlyList_self (l : H) (xs : List B) : onlyList l xs l = some xs := by simp [onlyList]

omit [DecidableEq B] in
lemma onlyList_update (l : H) (xs ys : List B) :
    Function.update (onlyList l xs) l (some ys) = onlyList l ys := by
  simp [onlyList]

/-- Two lists that differ at a position both have. -/
def DifferAt {α : Type*} (xs ys : List α) (i : ℕ) : Prop :=
  ∃ (hx : i < xs.length) (hy : i < ys.length), xs[i] ≠ ys[i]

lemma DifferAt.append {α : Type*} {xs ys : List α} {i : ℕ} (h : DifferAt xs ys i) (us vs : List α) :
    DifferAt (xs ++ us) (ys ++ vs) i := by
  obtain ⟨hx,hy,hne⟩ := h
  refine ⟨by rw [List.length_append]; omega,by rw [List.length_append]; omega,?_⟩
  rwa [List.getElem_append_left hx,List.getElem_append_left hy]

lemma DifferAt.not_prefix {α : Type*} {xs ys : List α} {i : ℕ} (h : DifferAt xs ys i) :
    ¬ xs <+: ys := by
  intro hp
  obtain ⟨hx,_,hne⟩ := h
  exact hne (hp.getElem hx)

/-- What a run leaves: the waiting buffers, newest first. They continue the returned ones in
queueing order as long as no dequeue had two to choose from; after one that had, the logs
disagree for good. -/
structure StackedRun (s : QueueState H B) (l : H) (calls : List (QueueCall B)) (xs : List B) : Prop where
  rep : Represents (runCalls s l calls).state (onlyList l xs)
  waiting : waiting calls = xs.length
  count : ∀ n, (runCalls s l calls).passed.count n =
    (runCalls s l calls).returned.count n + (xs.map Node.skb).count n
  order : DequeuesAtMostOne calls →
    (runCalls s l calls).returned ++ (xs.map Node.skb).reverse = (runCalls s l calls).passed
  disorder : ¬ DequeuesAtMostOne calls →
    ∃ i, DifferAt (runCalls s l calls).returned (runCalls s l calls).passed i

lemma StackedRun.nodup {s : QueueState H B} {l : H} {calls : List (QueueCall B)} {xs : List B}
    (h : StackedRun s l calls xs) : (xs.map (Node.skb (H := H))).Nodup :=
  (List.nodup_cons.mp (h.rep.ring l xs (onlyList_self _ _)).nodup).2

lemma stackedRun_nil (s : QueueState H B) (l : H) : StackedRun s l [] [] where
  rep := by
    have h0 : Represents s (fun _ => none : Contents H B) := ⟨by simp,by simp,by simp⟩
    exact h0.init l
  waiting := rfl
  count := by simp [runCalls]
  order := by simp [runCalls]
  disorder h := absurd dequeuesAtMostOne_nil h

lemma StackedRun.tail {s : QueueState H B} {l : H} {calls : List (QueueCall B)} {xs : List B} {b : B}
    (h : StackedRun s l calls xs) (hb : QueuedWhileFree s l (calls ++ [.tail b])) :
    StackedRun s l (calls ++ [.tail b]) (b::xs) := by
  have hfree : b ∉ xs := by
    have h1 := hb calls b (List.prefix_refl _)
    have h2 := h.count (.skb b)
    intro hx
    have h3 : 0 < (xs.map (Node.skb (H := H))).count (.skb b) :=
      List.count_pos_iff.mpr (List.mem_map_of_mem hx)
    omega
  have hon : OnNoList (onlyList l xs) b := by
    intro m ys hm
    by_cases hml : m=l
    · subst m
      obtain rfl : xs=ys := by simpa [onlyList] using hm
      exact hfree
    · simp [onlyList,hml] at hm
  have hcond := dequeuesAtMostOne_concat calls (.tail b)
  simp only [reduceCtorEq,false_implies,and_true] at hcond
  refine ⟨?_,?_,?_,?_,?_⟩
  · have hr := h.rep.tail (onlyList_self _ _) hon
    rw [onlyList_update] at hr
    simpa only [runCalls_concat,QueueTrace.step] using hr
  · rw [waiting_tail,h.waiting,List.length_cons]
  · intro n
    have hn := h.count n
    simp only [runCalls_concat,QueueTrace.step,List.count_append,List.map_cons,List.count_cons,
      List.count_nil]
    omega
  · intro hd
    have ho := h.order (hcond.mp hd)
    simp only [runCalls_concat,QueueTrace.step,List.map_cons,List.reverse_cons]
    rw [← List.append_assoc,ho]
  · intro hd
    obtain ⟨i,hi⟩ := h.disorder (fun hc => hd (hcond.mpr hc))
    refine ⟨i,?_⟩
    simpa [runCalls_concat,QueueTrace.step] using hi.append [] [.skb b]

lemma StackedRun.dequeue_nil {s : QueueState H B} {l : H} {calls : List (QueueCall B)}
    (h : StackedRun s l calls []) : StackedRun s l (calls ++ [.dequeue]) [] := by
  have hd := h.rep.dequeue_nil (l := l) (onlyList_self _ _)
  have hrun : runCalls s l (calls ++ [.dequeue]) = runCalls s l calls := by
    simp [runCalls_concat,QueueTrace.step,hd]
  have hcond := dequeuesAtMostOne_concat calls .dequeue
  simp only [h.waiting,List.length_nil,Nat.zero_le,implies_true,and_true] at hcond
  refine ⟨by rw [hrun]; exact h.rep,?_,by rw [hrun]; exact h.count,?_,?_⟩
  · rw [waiting_dequeue,h.waiting]
    rfl
  · rw [hrun,hcond]
    exact h.order
  · rw [hrun,hcond]
    exact h.disorder

lemma StackedRun.dequeue_cons {s : QueueState H B} {l : H} {calls : List (QueueCall B)} {b : B}
    {xs : List B} (h : StackedRun s l calls (b::xs)) : StackedRun s l (calls ++ [.dequeue]) xs := by
  obtain ⟨t,ht,hrep,_⟩ := h.rep.dequeue_cons (l := l) (onlyList_self _ _)
  rw [onlyList_update] at hrep
  have hrun : runCalls s l (calls ++ [.dequeue]) =
      ⟨t,(runCalls s l calls).passed,(runCalls s l calls).returned ++ [.skb b]⟩ := by
    simp [runCalls_concat,QueueTrace.step,ht]
  have hcond := dequeuesAtMostOne_concat calls .dequeue
  simp only [h.waiting,List.length_cons,forall_const] at hcond
  refine ⟨by rw [hrun]; exact hrep,?_,?_,?_,?_⟩
  · rw [waiting_dequeue,h.waiting,List.length_cons,Nat.add_sub_cancel]
  · intro n
    have hn := h.count n
    rw [List.map_cons,List.count_cons] at hn
    simp only [hrun,List.count_append,List.count_cons,List.count_nil]
    omega
  · intro hd
    obtain ⟨h1,h2⟩ := hcond.mp hd
    obtain rfl : xs=[] := by
      cases xs with
      | nil => rfl
      | cons => simp at h2
    rw [hrun]
    simpa using h.order h1
  · intro hd
    by_cases hc : DequeuesAtMostOne calls
    · -- The oldest waiting buffer is due at this position, and a newer one was returned.
      have hx : xs ≠ [] := by
        rintro rfl
        exact hd (hcond.mpr ⟨hc,by simp⟩)
      obtain ⟨ys,y,rfl⟩ := (List.eq_nil_or_concat xs).resolve_left hx
      have hyb : b ≠ y := by
        have hnd := h.nodup
        rintro rfl
        simp at hnd
      have ho : (runCalls s l calls).returned ++ .skb y::(Node.skb b::ys.map Node.skb).reverse =
          (runCalls s l calls).passed := by simpa using h.order hc
      rw [hrun,← ho]
      refine ⟨(runCalls s l calls).returned.length,by simp,by simp,?_⟩
      simpa using hyb
    · obtain ⟨i,hi⟩ := h.disorder hc
      refine ⟨i,?_⟩
      rw [hrun]
      simpa using hi.append [.skb b] []

theorem exists_stackedRun (s : QueueState H B) (l : H) (calls : List (QueueCall B))
    (h : QueuedWhileFree s l calls) : ∃ xs, StackedRun s l calls xs := by
  induction calls using List.reverseRecOn with
  | nil => exact ⟨[],stackedRun_nil s l⟩
  | append_singleton calls c ih =>
    obtain ⟨xs,hx⟩ := ih ((queuedWhileFree_concat s l calls c).mp h).1
    cases c with
    | tail b => exact ⟨b::xs,hx.tail h⟩
    | dequeue =>
      cases xs with
      | nil => exact ⟨[],hx.dequeue_nil⟩
      | cons b xs => exact ⟨xs,hx.dequeue_cons⟩

/-- NULL is returned exactly when nothing is outstanding, whatever the order. -/
lemma StackedRun.null_iff {s : QueueState H B} {l : H} {calls : List (QueueCall B)} {xs : List B}
    (h : StackedRun s l calls xs) : (skbDequeue (runCalls s l calls).state l).1 = none ↔
      ∀ n, (runCalls s l calls).passed.count n = (runCalls s l calls).returned.count n := by
  cases xs with
  | nil =>
    have hc := h.count
    simp only [List.map_nil,List.count_nil,Nat.add_zero] at hc
    simp [h.rep.dequeue_nil (l := l) (onlyList_self _ _),hc]
  | cons b xs =>
    obtain ⟨t,ht,_⟩ := h.rep.dequeue_cons (l := l) (onlyList_self _ _)
    simp only [ht,reduceCtorEq,false_iff]
    intro hall
    have hb := h.count (.skb b)
    rw [hall,List.map_cons,List.count_cons_self] at hb
    omega

/-- A list is first in, first out exactly on the runs that never dequeue while two or more
buffers wait; the order of two waiting buffers is always reversed. -/
theorem skbQueue_fifo_iff (s : QueueState H B) (l : H) (calls : List (QueueCall B))
    (h : QueuedWhileFree s l calls) : IsFifo s l calls ↔ DequeuesAtMostOne calls := by
  obtain ⟨xs,hx⟩ := exists_stackedRun s l calls h
  constructor
  · rintro ⟨hp,_⟩
    by_contra hd
    obtain ⟨i,hi⟩ := hx.disorder hd
    exact hi.not_prefix hp
  · intro hd
    refine ⟨⟨_,hx.order hd⟩,?_⟩
    intro pre hp
    have hpre : pre <+: calls := (List.prefix_append pre _).trans hp
    obtain ⟨ys,hy⟩ := exists_stackedRun s l pre (fun p b hb => h p b (hb.trans hpre))
    exact hy.null_iff

end Order

/-- One buffer at a time comes back in order. -/
theorem skbQueue_fifo_iff_alternating :
    IsFifo blankQueueState () [.tail 1,.dequeue,.tail 2,.dequeue] ∧
      (runCalls blankQueueState () [.tail 1,.dequeue,.tail 2,.dequeue]).returned =
        [.skb 1,.skb 2] := by
  refine ⟨(skbQueue_fifo_iff blankQueueState () _ ?_).mpr ?_,by decide⟩
  · change QueuedWhileFree _ _ (((([] ++ [_]) ++ [_]) ++ [_]) ++ [_])
    simp only [queuedWhileFree_concat,queuedWhileFree_nil,true_and]
    simp
    decide
  · change DequeuesAtMostOne (((([] ++ [_]) ++ [_]) ++ [_]) ++ [_])
    simp only [dequeuesAtMostOne_concat,dequeuesAtMostOne_nil,true_and]
    decide

/-- Two queued buffers come back newest first. -/
theorem skbQueue_not_fifo :
    QueuedWhileFree blankQueueState () [.tail 1,.tail 2,.dequeue] ∧
      ¬ IsFifo blankQueueState () [.tail 1,.tail 2,.dequeue] := by
  constructor
  · change QueuedWhileFree _ _ ((([] ++ [_]) ++ [_]) ++ [_])
    simp only [queuedWhileFree_concat,queuedWhileFree_nil,true_and]
    simp
    decide
  · rintro ⟨hp,_⟩
    revert hp
    decide

end Linuxab.Net.Queue
