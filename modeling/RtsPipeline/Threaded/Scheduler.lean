/-
  `rts-threaded/src/scheduler.rs`: the bounded priority queue of the threaded pipeline.

  `PriorityQueue` is a `Mutex<BinaryHeap<Reverse<PrioritisedTask>>>`: the heap is a max-heap of the
  reversed order, so `pop` serves the least `(priority, enqueued_at)`.  Every operation holds the
  mutex from its first to its last step, so each is one function of the queue.  Overflow uses
  another order: the heap is dismantled into its vector, the element with the greatest
  `(priority, reversed enqueued_at)` is swapped out, and a new heap is collected from the rest; only
  then is the incoming task pushed.

  `push_spec` and `pop_spec` say what the two operations do to the tasks queued, whatever shape the
  heap has; nothing outside this module unfolds them.
-/
import Mathlib.Order.RelClasses
import RtsPipeline.Core.Task
import RtsPipeline.Lib.BinaryHeap
import RtsPipeline.Lib.Vec

namespace RtsPipeline.Threaded

open Lib

/-! ## `PrioritisedTask` and its order

The order is a preorder only: two tasks with the same key are each at most the other, and differ in
their events.  The heap needs no more than that, and no less: the order must be total. -/

/-- `PrioritisedTask`: an event with its scheduling key. -/
structure PrioritisedTask where
  priority : Priority
  enqueuedAt : Nat
  event : OwnedEvent
deriving DecidableEq, Repr

namespace PrioritisedTask

/-- `impl Ord for PrioritisedTask`: by priority, then by time. -/
def cmp (a b : PrioritisedTask) : Ordering :=
  (compare a.priority b.priority).then (compare a.enqueuedAt b.enqueuedAt)

instance : LE PrioritisedTask := ⟨fun a b => cmp a b ≠ .gt⟩

instance : DecidableLE PrioritisedTask := fun a b => inferInstanceAs (Decidable (cmp a b ≠ .gt))

theorem le_iff {a b : PrioritisedTask} :
    a ≤ b ↔ a.priority < b.priority ∨ a.priority = b.priority ∧ a.enqueuedAt ≤ b.enqueuedAt := by
  show cmp a b ≠ .gt ↔ _
  unfold cmp
  rcases lt_trichotomy a.priority b.priority with h | h | h
  · simp [compare_lt_iff_lt.mpr h, h]
  · simp [h, compare_gt_iff_gt]
  · simp [compare_gt_iff_gt.mpr h, not_lt_of_gt h, ne_of_gt h]

instance : Preorder PrioritisedTask where
  le_refl a := le_iff.mpr (Or.inr ⟨rfl, le_refl _⟩)
  le_trans a b c hab hbc := by
    rw [le_iff] at *
    rcases hab with h | ⟨h, ht⟩
    · rcases hbc with h' | ⟨h', _⟩
      · exact Or.inl (lt_trans h h')
      · exact Or.inl (h' ▸ h)
    · rcases hbc with h' | ⟨h', ht'⟩
      · exact Or.inl (h ▸ h')
      · exact Or.inr ⟨h.trans h', le_trans ht ht'⟩

instance : @Std.Total PrioritisedTask (· ≤ ·) where
  total a b := by
    rw [le_iff, le_iff]
    rcases lt_trichotomy a.priority b.priority with h | h | h
    · exact Or.inl (Or.inl h)
    · rcases Nat.le_total a.enqueuedAt b.enqueuedAt with ht | ht
      · exact Or.inl (Or.inr ⟨h, ht⟩)
      · exact Or.inr (Or.inr ⟨h.symm, ht⟩)
    · exact Or.inr (Or.inl h)

/-- The task with its key moved in front (`push`'s `incoming`). -/
def ofTask (t : Task) : PrioritisedTask :=
  { priority := t.priority, enqueuedAt := t.enqueuedAt, event := t.event }

/-- The task a popped element is turned back into. -/
def toTask (p : PrioritisedTask) : Task :=
  { event := p.event, priority := p.priority, enqueuedAt := p.enqueuedAt }

/-- The comparison of the overflow branch: a higher ordinal is worse, and among equals the older
    is worse. -/
def worseCmp (a b : PrioritisedTask) : Ordering :=
  (compare a.priority.ordinal b.priority.ordinal).then (compare b.enqueuedAt a.enqueuedAt)

end PrioritisedTask

/-! ## Service order and eviction order on tasks

The two orders turn the classes around and agree on the times: the oldest is served first within a
class, and it is the oldest that is evicted first. -/

/-- `t` is served no later than `u`: a lower priority ordinal, or the same and no younger. -/
def ServedFirst (t u : Task) : Prop :=
  t.priority < u.priority ∨ t.priority = u.priority ∧ t.enqueuedAt ≤ u.enqueuedAt

/-- Two pairs that each come first by class, then by time, have one time. -/
theorem time_eq_of_both {α : Type} [Preorder α] {a b : α} {m n : Nat}
    (h : a < b ∨ a = b ∧ m ≤ n) (h' : b < a ∨ b = a ∧ n ≤ m) : m = n := by
  rcases h with h | ⟨he, h⟩
  · rcases h' with h' | ⟨he', _⟩
    · exact absurd h' (lt_asymm h)
    · exact absurd h (by rw [he']; exact lt_irrefl _)
  · rcases h' with h' | ⟨_, h'⟩
    · exact absurd h' (by rw [he]; exact lt_irrefl _)
    · exact Nat.le_antisymm h h'

/-- Of two tasks each served no later than the other, neither is older. -/
theorem ServedFirst.time_eq {t u : Task} (h : ServedFirst t u) (h' : ServedFirst u t) :
    t.enqueuedAt = u.enqueuedAt := time_eq_of_both h h'

/-- `t` is evicted no later than `u`: a higher priority ordinal, or the same and no younger. -/
def EvictedFirst (t u : Task) : Prop :=
  u.priority < t.priority ∨ t.priority = u.priority ∧ t.enqueuedAt ≤ u.enqueuedAt

theorem EvictedFirst.refl (t : Task) : EvictedFirst t t := Or.inr ⟨rfl, le_refl _⟩

/-- Of two tasks each evicted no later than the other, neither is older. -/
theorem EvictedFirst.time_eq {t u : Task} (h : EvictedFirst t u) (h' : EvictedFirst u t) :
    t.enqueuedAt = u.enqueuedAt :=
  -- the eviction order is the service order with the priorities turned over
  @time_eq_of_both Priorityᵒᵈ _ _ _ _ _ h h'

theorem EvictedFirst.trans {t u v : Task} (h : EvictedFirst t u) (h' : EvictedFirst u v) :
    EvictedFirst t v := by
  rcases h with h | ⟨h, ht⟩
  · rcases h' with h' | ⟨h', _⟩
    · exact Or.inl (lt_trans h' h)
    · exact Or.inl (h' ▸ h)
  · rcases h' with h' | ⟨h', ht'⟩
    · exact Or.inl (h.symm ▸ h')
    · exact Or.inr ⟨h.trans h', le_trans ht ht'⟩

theorem evictedFirst_of_worseCmp {a b : PrioritisedTask} (h : a.worseCmp b = .gt) :
    EvictedFirst a.toTask b.toTask := by
  unfold PrioritisedTask.worseCmp at h
  rcases lt_trichotomy a.priority.ordinal b.priority.ordinal with ho | ho | ho
  · simp [compare_lt_iff_lt.mpr ho] at h
  · have hp : a.priority = b.priority := Priority.ordinal_injective ho
    rw [hp, compare_eq_iff_eq.mpr rfl] at h
    exact Or.inr ⟨hp, le_of_lt (compare_gt_iff_gt.mp h)⟩
  · exact Or.inl ho

theorem evictedFirst_of_not_worseCmp {a b : PrioritisedTask} (h : a.worseCmp b ≠ .gt) :
    EvictedFirst b.toTask a.toTask := by
  unfold PrioritisedTask.worseCmp at h
  rcases lt_trichotomy a.priority.ordinal b.priority.ordinal with ho | ho | ho
  · exact Or.inl ho
  · have hp : a.priority = b.priority := Priority.ordinal_injective ho
    rw [hp, compare_eq_iff_eq.mpr rfl] at h
    exact Or.inr ⟨hp.symm, Nat.le_of_not_lt (fun hlt => h (compare_gt_iff_gt.mpr hlt))⟩
  · simp [compare_gt_iff_gt.mpr ho] at h

/-! ## `PriorityQueue`

`push`, which makes room first, and `pop`, over the heap of the library.  The order is that of the
key, class before time. -/

/-- The heap of `Reverse<PrioritisedTask>`. -/
abbrev TaskHeap := BinaryHeap PrioritisedTaskᵒᵈ

/-- The tasks of a heap, in the order of its vector. -/
def TaskHeap.tasks (h : TaskHeap) : List Task :=
  h.toList.map fun p => (OrderDual.ofDual p).toTask

/-- `PriorityQueue` under its mutex.  The condition variable has no state of its own. -/
structure PriorityQueue where
  inner : TaskHeap
  capacity : Nat
  overflow : UInt64

namespace PriorityQueue

/-- `PriorityQueue::new`. -/
def new (capacity : Nat) : PriorityQueue :=
  { inner := BinaryHeap.empty, capacity := capacity, overflow := 0 }

/-- `PriorityQueue::len`. -/
def len (q : PriorityQueue) : Nat := q.inner.len

/-- `PriorityQueue::overflow_count`. -/
def overflowCount (q : PriorityQueue) : UInt64 := q.overflow

/-- The tasks queued. -/
def queued (q : PriorityQueue) : List Task := q.inner.tasks

/-- `worst_idx`: the position of the worst element of the dismantled heap. -/
def worstIdx (items : Array PrioritisedTaskᵒᵈ) : Option Nat :=
  (maxBy (fun a b => (OrderDual.ofDual a.1).worseCmp (OrderDual.ofDual b.1))
    items.toList.zipIdx).map Prod.snd

/-- The overflow branch: dismantle, swap the worst element out, collect the rest.  `none` is the
    panic of the `expect` on an empty heap. -/
def evictWorst (heap : TaskHeap) : Option (PrioritisedTask × TaskHeap) :=
  match worstIdx heap.intoVec with
  | none => none
  | some i =>
    if h : i < heap.intoVec.size then
      some (OrderDual.ofDual heap.intoVec[i], BinaryHeap.ofVec (swapRemove heap.intoVec i h))
    else none

/-- `PriorityQueue::push`; `none` when it panics. -/
def push (q : PriorityQueue) (task : Task) : Option (PriorityQueue × PushOutcome) :=
  let incoming := OrderDual.toDual (PrioritisedTask.ofTask task)
  if q.capacity ≤ q.inner.len then
    match evictWorst q.inner with
    | none => none
    | some (_, rest) =>
      some ({ q with inner := rest.push incoming, overflow := q.overflow + 1 }, .droppedOldest)
  else
    some ({ q with inner := q.inner.push incoming }, .ok)

/-- The `pop` inside `pop_blocking`: the task at the root, if there is one. -/
def pop (q : PriorityQueue) : Option (Task × PriorityQueue) :=
  match q.inner.pop with
  | none => none
  | some (p, rest) => some ((OrderDual.ofDual p).toTask, { q with inner := rest })

/-- The task `push` evicts, which the source discards. -/
def victim (q : PriorityQueue) : Option Task :=
  if q.capacity ≤ q.inner.len then (evictWorst q.inner).map fun r => r.1.toTask else none

end PriorityQueue

/-- What one pass of the loop of `pop_blocking` does under the lock. -/
inductive PopBlocking
  | cancelled                               -- `return None`
  | task (t : Task) (q : PriorityQueue)     -- `return Some(t)`
  | wait                                    -- `condvar.wait_for`, then around the loop

/-- `PriorityQueue::pop_blocking`, one pass: the flag is read before the heap. -/
def PriorityQueue.popBlocking (cancel : Bool) (q : PriorityQueue) : PopBlocking :=
  if cancel then .cancelled
  else
    match q.pop with
    | some (t, q') => .task t q'
    | none => .wait

/-! ## What the operations do to the tasks queued

From here on the heap is only the list of its tasks, up to order.  The overflow branch goes through
the vector of the heap: the worst position is one of the vector, `swap_remove` leaves the others in
some order, and a heap collected from them has the same tasks. -/

@[simp] theorem TaskHeap.length_tasks (h : TaskHeap) : h.tasks.length = h.len := by
  rw [TaskHeap.tasks, List.length_map, BinaryHeap.len_eq_length]

theorem TaskHeap.tasks_push (h : TaskHeap) (t : Task) :
    TaskHeap.tasks (h.push (OrderDual.toDual (PrioritisedTask.ofTask t))) |>.Perm
      (t :: h.tasks) :=
  (h.toList_push _).map _

/-- The worst position is in range and holds a task that no other is evicted before. -/
theorem PriorityQueue.worstIdx_spec {items : Array PrioritisedTaskᵒᵈ} (hne : 0 < items.size) :
    ∃ i, ∃ h : i < items.size, worstIdx items = some i ∧ ∀ y ∈ items.toList,
      EvictedFirst (OrderDual.ofDual items[i]).toTask (OrderDual.ofDual y).toTask := by
  obtain ⟨m, hm⟩ : ∃ m, maxBy (fun a b => (OrderDual.ofDual a.1).worseCmp (OrderDual.ofDual b.1))
      items.toList.zipIdx = some m := by
    refine Option.ne_none_iff_exists'.mp (fun he => ?_)
    have hnil := congrArg List.length (maxBy_eq_none.mp he)
    rw [List.length_zipIdx, Array.length_toList, List.length_nil] at hnil
    omega
  obtain ⟨hmem, hdom⟩ := maxBy_spec
    (R := fun a b : PrioritisedTaskᵒᵈ × Nat =>
      EvictedFirst (OrderDual.ofDual a.1).toTask (OrderDual.ofDual b.1).toTask)
    (fun _ _ h => evictedFirst_of_worseCmp h) (fun _ _ h => evictedFirst_of_not_worseCmp h)
    (fun _ => EvictedFirst.refl _) EvictedFirst.trans hm
  obtain ⟨x, i⟩ := m
  obtain ⟨hi, hx⟩ := List.mem_zipIdx' hmem
  rw [Array.length_toList] at hi
  refine ⟨i, hi, by rw [worstIdx, hm]; rfl, fun y hy => ?_⟩
  obtain ⟨j, hj, rfl⟩ := List.mem_iff_getElem.mp hy
  have hd := hdom (items.toList[j], j) (List.mem_zipIdx_iff_getElem?.mpr (by simp))
  rw [hx] at hd
  simpa using hd

/-- The overflow branch takes out one worst task and keeps the others. -/
theorem PriorityQueue.evictWorst_spec {heap : TaskHeap} (hne : 0 < heap.len) :
    ∃ p rest, evictWorst heap = some (p, rest) ∧ heap.tasks.Perm (p.toTask :: rest.tasks) ∧
      ∀ y ∈ heap.tasks, EvictedFirst p.toTask y := by
  obtain ⟨i, hi, hw, hdom⟩ := @worstIdx_spec heap.intoVec hne
  refine ⟨OrderDual.ofDual heap.intoVec[i], BinaryHeap.ofVec (swapRemove heap.intoVec i hi),
    by rw [evictWorst, hw]; exact dif_pos hi, ?_, ?_⟩
  · have hp := (swapRemove_perm heap.intoVec i hi).trans
      ((BinaryHeap.toList_ofVec (swapRemove heap.intoVec i hi)).symm.cons _)
    exact hp.map fun p => (OrderDual.ofDual p).toTask
  · intro y hy
    obtain ⟨p, hp, rfl⟩ := List.mem_map.mp hy
    exact hdom p hp

/-- An empty heap has nothing to give up. -/
theorem PriorityQueue.evictWorst_eq_none {heap : TaskHeap} (h : heap.len = 0) :
    evictWorst heap = none := by
  unfold evictWorst
  cases worstIdx heap.intoVec with
  | none => rfl
  | some i =>
    apply dif_neg
    intro hi
    rw [show heap.intoVec.size = 0 from h] at hi
    exact Nat.not_lt_zero i hi

namespace PriorityQueue

@[simp] theorem length_queued (q : PriorityQueue) : q.queued.length = q.len :=
  TaskHeap.length_tasks _

/-- What a push that does not panic does: with room it adds the task, and at capacity it gives up
    one worst task for it. -/
inductive Pushed (q : PriorityQueue) (t : Task) (q' : PriorityQueue) :
    PushOutcome → Option Task → Prop
  | room (lt : q.len < q.capacity) (capacity : q'.capacity = q.capacity)
      (overflow : q'.overflow = q.overflow) (queued : q'.queued.Perm (t :: q.queued)) :
      Pushed q t q' .ok none
  | full (le : q.capacity ≤ q.len) (capacity : q'.capacity = q.capacity)
      (overflow : q'.overflow = q.overflow + 1) (v : Task) (rest : List Task)
      (split : q.queued.Perm (v :: rest)) (worst : ∀ y ∈ q.queued, EvictedFirst v y)
      (queued : q'.queued.Perm (t :: rest)) : Pushed q t q' .droppedOldest (some v)

/-- A push that finds something to evict when it has to. -/
theorem push_of_victim (q : PriorityQueue) (t : Task)
    (hne : q.capacity ≤ q.inner.len → 0 < q.inner.len) :
    ∃ q' o, q.push t = some (q', o) ∧ Pushed q t q' o q.victim := by
  by_cases hfull : q.capacity ≤ q.inner.len
  · obtain ⟨p, rest, he, hsplit, hworst⟩ := @evictWorst_spec q.inner (hne hfull)
    have hv : q.victim = some p.toTask := by rw [victim, if_pos hfull, he]; rfl
    refine ⟨{ q with
      inner := rest.push (OrderDual.toDual (PrioritisedTask.ofTask t))
      overflow := q.overflow + 1 }, .droppedOldest,
      by rw [push]; simp only [if_pos hfull, he], ?_⟩
    rw [hv]
    refine Pushed.full hfull ?_ ?_ p.toTask rest.tasks hsplit hworst ?_
    · rfl
    · rfl
    · exact TaskHeap.tasks_push rest t
  · have hv : q.victim = none := by rw [victim, if_neg hfull]
    refine ⟨{ q with inner := q.inner.push (OrderDual.toDual (PrioritisedTask.ofTask t)) }, .ok,
      by rw [push]; simp only [if_neg hfull], ?_⟩
    rw [hv]
    refine Pushed.room (Nat.lt_of_not_le hfull) ?_ ?_ ?_
    · rfl
    · rfl
    · exact TaskHeap.tasks_push q.inner t

/-- **`push`**, for every queue with a positive capacity. -/
theorem push_spec (q : PriorityQueue) (t : Task) (hC : 0 < q.capacity) :
    ∃ q' o, q.push t = some (q', o) ∧ Pushed q t q' o q.victim :=
  q.push_of_victim t fun hfull => Nat.lt_of_lt_of_le hC hfull

/-- A push that did not panic, whatever the capacity. -/
theorem push_some {q q' : PriorityQueue} {t : Task} {o : PushOutcome}
    (h : q.push t = some (q', o)) : Pushed q t q' o q.victim := by
  have hne : q.capacity ≤ q.inner.len → 0 < q.inner.len := by
    intro hfull
    by_contra hzero
    have hnone : evictWorst q.inner = none := evictWorst_eq_none (Nat.eq_zero_of_not_pos hzero)
    simp only [push, if_pos hfull, hnone] at h
    exact nomatch h
  obtain ⟨q1, o1, hp, hspec⟩ := q.push_of_victim t hne
  obtain ⟨rfl, rfl⟩ := Prod.mk.inj (Option.some.inj (h.symm.trans hp))
  exact hspec

/-- What is queued after a push, and what the push evicted, is what was queued and the task. -/
theorem Pushed.conserve {q q' : PriorityQueue} {t : Task} {o : PushOutcome} {v : Option Task}
    (h : Pushed q t q' o v) : (t :: q.queued).Perm (v.toList ++ q'.queued) := by
  cases h with
  | room _ _ _ hq => exact hq.symm
  | full _ _ _ v rest hsplit _ hq =>
    exact ((hsplit.cons t).trans (List.Perm.swap v t rest)).trans (hq.symm.cons v)

theorem Pushed.capacity_eq {q q' : PriorityQueue} {t : Task} {o : PushOutcome} {v : Option Task}
    (h : Pushed q t q' o v) : q'.capacity = q.capacity := by
  cases h with
  | room _ hc _ _ => exact hc
  | full _ hc _ _ _ _ _ _ => exact hc

/-- The overflow counter counts the evicted tasks. -/
theorem Pushed.overflow_eq {q q' : PriorityQueue} {t : Task} {o : PushOutcome} {v : Option Task}
    (h : Pushed q t q' o v) : q'.overflow = q.overflow + UInt64.ofNat v.toList.length := by
  cases h with
  | room _ _ ho _ => rw [ho]; exact (UInt64.add_zero _).symm
  | full _ _ ho _ _ _ _ _ => exact ho

/-- With room, a push gives up nothing. -/
theorem Pushed.of_room {q q' : PriorityQueue} {t : Task} {o : PushOutcome} {v : Option Task}
    (h : Pushed q t q' o v) (hroom : q.len < q.capacity) :
    o = .ok ∧ q'.queued.Perm (t :: q.queued) := by
  cases h with
  | room _ _ _ hq => exact ⟨rfl, hq⟩
  | full hle _ _ _ _ _ _ _ => exact absurd hroom (Nat.not_lt.mpr hle)

/-- A push keeps the bound. -/
theorem Pushed.len_le {q q' : PriorityQueue} {t : Task} {o : PushOutcome} {v : Option Task}
    (h : Pushed q t q' o v) (hle : q.len ≤ q.capacity) : q'.len ≤ q'.capacity := by
  cases h with
  | room hlt hc _ hq =>
    have := hq.length_eq
    rw [List.length_cons, length_queued, length_queued] at this
    omega
  | full _ hc _ v rest hsplit _ hq =>
    have h1 := hq.length_eq
    have h2 := hsplit.length_eq
    rw [List.length_cons, length_queued] at h1 h2
    omega

theorem pop_eq_none {q : PriorityQueue} : q.pop = none ↔ q.queued = [] := by
  have hq : q.queued = [] ↔ q.inner.pop = none := by
    rw [BinaryHeap.pop_eq_none, queued, TaskHeap.tasks, List.map_eq_nil_iff]
  rw [hq, pop]
  cases q.inner.pop with
  | none => simp
  | some r => simp

/-- **`pop`** serves a task no other is served before, and keeps the others. -/
theorem pop_spec {q q' : PriorityQueue} {t : Task} (h : q.pop = some (t, q')) :
    q.queued.Perm (t :: q'.queued) ∧ (∀ y ∈ q.queued, ServedFirst t y) ∧
      q'.capacity = q.capacity ∧ q'.overflow = q.overflow := by
  rw [pop] at h
  cases hp : q.inner.pop with
  | none => rw [hp] at h; exact nomatch h
  | some r =>
    obtain ⟨p, rest⟩ := r
    rw [hp] at h
    obtain ⟨rfl, rfl⟩ := Prod.mk.inj (Option.some.inj h)
    obtain ⟨hperm, hmax⟩ := BinaryHeap.pop_eq_some hp
    refine ⟨hperm.map _, ?_, rfl, rfl⟩
    intro y hy
    obtain ⟨z, hz, rfl⟩ := List.mem_map.mp hy
    exact PrioritisedTask.le_iff.mp (hmax z hz)

theorem len_of_pop {q q' : PriorityQueue} {t : Task} (h : q.pop = some (t, q')) :
    q.len = q'.len + 1 := by
  rw [← length_queued, (pop_spec h).1.length_eq, List.length_cons, length_queued]

end PriorityQueue

end RtsPipeline.Threaded
