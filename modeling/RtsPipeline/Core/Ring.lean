/-
  `rts-core/src/channel/ring.rs`: the bounded drop-oldest ring buffer.

  `push` and `pop_blocking` hold the queue mutex throughout, and `push` calls `notify_one` under it,
  so each is one function of the ring (a `push` and the notification it makes cannot be told apart
  by a consumer, who needs the mutex to see the item).

  `pop_async` is not atomic.  It is a loop of three steps, and everything may happen in between:
  create the future of `notified()`, look at the queue under the mutex, poll the future.  `PopPc`
  says where a consumer stands in that loop and `popAsync` makes its next step.  The condition
  variable has no state of its own.
-/
import RtsPipeline.Core.Task
import RtsPipeline.Lib.Notify

namespace RtsPipeline

open Lib

/-- `DropOldestRing<T>`, with the identities `ι` of its consumers. -/
structure DropOldestRing (α ι : Type) where
  queue : List α
  capacity : Nat
  overflow : UInt64
  notify : Notify ι

/-- Where a consumer stands in `pop_async`. -/
inductive PopPc
  | create    -- top of the loop: about to call `notified()`
  | check     -- about to look at the queue
  | arm       -- found it empty: about to poll the future for the first time
  | parked    -- the future is registered
deriving DecidableEq, Repr

/-- What a step of `pop_async` comes to. -/
inductive PopPoll (α : Type)
  | goto (pc : PopPc)      -- the poll goes on
  | ready (item : α)       -- `return item`
  | pending                -- the poll returns `Pending`; the future stays registered
deriving DecidableEq, Repr

namespace DropOldestRing

variable {α ι : Type}

/-- `DropOldestRing::new`. -/
def new (capacity : Nat) : DropOldestRing α ι :=
  { queue := [], capacity := capacity, overflow := 0, notify := Notify.new }

/-- `DropOldestRing::push`. -/
def push (r : DropOldestRing α ι) (item : α) : DropOldestRing α ι × PushOutcome :=
  if r.queue.length = r.capacity then
    ({ r with
      queue := r.queue.tail ++ [item]
      overflow := r.overflow + 1
      notify := r.notify.notifyOne }, .droppedOldest)
  else
    ({ r with
      queue := r.queue ++ [item]
      notify := r.notify.notifyOne }, .ok)

/-- The item `push` drops, which the source discards. -/
def dropped (r : DropOldestRing α ι) : Option α :=
  if r.queue.length = r.capacity then r.queue.head? else none

/-- The `pop_front` inside `pop_blocking` and `pop_async`. -/
def popFront (r : DropOldestRing α ι) : Option (α × DropOldestRing α ι) :=
  match r.queue with
  | [] => none
  | item :: rest => some (item, { r with queue := rest })

/-- `DropOldestRing::overflow_count`. -/
def overflowCount (r : DropOldestRing α ι) : UInt64 := r.overflow

/-- `DropOldestRing::len`. -/
def len (r : DropOldestRing α ι) : Nat := r.queue.length

variable [DecidableEq ι]

/-- The next step of consumer `i` in `pop_async`. -/
def popAsync (r : DropOldestRing α ι) (i : ι) : PopPc → PopPoll α × DropOldestRing α ι
  | .create => (.goto .check, r)
  -- the lock is held for the look only
  | .check =>
    match r.popFront with
    | some (item, r') => (.ready item, r')
    | none => (.goto .arm, r)
  -- the first poll of `notified()`
  | .arm =>
    if r.notify.permit then (.goto .create, { r with notify := r.notify.consume })
    else (.pending, { r with notify := r.notify.register i })
  -- and every later one
  | .parked =>
    if i ∈ r.notify.notified then (.goto .create, { r with notify := r.notify.acknowledge i })
    else (.pending, r)

/-- Drop the future of consumer `i` (`select!` dropping a branch that lost). -/
def cancelPop (r : DropOldestRing α ι) (i : ι) : DropOldestRing α ι :=
  { r with notify := r.notify.dropFuture i }

/-! ## `push`

All that other modules use of `push`: what it does to the contents, to the length, to the counter
and to the notification.  `push_conserve` is the one equation about the contents, for any
capacity. -/

omit [DecidableEq ι]

@[simp] theorem push_notify (r : DropOldestRing α ι) (item : α) :
    (r.push item).1.notify = r.notify.notifyOne := by
  unfold push; split <;> rfl

@[simp] theorem push_capacity (r : DropOldestRing α ι) (item : α) :
    (r.push item).1.capacity = r.capacity := by
  unfold push; split <;> rfl

theorem push_ne_nil (r : DropOldestRing α ι) (item : α) : (r.push item).1.queue ≠ [] := by
  unfold push; split <;> simp

theorem push_of_room {r : DropOldestRing α ι} {item : α} (h : r.queue.length ≠ r.capacity) :
    r.push item =
      ({ r with
        queue := r.queue ++ [item]
        notify := r.notify.notifyOne }, .ok) := if_neg h

theorem push_of_empty {r : DropOldestRing α ι} (item : α) (h : r.queue = []) :
    (r.push item).1.queue = [item] := by
  unfold push; split <;> simp [h]

theorem mem_push {r : DropOldestRing α ι} {item x : α} (h : x ∈ (r.push item).1.queue) :
    x ∈ r.queue ∨ x = item := by
  unfold push at h
  split at h
  · rcases List.mem_append.mp h with h | h
    · exact Or.inl (List.mem_of_mem_tail h)
    · exact Or.inr (List.mem_singleton.mp h)
  · rcases List.mem_append.mp h with h | h
    · exact Or.inl h
    · exact Or.inr (List.mem_singleton.mp h)

/-- The queue and the pushed item, in order, are the dropped item and the new queue. -/
theorem push_conserve (r : DropOldestRing α ι) (item : α) :
    r.queue ++ [item] = r.dropped.toList ++ (r.push item).1.queue := by
  unfold push dropped
  by_cases h : r.queue.length = r.capacity
  · rw [if_pos h, if_pos h]
    cases hq : r.queue with
    | nil => rfl
    | cons x xs => rfl
  · rw [if_neg h, if_neg h]; rfl

theorem push_len_le (r : DropOldestRing α ι) (item : α) (hC : 0 < r.capacity)
    (h : r.len ≤ r.capacity) : (r.push item).1.len ≤ (r.push item).1.capacity := by
  rw [push_capacity]
  unfold push len at *
  split
  · simp only [List.length_append, List.length_tail, List.length_singleton]; omega
  · simp only [List.length_append, List.length_singleton]; omega

theorem push_len_le_succ (r : DropOldestRing α ι) (item : α) :
    (r.push item).1.len ≤ r.len + 1 := by
  unfold push len
  split
  · simp only [List.length_append, List.length_tail, List.length_singleton]; omega
  · simp only [List.length_append, List.length_singleton]; omega

/-- Short of its capacity, the ring grows. -/
theorem le_push_len (r : DropOldestRing α ι) (item : α) :
    min (r.len + 1) r.capacity ≤ (r.push item).1.len := by
  unfold push len
  split
  · simp only [List.length_append, List.length_tail, List.length_singleton]; omega
  · simp only [List.length_append, List.length_singleton]; omega

/-- `DroppedOldest` is returned exactly when the ring was full, and counted. -/
theorem push_outcome (r : DropOldestRing α ι) (item : α) :
    ((r.push item).2 = .droppedOldest ↔ r.len = r.capacity) ∧
      (r.push item).1.overflow =
        r.overflow + (if (r.push item).2 = .droppedOldest then 1 else 0) := by
  unfold push len
  split
  · rename_i h; simp [h]
  · rename_i h; simp [h]

/-- The overflow counter counts the dropped items. -/
theorem push_overflow (r : DropOldestRing α ι) (item : α) (hC : 0 < r.capacity) :
    (r.push item).1.overflow = r.overflow + UInt64.ofNat r.dropped.toList.length := by
  unfold push dropped
  by_cases h : r.queue.length = r.capacity
  · rw [if_pos h, if_pos h]
    cases hq : r.queue with
    | nil => rw [hq, List.length_nil] at h; omega
    | cons x xs => rfl
  · rw [if_neg h, if_neg h]
    exact (UInt64.add_zero _).symm

end DropOldestRing

end RtsPipeline
