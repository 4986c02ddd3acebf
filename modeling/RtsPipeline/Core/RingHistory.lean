/-
  Histories of `DropOldestRing`: any number of producers and consumers, blocking or async.

  Producers and blocking consumers have no state between their calls, so a call of theirs is one
  event.  An async consumer stands somewhere in `pop_async`, calls it again when it returned, and
  may drop it at any time.  Of all these steps only a push and a successful pop touch the queue.

  The log keeps what left the queue in the order it left, with the reason.  One equation says it
  all: the items pushed are the items that left, in that order, and then the queue.
-/
import Mathlib.Data.List.Basic
import RtsPipeline.Core.Ring
import RtsPipeline.Lib.Run

namespace RtsPipeline

open Lib

/-- Why an item left the queue. -/
inductive Leave
  | popped
  | evicted
deriving DecidableEq, Repr

/-- What happened so far.  No step depends on it. -/
structure RingLog (α : Type) where
  pushed : List α
  left : List (α × Leave)
  outcomes : List PushOutcome

/-- The items that left for this reason, in order. -/
def RingLog.leftBy {α : Type} (log : RingLog α) (why : Leave) : List α :=
  (log.left.filter fun x => x.2 = why).map Prod.fst

/-- A ring in use: where its `N` async consumers stand, and the log. -/
structure RingHistory (α : Type) (N : Nat) where
  ring : DropOldestRing α (Fin N)
  pcs : Fin N → PopPc
  log : RingLog α

/-- One atomic step of an interleaving. -/
inductive RingCall (α : Type) (N : Nat)
  | push (item : α)
  | popBlocking             -- the look at the queue of a blocking consumer that finds an item
  | poll (i : Fin N)        -- the next step of an async consumer
  | cancel (i : Fin N)      -- an async consumer drops its `pop_async`

namespace RingHistory

variable {α : Type} {N : Nat}

/-- An empty ring, every async consumer about to call `pop_async`. -/
def start (α : Type) (N capacity : Nat) : RingHistory α N :=
  { ring := DropOldestRing.new capacity
    pcs := fun _ => .create
    log := { pushed := [], left := [], outcomes := [] } }

/-- A push. -/
def push (s : RingHistory α N) (item : α) : RingHistory α N :=
  { s with
    ring := (s.ring.push item).1
    log :=
      { pushed := s.log.pushed ++ [item]
        left := s.log.left ++ s.ring.dropped.toList.map fun x => (x, .evicted)
        outcomes := s.log.outcomes ++ [(s.ring.push item).2] } }

/-- One step of an interleaving; `none` when it is not enabled. -/
def step (s : RingHistory α N) : RingCall α N → Option (RingHistory α N)
  | .push item => some (s.push item)
  | .popBlocking =>
    s.ring.popFront.map fun r =>
      { s with ring := r.2, log := { s.log with left := s.log.left ++ [(r.1, .popped)] } }
  | .poll i =>
    match s.ring.popAsync i (s.pcs i) with
    | (.goto pc, r) => some { s with ring := r, pcs := Function.update s.pcs i pc }
    | (.pending, r) => some { s with ring := r, pcs := Function.update s.pcs i .parked }
    | (.ready item, r) =>
      some { ring := r
             pcs := Function.update s.pcs i .create
             log := { s.log with left := s.log.left ++ [(item, .popped)] } }
  | .cancel i => some { s with ring := s.ring.cancelPop i, pcs := Function.update s.pcs i .create }

/-! ## What a step can do

There are many steps, and three things they do to the queue: a push, a pop, nothing.  Where the
async consumers stand and who was woken has no influence on the account, so `Moved` leaves it
out. -/

/-- What one step does to the queue, the counter and the log. -/
inductive Moved (s : RingHistory α N) : RingCall α N → RingHistory α N → Prop
  | push (item : α) : Moved s (.push item) (s.push item)
  | popped {e : RingCall α N} {s' : RingHistory α N} (item : α) (rest : List α)
      (queue : s.ring.queue = item :: rest) (queue' : s'.ring.queue = rest)
      (capacity : s'.ring.capacity = s.ring.capacity)
      (overflow : s'.ring.overflow = s.ring.overflow)
      (log : s'.log = { s.log with left := s.log.left ++ [(item, .popped)] }) : Moved s e s'
  | silent {e : RingCall α N} {s' : RingHistory α N} (queue : s'.ring.queue = s.ring.queue)
      (capacity : s'.ring.capacity = s.ring.capacity)
      (overflow : s'.ring.overflow = s.ring.overflow) (log : s'.log = s.log) : Moved s e s'

theorem popFront_eq_some {r r' : DropOldestRing α (Fin N)} {item : α}
    (h : r.popFront = some (item, r')) :
    ∃ rest, r.queue = item :: rest ∧ r' = { r with queue := rest } := by
  unfold DropOldestRing.popFront at h
  cases hq : r.queue with
  | nil => rw [hq] at h; exact nomatch h
  | cons x rest =>
    rw [hq] at h
    obtain ⟨rfl, rfl⟩ := Prod.mk.inj (Option.some.inj h)
    exact ⟨rest, rfl, rfl⟩

/-- What a step of `pop_async` does to the ring: it takes the front item, or changes the
    notification at most. -/
inductive Polled (r : DropOldestRing α (Fin N)) :
    PopPoll α → DropOldestRing α (Fin N) → Prop
  | ready (item : α) (rest : List α) (queue : r.queue = item :: rest) :
      Polled r (.ready item) { r with queue := rest }
  | goto (pc : PopPc) (n : Notify (Fin N)) : Polled r (.goto pc) { r with notify := n }
  | pending (n : Notify (Fin N)) : Polled r .pending { r with notify := n }

/-- A poll looks at the queue in one place only; in the others the ring changes in its `Notify`, if
    at all. -/
theorem polled (r : DropOldestRing α (Fin N)) (i : Fin N) (pc : PopPc) :
    Polled r (r.popAsync i pc).1 (r.popAsync i pc).2 := by
  cases pc with
  | create => exact .goto .check r.notify
  | check =>
    cases hpop : r.popFront with
    | none =>
      simp only [DropOldestRing.popAsync, hpop]
      exact .goto .arm r.notify
    | some x =>
      obtain ⟨item, r'⟩ := x
      obtain ⟨rest, hq, rfl⟩ := popFront_eq_some hpop
      simp only [DropOldestRing.popAsync, hpop]
      exact .ready item rest hq
  | arm =>
    simp only [DropOldestRing.popAsync]
    split
    · exact .goto .create _
    · exact .pending _
  | parked =>
    simp only [DropOldestRing.popAsync]
    split
    · exact .goto .create _
    · exact .pending r.notify

theorem moved_of_step {s s' : RingHistory α N} {e : RingCall α N} (h : s.step e = some s') :
    Moved s e s' := by
  cases e with
  | push item => obtain rfl := Option.some.inj h; exact .push item
  | cancel i => obtain rfl := Option.some.inj h; exact .silent rfl rfl rfl rfl
  | popBlocking =>
    obtain ⟨⟨item, r⟩, hpop, rfl⟩ := Option.map_eq_some_iff.mp h
    obtain ⟨rest, hq, rfl⟩ := popFront_eq_some hpop
    exact .popped item rest hq rfl rfl rfl rfl
  | poll i =>
    have hp := polled s.ring i (s.pcs i)
    simp only [step] at h
    generalize s.ring.popAsync i (s.pcs i) = x at h hp
    obtain ⟨poll, r⟩ := x
    cases hp with
    | ready item rest queue =>
      obtain rfl := Option.some.inj h
      exact .popped item rest queue rfl rfl rfl rfl
    | goto pc n => obtain rfl := Option.some.inj h; exact .silent rfl rfl rfl rfl
    | pending n => obtain rfl := Option.some.inj h; exact .silent rfl rfl rfl rfl

/-! ## The account of a history

Order is the whole content of a FIFO, and here it is one equation of lists.  Every step moves an
item across one of the two seams of `left ++ queue`, or adds one at the end, and the equation is
kept by associativity.  A popped item and an evicted one leave at the same end: this is what makes
an eviction lose the oldest. -/

/-- The items pushed are the items that left, in that order, and then the queue; the queue is within
    its capacity; the counter counts the dropping pushes, and each dropped one item. -/
structure Accounted (C : Nat) (s : RingHistory α N) : Prop where
  capacity : s.ring.capacity = C
  order : s.log.pushed = s.log.left.map Prod.fst ++ s.ring.queue
  bound : s.ring.len ≤ C
  overflow : s.ring.overflowCount = UInt64.ofNat (s.log.outcomes.count .droppedOldest)
  drops : (s.log.leftBy .evicted).length = s.log.outcomes.count .droppedOldest

theorem accounted_start (α : Type) (N C : Nat) : Accounted C (start α N C) where
  capacity := rfl
  order := rfl
  bound := Nat.zero_le C
  overflow := rfl
  drops := rfl

/-- A popped item is logged as popped, and as nothing else. -/
theorem leftBy_popped (log : RingLog α) (item : α) (why : Leave) :
    ({ log with left := log.left ++ [(item, .popped)] } : RingLog α).leftBy why =
      log.leftBy why ++ if why = .popped then [item] else [] := by
  cases why <;> simp [RingLog.leftBy]

/-- What a push evicts is logged as evicted, and as nothing else. -/
theorem leftBy_push (s : RingHistory α N) (item : α) (why : Leave) :
    (s.push item).log.leftBy why =
      s.log.leftBy why ++ if why = .evicted then s.ring.dropped.toList else [] := by
  cases hd : s.ring.dropped <;> cases why <;> simp [RingLog.leftBy, push, hd]

/-- A push drops an item exactly when it says so. -/
theorem length_dropped (r : DropOldestRing α (Fin N)) (item : α) (hC : 0 < r.capacity) :
    r.dropped.toList.length = [(r.push item).2].count .droppedOldest := by
  unfold DropOldestRing.push DropOldestRing.dropped
  by_cases h : r.queue.length = r.capacity
  · rw [if_pos h, if_pos h]
    cases hq : r.queue with
    | nil => rw [hq, List.length_nil] at h; omega
    | cons x rest => rfl
  · rw [if_neg h, if_neg h]; rfl

/-- **Step lemma** for `Accounted`. -/
theorem Accounted.step {C : Nat} (hC : 0 < C) {s s' : RingHistory α N} {e : RingCall α N}
    (h : Accounted C s) (hs : Moved s e s') : Accounted C s' := by
  cases hs with
  | silent queue capacity overflow log =>
    obtain ⟨hc, ho, hb, hov, hd⟩ := h
    constructor
    · rw [capacity]; exact hc
    · rw [log, queue]; exact ho
    · rw [DropOldestRing.len, queue]; exact hb
    · rw [DropOldestRing.overflowCount, overflow, log]; exact hov
    · rw [log]; exact hd
  | popped item rest queue queue' capacity overflow log =>
    obtain ⟨hc, ho, hb, hov, hd⟩ := h
    constructor
    · rw [capacity]; exact hc
    · -- the front of the queue goes to the end of what left
      rw [log, queue', List.map_append, List.append_assoc]
      rw [queue] at ho
      exact ho
    · rw [DropOldestRing.len, queue] at hb
      rw [DropOldestRing.len, queue']
      exact Nat.le_of_succ_le hb
    · rw [DropOldestRing.overflowCount, overflow, log]; exact hov
    · rw [log, leftBy_popped, if_neg (by decide), List.append_nil]; exact hd
  -- the item dropped goes to the end of what left, and the new one to the end of the queue
  | push item =>
    have hpos : 0 < s.ring.capacity := by rw [h.capacity]; exact hC
    have hlen := length_dropped s.ring item hpos
    constructor
    · exact (s.ring.push_capacity item).trans h.capacity
    · show s.log.pushed ++ [item] = List.map Prod.fst (s.log.left ++ _) ++ _
      rw [h.order, List.append_assoc, s.ring.push_conserve item, List.map_append,
        List.map_map, List.append_assoc]
      congr 2
      exact (List.map_id _).symm
    · have := s.ring.push_len_le item hpos (by rw [h.capacity]; exact h.bound)
      rw [DropOldestRing.push_capacity, h.capacity] at this
      exact this
    · show (s.ring.push item).1.overflow = _
      rw [s.ring.push_overflow item hpos, hlen]
      show s.ring.overflowCount + _ = UInt64.ofNat ((s.log.outcomes ++ [_]).count _)
      rw [h.overflow, List.count_append, UInt64.ofNat_add]
    · rw [leftBy_push, if_pos rfl, List.length_append, h.drops, hlen]
      exact (List.count_append ..).symm

/-- **The ring is a FIFO that loses its oldest items only.**  After any interleaving of pushes and
    pops by any number of producers and consumers:

    * the items pushed are the ones that left, popped or evicted, in the order they left, followed
      by the queue; the queue has at most `C` of them, and the popped ones come in push order;
    * each item pushed was popped, evicted or is queued, once;
    * the next push returns `DroppedOldest` exactly when the ring holds `C` items, and then evicts
      the oldest item that has not left;
    * `overflow_count` is the number of `DroppedOldest` outcomes, and so many items were evicted.

    One equation carries the proof: what was pushed is what left, in the order it left, followed by
    the queue.  Each step moves the border between the two, or adds an item at the end. -/
theorem ring_fifo (α : Type) (N C : Nat) (hC : 0 < C) (ls : List (RingCall α N))
    (s : RingHistory α N) (h : run step (start α N C) ls = some s) :
    s.log.pushed = s.log.left.map Prod.fst ++ s.ring.queue ∧
    s.ring.len ≤ C ∧
    (s.log.leftBy .popped).Sublist s.log.pushed ∧
    s.log.pushed.Perm (s.log.leftBy .popped ++ s.log.leftBy .evicted ++ s.ring.queue) ∧
    (∀ item, ((s.ring.push item).2 = .droppedOldest ↔ s.ring.len = C) ∧
      (s.push item).log.leftBy .evicted = s.log.leftBy .evicted ++
        if s.ring.len = C then s.log.pushed[s.log.left.length]?.toList else []) ∧
    s.ring.overflowCount = UInt64.ofNat (s.log.outcomes.count .droppedOldest) ∧
    (s.log.leftBy .evicted).length = s.log.outcomes.count .droppedOldest := by
  have ha : Accounted C s :=
    run_invariant (fun _ _ _ hI hs => hI.step hC (moved_of_step hs)) ls _ s (accounted_start α N C)
      h
  refine ⟨ha.order, ha.bound, ?_, ?_, fun item => ⟨?_, ?_⟩, ha.overflow, ha.drops⟩
  · rw [ha.order]
    exact ((List.filter_sublist).map Prod.fst).trans (List.sublist_append_left _ _)
  · rw [ha.order]
    apply List.Perm.append_right
    unfold RingLog.leftBy
    rw [← List.map_append]
    apply List.Perm.map
    have hnot : (s.log.left.filter fun x => x.2 = .evicted) =
        s.log.left.filter fun x => !decide (x.2 = .popped) := by
      refine List.filter_congr fun x _ => ?_
      cases x.2 <;> rfl
    rw [hnot]
    exact (List.filter_append_perm _ _).symm
  · rw [← ha.capacity]
    exact (s.ring.push_outcome item).1
  · rw [leftBy_push, if_pos rfl]
    congr 1
    -- the front of the queue is the oldest item that has not left
    have hfront : s.log.pushed[s.log.left.length]? = s.ring.queue.head? := by
      rw [ha.order, List.getElem?_append_right (by rw [List.length_map]), List.length_map,
        Nat.sub_self, List.head?_eq_getElem?]
    rw [hfront, DropOldestRing.dropped, DropOldestRing.len, ha.capacity]
    split <;> rfl

/-- Three pushes into a ring of two, a blocking pop and an async one. -/
theorem ring_fifo_two :
    ∃ s, run step (start Nat 1 2)
        [.push 1, .push 2, .push 3, .popBlocking, .poll 0, .poll 0] = some s ∧
      s.log.leftBy .evicted = [1] ∧ s.log.leftBy .popped = [2, 3] ∧
      (s.log.leftBy .popped).Sublist s.log.pushed := by
  obtain ⟨s, hs, he, hp⟩ : ∃ s, run step (start Nat 1 2)
      [.push 1, .push 2, .push 3, .popBlocking, .poll 0, .poll 0] = some s ∧
      s.log.leftBy .evicted = [1] ∧ s.log.leftBy .popped = [2, 3] := ⟨_, rfl, rfl, rfl⟩
  exact ⟨s, hs, he, hp, (ring_fifo Nat 1 2 (by decide) _ s hs).2.2.1⟩

end RingHistory

end RtsPipeline
