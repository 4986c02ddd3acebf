/-
  On traffic of one class the threaded priority queue is the drop-oldest ring.

  Among tasks of one class both orders of the heap are the order of time, so the task served next
  and the task given up are both the oldest one: the front of the ring.  The two are run here in
  lockstep, and after every operation they show the same, the length and the counter included.

  Where the heap keeps a task is its own affair, so the two cannot be compared place by place.
  `Mirror` compares the contents as a multiset and keeps the order on the side of the ring: there
  the tasks stand in order of time, as they came.  A heap that serves a task no younger than any
  other then has no choice but the front of the ring, since the times are strictly increasing and so
  the oldest task is unique.  With two tasks of one time this fails, and so does the statement.

  1. `Report`, `queueReport`, `ringReport` — what either shows after an operation.
  2. `Mirror` — the two in step; `Mirror.pop` and `Mirror.push` keep it, with equal reports.
  3. `single_class_alike` — so every history shows the same.
-/
import RtsPipeline.Core.Ring
import RtsPipeline.Equivalence.Scheduling
import RtsPipeline.Threaded.History

namespace RtsPipeline.Equivalence

open Lib Threaded

/-- What can be seen of a queue after an operation. -/
structure Report where
  shows : QueueShow
  len : Nat
  overflowCount : UInt64
deriving DecidableEq, Repr

/-- One operation on the heap. -/
def queueReport (q : PriorityQueue) (op : QueueOp) : Option (PriorityQueue × Report) :=
  (q.perform op).map fun r => (r.1, ⟨r.2, r.1.len, r.1.overflowCount⟩)

/-- One operation on the ring, and what it shows. -/
def ringPerform (r : DropOldestRing Task Unit) : QueueOp → DropOldestRing Task Unit × QueueShow
  | .push t => ((r.push t).1, .pushed (r.push t).2 r.dropped)
  | .pop =>
    match r.popFront with
    | none => (r, .popped none)
    | some (t, r') => (r', .popped (some t))

/-- One operation on the ring. -/
def ringReport (r : DropOldestRing Task Unit) (op : QueueOp) :
    Option (DropOldestRing Task Unit × Report) :=
  some ((ringPerform r op).1,
    ⟨(ringPerform r op).2, (ringPerform r op).1.len, (ringPerform r op).1.overflowCount⟩)

/-- The heap holds what the ring holds, of class `p`, in order of time and older than all that is
    still to be pushed.

    The last three fields speak of the operations to come.  They are what lets a push keep the
    order: the new task goes to the end of the ring, and it is the youngest because everything
    queued is older than all that is still to be pushed. -/
structure Mirror (C : Nat) (p : Priority) (q : PriorityQueue) (r : DropOldestRing Task Unit)
    (ops : List QueueOp) : Prop where
  capacity : q.capacity = C ∧ r.capacity = C
  same : q.queued.Perm r.queue
  bound : r.len ≤ C
  overflow : q.overflow = r.overflow
  queuedClass : ∀ x ∈ r.queue, x.priority = p
  pushedClass : ∀ x ∈ pushedTasks ops, x.priority = p
  queuedOrder : r.queue.Pairwise fun x y => x.enqueuedAt < y.enqueuedAt
  pushedOrder : Increasing ops
  older : ∀ x ∈ r.queue, ∀ y ∈ pushedTasks ops, x.enqueuedAt < y.enqueuedAt

theorem mirror_new {C : Nat} {p : Priority} {ops : List QueueOp}
    (hclass : ∀ x ∈ pushedTasks ops, x.priority = p) (hinc : Increasing ops) :
    Mirror C p (PriorityQueue.new C) (DropOldestRing.new C) ops where
  capacity := ⟨rfl, rfl⟩
  same := List.Perm.refl []
  bound := Nat.zero_le C
  overflow := rfl
  queuedClass := fun _ h => absurd h List.not_mem_nil
  pushedClass := hclass
  queuedOrder := List.Pairwise.nil
  pushedOrder := hinc
  older := fun _ h => absurd h List.not_mem_nil

theorem Mirror.len_eq {C : Nat} {p : Priority} {q : PriorityQueue}
    {r : DropOldestRing Task Unit} {ops : List QueueOp} (h : Mirror C p q r ops) :
    q.len = r.len := by
  have := h.same.length_eq
  rwa [PriorityQueue.length_queued] at this

/-- A task of the heap that is no younger than any of its class is the front of the ring.  Both what
    a pop serves and what a full heap evicts are such a task, so this is used twice. -/
theorem Mirror.front {C : Nat} {p : Priority} {q : PriorityQueue}
    {r : DropOldestRing Task Unit} {ops : List QueueOp} (h : Mirror C p q r ops) {x y : Task}
    {rest others : List Task} (hq : r.queue = y :: rest) (hsplit : q.queued.Perm (x :: others))
    (hfirst : ∀ z ∈ q.queued, x.priority = z.priority → x.enqueuedAt ≤ z.enqueuedAt) :
    x = y ∧ others.Perm rest := by
  have hx : x ∈ r.queue := h.same.mem_iff.mp (hsplit.mem_iff.mpr List.mem_cons_self)
  have hy : y ∈ r.queue := hq ▸ List.mem_cons_self
  have hle : x.enqueuedAt ≤ y.enqueuedAt := hfirst y (h.same.mem_iff.mpr hy)
    ((h.queuedClass x hx).trans (h.queuedClass y hy).symm)
  obtain rfl := eq_head_of_le (hq ▸ h.queuedOrder) (hq ▸ hx) hle
  have hsame := h.same
  rw [hq] at hsame
  exact ⟨rfl, (hsplit.symm.trans hsame).cons_inv⟩

/-- **Step lemma**, pop: both serve the oldest task. -/
theorem Mirror.pop {C : Nat} {p : Priority} {q : PriorityQueue} {r : DropOldestRing Task Unit}
    {ops : List QueueOp} (h : Mirror C p q r (.pop :: ops)) :
    ∃ o q' r', queueReport q .pop = some (q', o) ∧ ringReport r .pop = some (r', o) ∧
      Mirror C p q' r' ops := by
  have hlen := h.len_eq
  cases hr : r.queue with
  | nil =>
    have hnone : q.pop = none := by
      refine PriorityQueue.pop_eq_none.mpr (List.Perm.nil_eq ?_).symm
      have := h.same.symm
      rwa [hr] at this
    refine ⟨⟨.popped none, q.len, q.overflowCount⟩, q, r, ?_, ?_, ?_⟩
    · rw [queueReport, PriorityQueue.perform, hnone]; rfl
    · rw [ringReport, ringPerform, DropOldestRing.popFront, hr, hlen,
        PriorityQueue.overflowCount, h.overflow]
      rfl
    · exact ⟨h.capacity, h.same, h.bound, h.overflow, h.queuedClass, h.pushedClass, h.queuedOrder,
        h.pushedOrder, h.older⟩
  | cons y rest =>
    cases hp : q.pop with
    | none =>
      have hsame := h.same
      rw [PriorityQueue.pop_eq_none.mp hp, hr] at hsame
      exact absurd hsame.length_eq (by simp)
    | some z =>
      obtain ⟨x, q'⟩ := z
      obtain ⟨hperm, hfirst, hcap, hover⟩ := PriorityQueue.pop_spec hp
      -- of one class the heap serves the oldest, which is the front of the ring
      obtain ⟨rfl, hrest⟩ := h.front hr hperm fun z hz he =>
        (hfirst z hz).elim (fun hlt => absurd he (ne_of_lt hlt)) And.right
      have hlen' : q'.len = rest.length := by
        rw [← PriorityQueue.length_queued, hrest.length_eq]
      refine ⟨⟨.popped (some x), q'.len, q'.overflowCount⟩, q', { r with queue := rest },
        ?_, ?_, ?_⟩
      · rw [queueReport, PriorityQueue.perform, hp]; rfl
      · rw [ringReport, ringPerform, DropOldestRing.popFront, hr, hlen',
          PriorityQueue.overflowCount, hover, h.overflow]
        rfl
      · have hmem : ∀ z ∈ rest, z ∈ r.queue := fun z hz => hr ▸ List.mem_cons_of_mem _ hz
        constructor
        · exact ⟨hcap.trans h.capacity.1, h.capacity.2⟩
        · exact hrest
        · have := h.bound
          rw [DropOldestRing.len, hr] at this
          exact Nat.le_of_succ_le this
        · exact hover.trans h.overflow
        · exact fun z hz => h.queuedClass z (hmem z hz)
        · exact h.pushedClass
        · exact (List.pairwise_cons.mp (hr ▸ h.queuedOrder)).2
        · exact h.pushedOrder
        · exact fun z hz => h.older z (hmem z hz)

/-- On a push the two agree on the outcome, the task given up, the tasks kept and the counter. -/
theorem Mirror.push_agrees {C : Nat} (hC : 0 < C) {p : Priority} {q q' : PriorityQueue}
    {r : DropOldestRing Task Unit} {ops : List QueueOp} {t : Task} {o : PushOutcome}
    (h : Mirror C p q r ops) (hpushed : PriorityQueue.Pushed q t q' o q.victim) :
    o = (r.push t).2 ∧ q.victim = r.dropped ∧ q'.queued.Perm (r.push t).1.queue ∧
      q'.overflow = (r.push t).1.overflow := by
  have hlen := h.len_eq
  generalize q.victim = v at hpushed
  have hqueue : (r.push t).1.queue = if r.queue.length = r.capacity then r.queue.tail ++ [t]
      else r.queue ++ [t] := by
    unfold DropOldestRing.push
    split <;> rfl
  -- the two have one length, so both have room or neither has
  cases hpushed with
  | room lt _ overflow queued =>
    have hroom : r.queue.length ≠ r.capacity := by
      rw [h.capacity.1] at lt
      rw [h.capacity.2]
      exact fun he => absurd (hlen.trans he) (Nat.ne_of_lt lt)
    rw [if_neg hroom] at hqueue
    rw [hqueue, DropOldestRing.push_of_room hroom, DropOldestRing.dropped, if_neg hroom]
    exact ⟨rfl, rfl, queued.trans ((h.same.cons t).trans (List.perm_append_singleton _ _).symm),
      overflow.trans h.overflow⟩
  | full le _ overflow v rest split worst queued =>
    have hfull : r.queue.length = r.capacity := by
      have h1 := h.bound
      rw [h.capacity.1, hlen] at le
      rw [h.capacity.2]
      exact Nat.le_antisymm h1 le
    rw [if_pos hfull] at hqueue
    cases hr : r.queue with
    | nil =>
      rw [hr, List.length_nil, h.capacity.2] at hfull
      omega
    | cons y rest' =>
      -- what the heap evicts is oldest in its class, and that is the front again
      obtain ⟨rfl, hrest⟩ := h.front hr split fun z hz he =>
        (worst z hz).elim (fun hlt => absurd he (ne_of_gt hlt)) And.right
      rw [hqueue, DropOldestRing.push, if_pos hfull, DropOldestRing.dropped, if_pos hfull, hr]
      refine ⟨rfl, rfl, ?_, by rw [overflow, h.overflow]⟩
      exact queued.trans ((hrest.cons t).trans (List.perm_append_singleton _ _).symm)

/-- **Step lemma**, push: both give up the oldest task when they are full. -/
theorem Mirror.push {C : Nat} (hC : 0 < C) {p : Priority} {q : PriorityQueue}
    {r : DropOldestRing Task Unit} {ops : List QueueOp} {t : Task}
    (h : Mirror C p q r (.push t :: ops)) :
    ∃ o q' r', queueReport q (.push t) = some (q', o) ∧ ringReport r (.push t) = some (r', o) ∧
      Mirror C p q' r' ops := by
  obtain ⟨q', o, hpush, hpushed⟩ := q.push_spec t (by rw [h.capacity.1]; exact hC)
  have hcap' := hpushed.capacity_eq
  have hperform : q.perform (.push t) = some (q', .pushed o q.victim) := by
    rw [PriorityQueue.perform, hpush]; rfl
  obtain ⟨ho, hv, hq, hov⟩ := h.push_agrees hC hpushed
  have hlen' : q'.len = (r.push t).1.len := by
    rw [← PriorityQueue.length_queued, hq.length_eq]
    rfl
  have hpos : 0 < r.capacity := by rw [h.capacity.2]; exact hC
  refine ⟨⟨.pushed o q.victim, q'.len, q'.overflowCount⟩, q', (r.push t).1, ?_, ?_, ?_⟩
  · rw [queueReport, hperform]; rfl
  · rw [ringReport, ringPerform, ho, hv, hlen', PriorityQueue.overflowCount, hov]
    rfl
  -- what is queued now was queued before or has just come
  · have hmem : ∀ z ∈ (r.push t).1.queue, z ∈ r.queue ∨ z = t := fun z hz =>
      DropOldestRing.mem_push hz
    have hnew := h.pushedClass t List.mem_cons_self
    have hlater : ∀ y ∈ pushedTasks ops, t.enqueuedAt < y.enqueuedAt :=
      (List.pairwise_cons.mp h.pushedOrder).1
    constructor
    · exact ⟨hcap'.trans h.capacity.1, (r.push_capacity t).trans h.capacity.2⟩
    · exact hq
    · have := r.push_len_le t hpos (by rw [h.capacity.2]; exact h.bound)
      rwa [DropOldestRing.push_capacity, h.capacity.2] at this
    · exact hov
    · intro z hz
      rcases hmem z hz with hz | rfl
      · exact h.queuedClass z hz
      · exact hnew
    · exact fun z hz => h.pushedClass z (List.mem_cons_of_mem _ hz)
    · -- what the ring keeps is a tail of the old queue and the new task
      have hord := pairwise_snoc h.queuedOrder fun x hx => h.older x hx t List.mem_cons_self
      rw [r.push_conserve t] at hord
      exact (List.pairwise_append.mp hord).2.1
    · exact (List.pairwise_cons.mp h.pushedOrder).2
    · intro z hz y hy
      rcases hmem z hz with hz | rfl
      · exact h.older z hz y (List.mem_cons_of_mem _ hy)
      · exact hlater y hy

/-- **On single-class traffic the queue is the ring.**  For every positive capacity and every
    history of pushes and pops whose tasks have one class and strictly increasing times, both run
    through without a panic, and after every operation they show the same outcome, the same task
    served or evicted, the same length and the same `overflow_count`.

    In one class the heap is ordered by time and the ring by arrival, and with increasing times
    these are the same.  `Mirror` says so of the two states, and every operation keeps it. -/
theorem single_class_alike (C : Nat) (hC : 0 < C) (p : Priority) (ops : List QueueOp)
    (hclass : ∀ t ∈ pushedTasks ops, t.priority = p) (hinc : Increasing ops) :
    ∃ q r reports, trace queueReport (PriorityQueue.new C) ops = some (q, reports) ∧
      trace ringReport (DropOldestRing.new C) ops = some (r, reports) := by
  refine trace_lockstep (R := Mirror C p) (fun q r op ops h => ?_) ops _ _ (mirror_new hclass hinc)
  cases op with
  | push t => exact h.push hC
  | pop => exact h.pop

/-- Three Bots through a capacity of two. -/
theorem single_class_alike_bots :
    let task := fun (time : Nat) =>
      ({ event := { user := "u", bot := true, serverName := "w" }
         priority := .bot, enqueuedAt := time } : Task)
    let ops := [.push (task 1), .push (task 2), .push (task 3), .pop, .pop, .pop]
    Increasing ops ∧
      ∃ q r reports, trace queueReport (PriorityQueue.new 2) ops = some (q, reports) ∧
        trace ringReport (DropOldestRing.new 2) ops = some (r, reports) := by
  intro task ops
  exact ⟨by decide, single_class_alike 2 (by decide) .bot ops (by decide) (by decide)⟩

end RtsPipeline.Equivalence
