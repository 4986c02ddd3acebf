/-
  The threaded priority queue refines a bounded bag.

  The reference is stated without heaps and comparisons: what may be served next, and what may be
  given up, in the words of the module's documentation.  The queue keeps two orders over one heap,
  turns one of them over for the heap and the other for the eviction; each of its operations is a
  step of the reference all the same, for any timestamps, equal ones included.

  The reference may choose among tasks of one time, and the queue does choose: which one depends on
  the shape of the heap.  This is what a refinement leaves open, and what `fifo_within_class_tie`
  shows to be more than a formality.
-/
import RtsPipeline.Lib.BoundedBag
import RtsPipeline.Threaded.History

namespace RtsPipeline.Threaded

open Lib

/-- `t` may be served next: no Human before it is older, and it is a Bot only when all are, the
    oldest then. -/
def NextServed (bag : Multiset Task) (t : Task) : Prop :=
  (t.priority = .human → ∀ y ∈ bag, y.priority = .human → t.enqueuedAt ≤ y.enqueuedAt) ∧
    (t.priority = .bot → ∀ y ∈ bag, y.priority = .bot ∧ t.enqueuedAt ≤ y.enqueuedAt)

/-- `v` may be given up: the oldest of the Bots if there is one, else the oldest of the Humans. -/
def WorstOf (bag : Multiset Task) (v : Task) : Prop :=
  (v.priority = .bot → ∀ y ∈ bag, y.priority = .bot → v.enqueuedAt ≤ y.enqueuedAt) ∧
    (v.priority = .human → ∀ y ∈ bag, y.priority = .human ∧ v.enqueuedAt ≤ y.enqueuedAt)

/-- The operation, for the reference. -/
def QueueOp.toBag : QueueOp → BagOp Task
  | .push t => .push t
  | .pop => .pop

/-- What it shows, for the reference. -/
def QueueShow.toBag : QueueShow → BagShow Task
  | .pushed _ evicted => .pushed evicted
  | .popped task => .popped task

/-- The operation was answered with `DroppedOldest`. -/
def QueueShow.dropped : QueueShow → Bool
  | .pushed outcome _ => outcome == .droppedOldest
  | .popped _ => false

/-! ## One operation

The words of the documentation and the comparisons of the code meet here.  The code compares pairs
of an ordinal and a time; the documentation speaks of classes and of the oldest. -/

theorem nextServed_of_servedFirst {l : List Task} {t : Task} (h : ∀ y ∈ l, ServedFirst t y) :
    NextServed l t := by
  constructor
  · intro ht y hy hyh
    rcases h y hy with hlt | ⟨_, hle⟩
    · rw [ht, hyh] at hlt
      exact absurd hlt (lt_irrefl _)
    · exact hle
  · intro ht y hy
    rcases h y hy with hlt | ⟨he, hle⟩
    · rw [ht] at hlt
      exact absurd hlt (not_lt_of_ge (Priority.le_bot _))
    · exact ⟨he.symm.trans ht, hle⟩

theorem worstOf_of_evictedFirst {l : List Task} {v : Task} (h : ∀ y ∈ l, EvictedFirst v y) :
    WorstOf l v := by
  constructor
  · intro hv y hy hyb
    rcases h y hy with hlt | ⟨_, hle⟩
    · rw [hv, hyb] at hlt
      exact absurd hlt (lt_irrefl _)
    · exact hle
  · intro hv y hy
    rcases h y hy with hlt | ⟨he, hle⟩
    · rw [hv] at hlt
      exact absurd hlt (not_lt_of_ge (Priority.human_le _))
    · exact ⟨he.symm.trans hv, hle⟩

/-- **Step lemma**: an operation of the queue is a step of the reference, and the counter counts the
    drops. -/
theorem PriorityQueue.perform_spec (q : PriorityQueue) (hC : 0 < q.capacity) (op : QueueOp) :
    ∃ q' out, q.perform op = some (q', out) ∧ q'.capacity = q.capacity ∧
      BagStep NextServed WorstOf q.capacity q.queued op.toBag out.toBag q'.queued ∧
      (∀ o v, out = .pushed o v → (o = .droppedOldest ↔ v.isSome = true)) ∧
      q'.overflow = q.overflow + UInt64.ofNat ([out].countP QueueShow.dropped) := by
  cases op with
  | push t =>
    obtain ⟨q', o, hpush, hp⟩ := q.push_spec t hC
    refine ⟨q', .pushed o q.victim, by rw [perform, hpush]; rfl, hp.capacity_eq, ?_⟩
    generalize q.victim = v at hp
    cases hp with
    | room lt _ overflow queued =>
      refine ⟨?_, ?_, ?_⟩
      · have hbag : (q'.queued : Multiset Task) = t ::ₘ q.queued := Multiset.coe_eq_coe.mpr queued
        rw [hbag]
        exact .room _ t (by rw [Multiset.coe_card, length_queued]; exact lt)
      · rintro o v ⟨⟩
        decide
      · rw [overflow]
        exact (UInt64.add_zero _).symm
    -- the victim is split off the bag, and is one of the worst of it
    | full le _ overflow v rest split worst queued =>
      refine ⟨?_, ?_, ?_⟩
      · have hold : (q.queued : Multiset Task) = v ::ₘ rest := Multiset.coe_eq_coe.mpr split
        have hnew : (q'.queued : Multiset Task) = t ::ₘ rest := Multiset.coe_eq_coe.mpr queued
        have hworst := worstOf_of_evictedFirst worst
        have hle : q.capacity ≤ Multiset.card (q.queued : Multiset Task) := by
          rw [Multiset.coe_card, length_queued]; exact le
        rw [hold] at hworst hle ⊢
        rw [hnew]
        exact .full _ t v hle hworst
      · rintro o v ⟨⟩
        exact ⟨fun _ => rfl, fun _ => rfl⟩
      · rw [overflow]
        rfl
  | pop =>
    cases hpop : q.pop with
    | none =>
      refine ⟨q, .popped none, by rw [perform, hpop], rfl, ?_, (fun _ _ h => nomatch h),
        (UInt64.add_zero _).symm⟩
      rw [pop_eq_none.mp hpop]
      exact .idle
    | some r =>
      obtain ⟨t, q'⟩ := r
      obtain ⟨hperm, hfirst, hcap, hover⟩ := pop_spec hpop
      refine ⟨q', .popped (some t), by rw [perform, hpop], hcap, ?_, (fun _ _ h => nomatch h), ?_⟩
      · have hold : (q.queued : Multiset Task) = t ::ₘ q'.queued := Multiset.coe_eq_coe.mpr hperm
        have hnext := nextServed_of_servedFirst hfirst
        rw [hold] at hnext ⊢
        exact .serve _ t hnext
      · rw [hover]
        exact (UInt64.add_zero _).symm

/-! ## Whole histories

The general facts about the bag, that it loses nothing and stays within its bound, then carry over
to the queue without another look at the heap. -/

/-- **Run lemma**: a history of the queue is a run of the reference. -/
theorem PriorityQueue.trace_spec (ops : List QueueOp) : ∀ q : PriorityQueue, 0 < q.capacity →
    ∃ q' outs, trace perform q ops = some (q', outs) ∧
      BagRun NextServed WorstOf q.capacity q.queued (ops.map QueueOp.toBag)
        (outs.map QueueShow.toBag) q'.queued ∧
      (∀ o v, .pushed o v ∈ outs → (o = .droppedOldest ↔ v.isSome = true)) ∧
      q'.overflow = q.overflow + UInt64.ofNat (outs.countP QueueShow.dropped) := by
  induction ops with
  | nil =>
    exact fun q _ => ⟨q, [], rfl, .nil _, fun _ _ h => absurd h List.not_mem_nil,
      (UInt64.add_zero _).symm⟩
  | cons op ops ih =>
    intro q hC
    obtain ⟨q1, out, hop, hcap, hstep, hout, hover⟩ := q.perform_spec hC op
    obtain ⟨q', outs, hrun, hbag, houts, hover'⟩ := ih q1 (by rw [hcap]; exact hC)
    refine ⟨q', out :: outs, trace_cons_of hop hrun, ?_, ?_, ?_⟩
    · rw [hcap] at hbag
      exact .cons hstep hbag
    · intro o v hmem
      rcases List.mem_cons.mp hmem with heq | hmem
      · exact hout o v heq.symm
      · exact houts o v hmem
    · rw [hover', hover, UInt64.add_assoc, ← UInt64.ofNat_add, ← List.countP_append,
        List.singleton_append]

/-- The pushes of a history, as the reference sees them. -/
theorem filterMap_toBag (ops : List QueueOp) :
    (ops.map QueueOp.toBag).filterMap BagOp.pushed = pushedTasks ops := by
  rw [List.filterMap_map]
  refine List.filterMap_congr fun op _ => ?_
  cases op <;> rfl

/-- **The queue refines the bag.**  For every positive capacity and every history, whatever the
    timestamps:

    * no operation panics, and each is a step of the reference: a pop serves a queued task that is
      next by class and age, a push at capacity gives up one queued task, the oldest Bot or else the
      oldest Human, and every other push gives up nothing;
    * `DroppedOldest` is the answer to exactly the pushes that give a task up, and
      `overflow_count` is their number;
    * at most `C` tasks are queued, and the tasks pushed are those served, given up and queued.

    The queue is compared step by step with a bag that may do whatever the reference allows;
    `perform_spec` finds the step of the bag for each operation, and its choice is the heap's
    own. -/
theorem queue_refines_bag (C : Nat) (hC : 0 < C) (ops : List QueueOp) :
    ∃ q outs, trace PriorityQueue.perform (PriorityQueue.new C) ops = some (q, outs) ∧
      BagRun NextServed WorstOf C 0 (ops.map QueueOp.toBag) (outs.map QueueShow.toBag) q.queued ∧
      (∀ o v, .pushed o v ∈ outs → (o = .droppedOldest ↔ v.isSome = true)) ∧
      q.overflowCount = UInt64.ofNat (outs.countP QueueShow.dropped) ∧
      q.len ≤ C ∧
      (pushedTasks ops : Multiset Task) =
        ((outs.map QueueShow.toBag).filterMap BagShow.served : Multiset Task) +
          ((outs.map QueueShow.toBag).filterMap BagShow.evicted : Multiset Task) + q.queued := by
  obtain ⟨q, outs, hrun, hbag, houts, hover⟩ := (PriorityQueue.new C).trace_spec ops hC
  refine ⟨q, outs, hrun, hbag, houts, ?_, ?_, ?_⟩
  · rw [PriorityQueue.overflowCount, hover]
    exact UInt64.zero_add _
  · have := hbag.card_le (Nat.zero_le C)
    rwa [Multiset.coe_card, PriorityQueue.length_queued] at this
  · have := hbag.conserve
    rw [filterMap_toBag] at this
    rw [← this]
    exact (add_zero _).symm

/-- Two Bots of one time and a Human of an earlier one through a queue of two. -/
theorem queue_refines_bag_two :
    let task := fun (p : Priority) (time : Nat) =>
      ({ event := { user := "u", bot := decide (p = .bot), serverName := "w" }
         priority := p, enqueuedAt := time } : Task)
    let ops := [.push (task .bot 5), .push (task .bot 5), .push (task .human 1), .pop, .pop, .pop]
    ∃ q outs, trace PriorityQueue.perform (PriorityQueue.new 2) ops = some (q, outs) ∧
      outs.countP QueueShow.dropped = 1 ∧ q.overflowCount = 1 := by
  intro task ops
  obtain ⟨q, outs, hrun, _, _, hover, _⟩ := queue_refines_bag 2 (by decide) ops
  have hcount : (trace PriorityQueue.perform (PriorityQueue.new 2) ops).map
      (fun r => r.2.countP QueueShow.dropped) = some 1 := by decide
  rw [hrun] at hcount
  have h1 : outs.countP QueueShow.dropped = 1 := Option.some.inj hcount
  exact ⟨q, outs, hrun, h1, by rw [hover, h1]; rfl⟩

end RtsPipeline.Threaded
