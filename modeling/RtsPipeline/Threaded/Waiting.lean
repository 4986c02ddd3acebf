/-
  How long a Human task waits in the threaded queue.

  A pop serves a task no other is served before.  While a Human task waits, only Human tasks that
  are no younger are served, and every one that is served is one less ahead of it.  A task that is
  dispatched meanwhile is behind it, unless the clock has not moved on since: a rival.

  The count behind this needs nothing of the heap but the two facts that a pop takes a task that is
  served first, and that it takes one.  Evictions do not disturb it: an eviction only takes tasks
  away, and the waiting one is assumed to be queued still.  Ties are why the tasks
  ahead are "no younger" and not "older": of two tasks of one time either may be served first.

  1. `ahead` — the tasks that may be served before a task, the task included.
  2. `Stepped.ahead` — what one step does to them.
  3. `human_waits` — so fewer pops than the queue has room for, and one more for every rival.
-/
import RtsPipeline.Lib.Timed
import RtsPipeline.Threaded.ClassOrder
import RtsPipeline.Threaded.Pipeline

namespace RtsPipeline.Threaded

open Lib

/-! ## The tasks ahead

How long a task waits is how many are served before it.  The number is read off the queue, so that
it is known when the task is pushed. -/

namespace PriorityQueue

/-- The tasks queued that may be served before `t`, and `t` itself.  A task of the same class and
    the same `enqueued_at` is among them, as the heap may serve either of the two first.  Each pop
    that serves somebody else makes the number smaller, and a push makes it larger only if the
    newcomer is of a higher class or not stamped later. -/
def ahead (q : PriorityQueue) (t : Task) : Nat := q.queued.countP fun u => ServedFirst u t

theorem ahead_le (q : PriorityQueue) (t : Task) : q.ahead t ≤ q.len := by
  rw [← length_queued]
  exact List.countP_le_length

theorem ahead_pos {q : PriorityQueue} {t : Task} (h : t ∈ q.queued) : 0 < q.ahead t :=
  List.countP_pos_iff.mpr ⟨t, h, decide_eq_true (Or.inr ⟨rfl, Nat.le_refl _⟩)⟩

/-- A pop serves one of them. -/
theorem ahead_pop {q q' : PriorityQueue} {t u : Task} (h : q.pop = some (u, q'))
    (ht : t ∈ q.queued) : ServedFirst u t ∧ q'.ahead t + 1 = q.ahead t := by
  obtain ⟨hperm, hfirst, _⟩ := pop_spec h
  have hu := hfirst t ht
  refine ⟨hu, ?_⟩
  rw [ahead, ahead, hperm.countP_eq, List.countP_cons, if_pos (decide_eq_true hu)]

/-- A push adds one at most, the task pushed. -/
theorem ahead_push {q q' : PriorityQueue} {x t : Task} {o : PushOutcome} {v : Option Task}
    (h : Pushed q x q' o v) :
    q'.ahead t ≤ q.ahead t + if ServedFirst x t then 1 else 0 := by
  have hcons : ∀ l : List Task, (x :: l).countP (fun u => decide (ServedFirst u t)) =
      l.countP (fun u => decide (ServedFirst u t)) + if ServedFirst x t then 1 else 0 := by
    intro l
    rw [List.countP_cons]
    by_cases hx : ServedFirst x t
    · rw [if_pos hx, if_pos (decide_eq_true hx)]
    · rw [if_neg hx, if_neg fun hd => hx (of_decide_eq_true hd)]
  unfold ahead
  cases h with
  | room _ _ _ queued => rw [queued.countP_eq, hcons]
  | full _ _ _ victim rest split _ queued =>
    have hle : rest.countP (fun u => decide (ServedFirst u t)) ≤
        q.queued.countP fun u => decide (ServedFirst u t) := by
      rw [split.countP_eq]
      exact (List.sublist_cons_self victim rest).countP_le
    rw [queued.countP_eq, hcons]
    omega

end PriorityQueue

/-! ## While a Human task waits

Every pop serves a task that is ahead, or the task itself.  Who is pushed meanwhile is behind it,
unless its clock says otherwise; these are counted as rivals. -/

namespace System

variable {n : Nat} {fromStr : Text → Option Json} {high : UInt64} {s s' : System n}
  {e : SystemEvent n} {t : Task}

/-- The queue is never longer than its capacity. -/
theorem len_le_of_reachable {C : Nat} (h : Reachable (step fromStr high) (start n C) s) :
    s.queue.len ≤ C := by
  obtain ⟨ls, hls⟩ := h
  have hboth : s.queue.capacity = C ∧ s.queue.len ≤ s.queue.capacity := by
    refine run_invariant (I := fun s => s.queue.capacity = C ∧ s.queue.len ≤ s.queue.capacity) ?_ ls
      _ s ⟨rfl, Nat.zero_le _⟩ hls
    intro u e u' ⟨hcap, hlen⟩ hs
    cases stepped_of_step hs with
    | pushed raw now nowNs event q o accepted push =>
      have hpushed := PriorityQueue.push_some push
      exact ⟨hpushed.capacity_eq.trans hcap, hpushed.len_le hlen⟩
    | pop i now task q at_ pop =>
      have hpop := (PriorityQueue.pop_spec pop).2.2.1
      have := PriorityQueue.len_of_pop pop
      refine ⟨hpop.trans hcap, ?_⟩
      show q.len ≤ q.capacity
      omega
    | _ => exact ⟨hcap, hlen⟩
  rw [← hboth.1]
  exact hboth.2

/-- The dispatch of a task that is no younger than `t`. -/
def rival (t : Task) : SystemEvent n → Bool
  | .dispatch _ now _ => decide (now ≤ t.enqueuedAt)
  | _ => false

/-- **Step lemma**: what is served comes first, and there is one less ahead for it.  The sum of what
    has been served and what is still ahead grows by a rival only, which is the form that adds up
    along a run. -/
theorem Stepped.ahead (h : Stepped fromStr s e s') (human : t.priority = .human)
    (waits : t ∈ s.queue.queued) :
    ∃ served, s'.log.dequeued = s.log.dequeued ++ served ∧
      (∀ d ∈ served, ServedFirst d.2 t) ∧
      served.length + s'.queue.ahead t ≤ s.queue.ahead t + if rival t e then 1 else 0 := by
  have hsame : ∀ {u : System n}, u.log.dequeued = s.log.dequeued → u.queue = s.queue →
      ∃ served, u.log.dequeued = s.log.dequeued ++ served ∧
        (∀ d ∈ served, ServedFirst d.2 t) ∧
        served.length + u.queue.ahead t ≤ s.queue.ahead t + if rival t e then 1 else 0 := by
    intro u hlog hqueue
    refine ⟨[], by rw [hlog, List.append_nil], fun _ hd => absurd hd List.not_mem_nil, ?_⟩
    rw [hqueue, List.length_nil, Nat.zero_add]
    exact Nat.le_add_right _ _
  cases h with
  | pop i now u q at_ pop =>
    obtain ⟨hfirst, hahead⟩ := PriorityQueue.ahead_pop pop waits
    refine ⟨[(i, u)], rfl, fun d hd => ?_, ?_⟩
    · rw [List.mem_singleton.mp hd]
      exact hfirst
    · show 1 + q.ahead t ≤ _
      omega
  | pushed raw now nowNs event q o accepted push =>
    refine ⟨[], (List.append_nil _).symm, fun _ hd => absurd hd List.not_mem_nil, ?_⟩
    have hpush := PriorityQueue.ahead_push (t := t) (PriorityQueue.push_some push)
    show 0 + q.ahead t ≤ s.queue.ahead t + if decide (now ≤ t.enqueuedAt) then 1 else 0
    by_cases hfirst : ServedFirst (event.toTask now) t
    · -- no class comes before the Human tasks, so it is the time
      have hnow : now ≤ t.enqueuedAt := by
        rcases hfirst with hlt | ⟨_, hle⟩
        · rw [human] at hlt
          exact absurd (Priority.human_le _) (not_le_of_gt hlt)
        · exact hle
      rw [if_pos hfirst] at hpush
      rw [if_pos (decide_eq_true hnow)]
      omega
    · rw [if_neg hfirst] at hpush
      omega
  | _ => exact hsame rfl rfl

/-- **Run lemma**. -/
theorem ahead_run (human : t.priority = .human) : ∀ (ms : List (SystemEvent n)) (s s' : System n),
    Throughout (step fromStr high) (fun u => t ∈ u.queue.queued) s ms →
    run (step fromStr high) s ms = some s' →
    ∃ served, s'.log.dequeued = s.log.dequeued ++ served ∧
      (∀ d ∈ served, ServedFirst d.2 t) ∧
      served.length + s'.queue.ahead t ≤ s.queue.ahead t + ms.countP (rival t) := by
  intro ms
  induction ms with
  | nil =>
    intro s s' _ h
    obtain rfl := Option.some.inj h
    exact ⟨[], (List.append_nil _).symm, fun _ hd => absurd hd List.not_mem_nil,
      Nat.le_of_eq (Nat.zero_add _)⟩
  | cons e ms ih =>
    intro s s' hwaits h
    obtain ⟨u, hs, hr⟩ := run_cons_some.mp h
    obtain ⟨first, hfirst, hfirst', hcount⟩ := (stepped_of_step hs).ahead human hwaits.head
    obtain ⟨more, hmore, hmore', hcount'⟩ := ih u s' (hwaits.tail hs) hr
    refine ⟨first ++ more, by rw [hmore, hfirst, List.append_assoc], fun d hd => ?_, ?_⟩
    · exact (List.mem_append.mp hd).elim (hfirst' d) (hmore' d)
    · rw [List.length_append, List.countP_cons]
      omega

/-- **A Human task waits for fewer pops than the queue has room for.**  As long as it is queued,
    only Human tasks that are no younger are dequeued, whatever else arrives.  They are fewer than
    the capacity, but for those dispatched meanwhile with no later a time.

    Every pop while the task waits serves somebody who was ahead of it, and only a rival comes in
    ahead.  So what was served and what is still ahead is no more than the queue has room for and
    the rivals. -/
theorem human_waits (fromStr : Text → Option Json) (high : UInt64) (n C : Nat)
    (ls : List (SystemEvent n)) (s : System n)
    (h : run (step fromStr high) (start n C) ls = some s) (t : Task) (human : t.priority = .human)
    (ms : List (SystemEvent n)) (s' : System n)
    (waits : Throughout (step fromStr high) (fun u => t ∈ u.queue.queued) s ms)
    (h' : run (step fromStr high) s ms = some s') :
    ∃ served, s'.log.dequeued = s.log.dequeued ++ served ∧
      (∀ d ∈ served, d.2.priority = .human ∧ d.2.enqueuedAt ≤ t.enqueuedAt) ∧
      served.length < C + ms.countP (rival t) := by
  obtain ⟨served, hlog, hfirst, hcount⟩ := ahead_run human ms s s' waits h'
  refine ⟨served, hlog, fun d hd => ?_, ?_⟩
  · rcases hfirst d hd with hlt | ⟨heq, hle⟩
    · rw [human] at hlt
      exact absurd (Priority.human_le _) (not_le_of_gt hlt)
    · exact ⟨heq.trans human, hle⟩
  · have hpos := PriorityQueue.ahead_pos (waits ms [] (List.append_nil _).symm s' h')
    have hlen := PriorityQueue.ahead_le s.queue t
    have hroom : s.queue.len ≤ C := len_le_of_reachable ⟨ls, h⟩
    omega

/-- Two Human tasks and a Bot task: the first is dequeued while the second waits. -/
theorem human_waits_second :
    let human := "human".toList
    let bot := "bot".toList
    let fromStr := fun raw => some (Json.obj [("user", .str "u"), ("bot", .bool (raw == bot)),
      ("server_name", .str "w")])
    ∃ s s', run (step fromStr 1) (start 1 3) [.dispatch human 1 1, .dispatch human 2 2] = some s ∧
      run (step fromStr 1) s [.dispatch bot 3 3, .work 0 4] = some s' ∧
      ∃ served, s'.log.dequeued = s.log.dequeued ++ served ∧
        (∀ d ∈ served, d.2.priority = .human ∧ d.2.enqueuedAt ≤ 2) ∧ served.length < 3 := by
  intro human bot fromStr
  let t : Task := { event := ⟨"u", false, "w"⟩, priority := .human, enqueuedAt := 2 }
  obtain ⟨s, hs, hstate⟩ := Option.map_eq_some_iff.mp
    (show (run (step fromStr 1) (start 1 3) [.dispatch human 1 1, .dispatch human 2 2]).map
      (fun s => ((run (step fromStr 1) s [.dispatch bot 3 3, .work 0 4]).isSome,
        decide (Throughout (step fromStr 1) (fun u => t ∈ u.queue.queued) s
          [.dispatch bot 3 3, .work 0 4]))) = some (true, true) from by decide +kernel)
  obtain ⟨hsome, hwaits⟩ := Prod.mk.inj hstate
  obtain ⟨s', hs'⟩ := Option.isSome_iff_exists.mp hsome
  exact ⟨s, s', hs, hs', human_waits fromStr 1 1 3 _ s hs t rfl _ s' (of_decide_eq_true hwaits) hs'⟩

end System

end RtsPipeline.Threaded
