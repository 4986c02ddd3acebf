/-
  Histories of the threaded priority queue: what any sequence of pushes and pops serves and evicts.

  `QueueLog` is the queue with the two lists nobody in the program keeps, the tasks popped and the
  tasks evicted, in order.  A pop on an empty queue leaves everything as it is (the caller waits).

  A heap has no order of its own to compare with, so all that is said here is up to order: the tasks
  pushed are the tasks popped, evicted and queued.  In which order they come out is the business of
  the modules that follow, which know more about the tasks.
-/
import RtsPipeline.Lib.Run
import RtsPipeline.Threaded.Scheduler

namespace RtsPipeline.Threaded

open Lib

/-- One operation on the queue. -/
inductive QueueOp
  | push (t : Task)
  | pop
deriving DecidableEq, Repr

/-- The task an operation pushes. -/
def QueueOp.pushed : QueueOp → Option Task
  | .push t => some t
  | .pop => none

/-- The tasks a history pushes, in order. -/
def pushedTasks (ops : List QueueOp) : List Task := ops.filterMap QueueOp.pushed

@[simp] theorem pushedTasks_nil : pushedTasks [] = [] := rfl

@[simp] theorem pushedTasks_push (t : Task) (ops : List QueueOp) :
    pushedTasks (.push t :: ops) = t :: pushedTasks ops := rfl

@[simp] theorem pushedTasks_pop (ops : List QueueOp) :
    pushedTasks (.pop :: ops) = pushedTasks ops := rfl

/-- `enqueued_at` is strictly increasing along the pushes of a history. -/
def Increasing (ops : List QueueOp) : Prop :=
  (pushedTasks ops).Pairwise fun t u => t.enqueuedAt < u.enqueuedAt

instance (ops : List QueueOp) : Decidable (Increasing ops) :=
  inferInstanceAs (Decidable ((pushedTasks ops).Pairwise _))

/-- What an operation shows.  The source discards the evicted task. -/
inductive QueueShow
  | pushed (outcome : PushOutcome) (evicted : Option Task)
  | popped (task : Option Task)
deriving DecidableEq, Repr

/-- One operation and what it shows; `none` when the push panics. -/
def PriorityQueue.perform (q : PriorityQueue) : QueueOp → Option (PriorityQueue × QueueShow)
  | .push t => (q.push t).map fun r => (r.1, .pushed r.2 q.victim)
  | .pop =>
    match q.pop with
    | none => some (q, .popped none)
    | some (t, q') => some (q', .popped (some t))

/-- The queue with what it has served and evicted so far. -/
structure QueueLog where
  queue : PriorityQueue
  popped : List Task
  evicted : List Task

namespace QueueLog

/-- An unused queue. -/
def start (capacity : Nat) : QueueLog :=
  { queue := PriorityQueue.new capacity, popped := [], evicted := [] }

/-- Every task the log has seen: served, evicted, or still queued. -/
def tasks (s : QueueLog) : List Task := s.popped ++ (s.evicted ++ s.queue.queued)

/-- One operation; `none` when the push panics. -/
def step (s : QueueLog) : QueueOp → Option QueueLog
  | .push t =>
    (s.queue.push t).map fun r =>
      { queue := r.1, popped := s.popped, evicted := s.evicted ++ s.queue.victim.toList }
  | .pop =>
    match s.queue.pop with
    | none => some s
    | some (t, q) => some { s with queue := q, popped := s.popped ++ [t] }

/-- A push never panics on a queue with a positive capacity. -/
theorem step_push (s : QueueLog) (t : Task) (hC : 0 < s.queue.capacity) :
    ∃ q o, s.step (.push t) =
        some { queue := q, popped := s.popped, evicted := s.evicted ++ s.queue.victim.toList } ∧
      PriorityQueue.Pushed s.queue t q o s.queue.victim := by
  obtain ⟨q, o, hp, hs⟩ := s.queue.push_spec t hC
  exact ⟨q, o, by rw [step, hp]; rfl, hs⟩

theorem step_pop_none {s : QueueLog} (h : s.queue.pop = none) : s.step .pop = some s := by
  rw [step, h]

theorem step_pop_some {s : QueueLog} {t : Task} {q : PriorityQueue}
    (h : s.queue.pop = some (t, q)) :
    s.step .pop = some { s with queue := q, popped := s.popped ++ [t] } := by
  rw [step, h]

/-- No operation panics on a queue with a positive capacity, and none exceeds it. -/
theorem step_total (s : QueueLog) (op : QueueOp) (hC : 0 < s.queue.capacity) :
    ∃ s', s.step op = some s' ∧ s'.queue.capacity = s.queue.capacity ∧
      (s.queue.len ≤ s.queue.capacity → s'.queue.len ≤ s'.queue.capacity) := by
  cases op with
  | push t =>
    obtain ⟨q, o, hs, hp⟩ := s.step_push t hC
    exact ⟨_, hs, hp.capacity_eq, hp.len_le⟩
  | pop =>
    cases hp : s.queue.pop with
    | none => exact ⟨s, step_pop_none hp, rfl, id⟩
    | some r =>
      obtain ⟨t, q⟩ := r
      obtain ⟨_, _, hcap, _⟩ := PriorityQueue.pop_spec hp
      refine ⟨_, step_pop_some hp, hcap, fun hle => ?_⟩
      have hlen := PriorityQueue.len_of_pop hp
      show q.len ≤ q.capacity
      omega

/-- **Run lemma** for the bound. -/
theorem run_total (ops : List QueueOp) : ∀ {s : QueueLog}, 0 < s.queue.capacity →
    s.queue.len ≤ s.queue.capacity → ∃ s', run step s ops = some s' ∧
      s'.queue.capacity = s.queue.capacity ∧ s'.queue.len ≤ s'.queue.capacity := by
  induction ops with
  | nil => exact fun _ hle => ⟨_, rfl, rfl, hle⟩
  | cons op ops ih =>
    intro s hC hle
    obtain ⟨s1, hs, hcap, hlen⟩ := s.step_total op hC
    obtain ⟨s', hr, hcap', hle'⟩ := ih (s := s1) (by rw [hcap]; exact hC) (hlen hle)
    exact ⟨s', run_cons_some.mpr ⟨s1, hs, hr⟩, hcap'.trans hcap, hle'⟩

/-! ## What every operation does, and so every history

The pattern is that of every account in this development: a step lemma that compares the contents
before and after, and a run lemma by induction on the history. -/

/-- One operation adds the task it pushes and loses none. -/
theorem step_tasks {s s' : QueueLog} {op : QueueOp} (hC : 0 < s.queue.capacity)
    (h : s.step op = some s') :
    s'.tasks.Perm (op.pushed.toList ++ s.tasks) ∧ s'.queue.capacity = s.queue.capacity := by
  cases op with
  | push t =>
    obtain ⟨q, o, hs, hp⟩ := s.step_push t hC
    obtain rfl := Option.some.inj (hs.symm.trans h)
    refine ⟨?_, hp.capacity_eq⟩
    have h1 : ((s.evicted ++ s.queue.victim.toList) ++ q.queued).Perm
        (t :: (s.evicted ++ s.queue.queued)) := by
      rw [List.append_assoc]
      exact (hp.conserve.symm.append_left s.evicted).trans List.perm_middle
    exact (h1.append_left s.popped).trans List.perm_middle
  | pop =>
    cases hp : s.queue.pop with
    | none =>
      obtain rfl := Option.some.inj ((step_pop_none hp).symm.trans h)
      exact ⟨List.Perm.refl _, rfl⟩
    | some r =>
      obtain ⟨t, q⟩ := r
      obtain rfl := Option.some.inj ((step_pop_some hp).symm.trans h)
      obtain ⟨hsplit, _, hcap, _⟩ := PriorityQueue.pop_spec hp
      refine ⟨?_, hcap⟩
      -- the task popped moves from the queue, over the evicted ones, to the end of `popped`
      have h1 : (t :: (s.evicted ++ q.queued)).Perm (s.evicted ++ s.queue.queued) :=
        List.perm_middle.symm.trans (hsplit.symm.append_left s.evicted)
      show ((s.popped ++ [t]) ++ (s.evicted ++ q.queued)).Perm s.tasks
      rw [List.append_assoc]
      exact h1.append_left s.popped

/-- **Conservation**: after a history every task pushed is served, evicted or queued, once. -/
theorem run_tasks {ops : List QueueOp} : ∀ {s s' : QueueLog}, 0 < s.queue.capacity →
    run step s ops = some s' → s'.tasks.Perm (pushedTasks ops ++ s.tasks) := by
  induction ops with
  | nil =>
    intro s s' _ h
    obtain rfl := Option.some.inj h
    exact List.Perm.refl _
  | cons op ops ih =>
    intro s s' hC h
    obtain ⟨s1, hs, hr⟩ := run_cons_some.mp h
    obtain ⟨hp, hcap⟩ := step_tasks hC hs
    have h1 := (ih (by rw [hcap]; exact hC) hr).trans (hp.append_left (pushedTasks ops))
    cases op with
    | push t => exact h1.trans List.perm_middle
    | pop => exact h1

/-- The two lists only grow, at their ends. -/
theorem step_grows {s s' : QueueLog} {op : QueueOp} (h : s.step op = some s') :
    s.popped <+: s'.popped ∧ s.evicted <+: s'.evicted := by
  cases op with
  | push t =>
    obtain ⟨r, _, rfl⟩ := Option.map_eq_some_iff.mp h
    exact ⟨List.prefix_refl _, List.prefix_append _ _⟩
  | pop =>
    cases hp : s.queue.pop with
    | none =>
      obtain rfl := Option.some.inj ((step_pop_none hp).symm.trans h)
      exact ⟨List.prefix_refl _, List.prefix_refl _⟩
    | some r =>
      obtain rfl := Option.some.inj ((step_pop_some hp).symm.trans h)
      exact ⟨List.prefix_append _ _, List.prefix_refl _⟩

/-- What was served stays served, and what was evicted stays evicted. -/
theorem run_grows {ops : List QueueOp} {s s' : QueueLog} (h : run step s ops = some s') :
    s.popped <+: s'.popped ∧ s.evicted <+: s'.evicted := by
  refine run_invariant (I := fun u => s.popped <+: u.popped ∧ s.evicted <+: u.evicted)
    (fun u op u' hu hs => ?_) ops s s' ⟨List.prefix_refl _, List.prefix_refl _⟩ h
  obtain ⟨hp, he⟩ := step_grows hs
  exact ⟨hu.1.trans hp, hu.2.trans he⟩

end QueueLog

end RtsPipeline.Threaded
