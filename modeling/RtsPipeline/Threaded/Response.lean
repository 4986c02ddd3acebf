/-
  How long a Human task waits in the threaded pipeline, in time.

  A worker that is awake comes to the queue within its iteration, and takes a task if there is one.
  Of the workers asleep there are few enough (`Attended`): all are awake, or as many as tasks are
  queued.  So `n` prompt workers serve `n` tasks in the time of one iteration, and only what is
  ahead of a Human task is served before it.

  The proof sets two numbers against each other.  `ahead` is how many tasks may still be served up
  to the waiting one, itself counted; it goes down with every pop and, once the clock has moved on,
  no push brings it up, since what is pushed later is younger.  `popsBy latest` is how often a
  worker still comes to the queue up to a fixed time, if it makes each step as late as it may; a pop
  uses one of these turns up, a step in time none, and a push adds some when it wakes a sleeper.  So
  `ahead ≤ Σ popsBy` is kept once it holds.  It holds at the start for `latest` far enough in the
  future, and at `latest` the turns are used up: the task is ahead of itself no longer, so it is not
  queued any more.

  Sleepers have no turn, as nothing says that they are woken.  They are not missed: `Attended` says
  that those awake are as many as the tasks queued, and no more than these are ahead.

  1. `popsBy` — how often a worker comes to the queue until some time.
  2. `Stepped.served` — a step that serves a task ahead takes one of these away, and no other does.
  3. `response_time` — so a Human task is taken when these are used up.
-/
import RtsPipeline.Threaded.Parking
import RtsPipeline.Threaded.Waiting

namespace RtsPipeline.Threaded

open Lib

namespace Parking

variable {n : Nat} {fromStr : Text → Option Json} {high : UInt64}

/-! ## Turns at the queue

  `turns period latest first` of the timed runs counts the times `first`, `first + period` and so on
  up to `latest`.  Here `first` is when a worker next comes to the queue, and `period` is its
  loop. -/

/-- How long a prompt worker takes from one pop to the next: its calls, the way back and the pop. -/
def loopNs (late : Nat) : Nat := (iteration.length + 2) * late

/-- When a prompt worker that is awake comes to the queue. -/
def popBy (late : Nat) (s : Parking n) (i : Fin n) : Nat :=
  s.due i + toGo late (s.sys.workers i) .ready

/-- How often a prompt worker comes to the queue up to `latest`; a sleeper may not at all. -/
def popsBy (late latest : Nat) (s : Parking n) (i : Fin n) : Nat :=
  if s.stands i = .asleep ∨ s.sys.workers i = .exited then 0
  else turns (loopNs late) latest (s.popBy late i)

/-- While the flag is clear, a worker's step brings it nearer to the queue, or takes the front task
    and has the whole loop before it. -/
theorem work_turn (late : Nat) {s s' : System n} {i : Fin n} {now : Nat}
    (h : s.work high i now = some s') (clear : s.cancel = false)
    (full : s.workers i = .popping → s.queue.pop ≠ none) :
    s'.workers i ≠ .exited ∧
      (s'.queue = s.queue ∧
          toGo late (s'.workers i) .ready + late ≤ toGo late (s.workers i) .ready ∨
        (∃ t, s.queue.pop = some (t, s'.queue)) ∧
          toGo late (s'.workers i) .ready + late ≤ toGo late (s.workers i) .ready + loopNs late) := by
  -- a turn costs `late`, and only the pop of a task gives a new loop in return
  have hself : ∀ (t : System n) (w : Worker), (t.setWorker i w).workers i = w := fun _ _ =>
    Function.update_self ..
  cases hw : s.workers i with
  | exited =>
    simp only [System.work, hw] at h
    cases h
  | popping =>
    simp only [System.work, hw, PriorityQueue.popBlocking, clear, Bool.false_eq_true, if_false] at h
    cases hpop : s.queue.pop with
    | none => exact absurd hpop (full hw)
    | some r =>
      obtain ⟨t, q⟩ := r
      simp only [hpop] at h
      obtain rfl := Option.some.inj h
      change (s.setWorker i (.body t now 0 iteration)).workers i ≠ .exited ∧ (_ ∨ _ ∧
        toGo late ((s.setWorker i (.body t now 0 iteration)).workers i) .ready + late ≤ _)
      rw [hself]
      refine ⟨by simp, Or.inr ⟨⟨t, rfl⟩, ?_⟩⟩
      show loopNs late + late ≤ late + loopNs late
      omega
  | body task actualStart total todo =>
    cases todo with
    | nil =>
      simp only [System.work, hw] at h
      obtain rfl := Option.some.inj h
      rw [hself]
      refine ⟨by simp, Or.inl ⟨rfl, ?_⟩⟩
      show late + late ≤ (0 + 2) * late
      omega
    | cons b todo =>
      simp only [System.work, hw] at h
      obtain rfl := Option.some.inj h
      rw [hself]
      refine ⟨by simp, Or.inl ⟨?_, ?_⟩⟩
      · show (s.call high b task actualStart total).queue = s.queue
        unfold System.call
        cases b with
        | recordMiss =>
          simp only
          split <;> rfl
        | _ => rfl
      · show (todo.length + 2) * late + late ≤ (todo.length + 1 + 2) * late
        rw [← Nat.succ_mul]

/-- Another thread's push is behind the task, if the clock has moved on since. -/
theorem ahead_of_other {clock : Nat} {s s' : Parking n} {e : SystemEvent n}
    {woken : Option (Fin n)} {t : Task} (h : s.act fromStr high clock (.other e woken) = some s')
    (human : t.priority = .human) (old : t.enqueuedAt < clock)
    (waits : t ∈ s.sys.queue.queued) : s'.sys.queue.ahead t ≤ s.sys.queue.ahead t := by
  have hstep : s.sys.step fromStr high e = some s'.sys := by
    obtain ⟨t, ht, hr⟩ := run_cons_some.mp (system_step h)
    obtain rfl := Option.some.inj hr
    exact ht
  have hnot : System.rival t e = false := by
    obtain ⟨hpermits, _⟩ := Option.ite_none_right_eq_some.mp h
    cases e with
    | dispatch raw now nowNs =>
      rw [permits, Bool.and_eq_true] at hpermits
      have hnow := of_decide_eq_true hpermits.1
      exact decide_eq_false (by omega)
    | _ => rfl
  obtain ⟨served, _, _, hcount⟩ := (System.stepped_of_step hstep).ahead human waits
  rw [hnot] at hcount
  simp only [Bool.false_eq_true, if_false] at hcount
  omega

/-- A worker that stands where it stood, or was asleep. -/
theorem popsBy_le (late latest : Nat) {s s' : Parking n} {i : Fin n}
    (hw : s'.sys.workers i = s.sys.workers i)
    (h : s.stands i = .asleep ∨ s'.stands i = s.stands i ∧ s'.due i = s.due i) :
    s.popsBy late latest i ≤ s'.popsBy late latest i := by
  rcases h with hasleep | ⟨hstand, hdue⟩
  · rw [popsBy, if_pos (Or.inl hasleep)]
    exact Nat.zero_le _
  · rw [popsBy, popsBy, popBy, popBy, hw, hstand, hdue]

/-- **Step lemma**: a step that serves a task ahead takes one turn at the queue away, and no other
    step takes away any.  A pop is the case with something in it: the front task is one that is
    ahead, so the left side loses one, and the worker's date moves on by a loop, which is one
    turn. -/
theorem Stepped.served {late : Nat} (positive : 0 < late) (latest : Nat) {clock : Nat}
    {s s' : Parking n} {k : ParkEvent n} (hact : s.act fromStr high clock k = some s')
    (clear : s.sys.cancel = false) (attended : Attended s.sys s.stands)
    (prompt : ∀ i, s.sys.workers i = .exited ∨ clock ≤ s.due i + late) {t : Task}
    (human : t.priority = .human) (old : t.enqueuedAt < clock)
    (waits : t ∈ s.sys.queue.queued) :
    s'.sys.queue.ahead t + ∑ i, s.popsBy late latest i ≤
      s.sys.queue.ahead t + ∑ i, s'.popsBy late latest i := by
  have hpop : s.sys.queue.pop ≠ none := by
    intro hnone
    rw [PriorityQueue.pop_eq_none.mp hnone] at waits
    cases waits
  have hsum : (∀ i, s.popsBy late latest i ≤ s'.popsBy late latest i) →
      ∑ i, s.popsBy late latest i ≤ ∑ i, s'.popsBy late latest i := fun h =>
    Finset.sum_le_sum fun i _ => h i
  cases stepped_of_act hact with
  | push e sys moved outside unlocked awake =>
    refine Nat.add_le_add (ahead_of_other hact human old waits) (hsum fun i => ?_)
    exact popsBy_le late latest (congrFun (workers_of_outside moved outside) i)
      (Or.inr ⟨rfl, rfl⟩)
  | pushWake e sys j moved outside unlocked at_ =>
    refine Nat.add_le_add (ahead_of_other hact human old waits) (hsum fun i => ?_)
    refine popsBy_le late latest (congrFun (workers_of_outside moved outside) i) ?_
    by_cases hij : i = j
    · subst hij
      exact Or.inl at_
    · exact Or.inr ⟨Function.update_of_ne hij _ _, Function.update_of_ne hij _ _⟩
  | aside e sys moved outside queue =>
    refine Nat.add_le_add (ahead_of_other hact human old waits) (hsum fun i => ?_)
    exact popsBy_le late latest (congrFun (workers_of_outside moved outside) i)
      (Or.inr ⟨rfl, rfl⟩)
  | look i at_ stand flag empty => exact absurd empty hpop
  | advance i sys moved stand full =>
    obtain ⟨hstays, hturn⟩ := work_turn late moved clear fun _ => hpop
    -- the others stand where they stood
    have hothers : ∀ j, j ≠ i → s.popsBy late latest j ≤ popsBy late latest
        { s with sys := sys, due := Function.update s.due i clock } j := fun j hj =>
      popsBy_le late latest ((work_spec moved).1 j hj)
        (Or.inr ⟨rfl, Function.update_of_ne hj _ _⟩)
    have hdue : popBy late { s with sys := sys, due := Function.update s.due i clock } i =
        clock + toGo late (sys.workers i) .ready :=
      congrArg (· + _) (Function.update_self ..)
    by_cases hidle : s.stands i = .asleep ∨ s.sys.workers i = .exited
    · -- such a worker makes no step
      rcases hidle with hasleep | hexit
      · have hready := stand (attended.inside i (by rw [hasleep]; simp))
        rw [hasleep] at hready
        cases hready
      · simp only [System.work, hexit] at moved
        cases moved
    have hclock := (prompt i).resolve_left (not_or.mp hidle).2
    have hthis : popsBy late latest
        { s with sys := sys, due := Function.update s.due i clock } i =
          turns (loopNs late) latest (clock + toGo late (sys.workers i) .ready) := by
      rw [popsBy, if_neg (not_or.mpr ⟨(not_or.mp hidle).1, hstays⟩), hdue]
    have hwas : s.popsBy late latest i = turns (loopNs late) latest (s.popBy late i) :=
      if_neg hidle
    rcases hturn with ⟨hqueue, hnearer⟩ | ⟨⟨u, hu⟩, hlater⟩
    · show sys.queue.ahead t + _ ≤ _
      rw [hqueue]
      refine Nat.add_le_add_left (hsum fun j => ?_) _
      by_cases hj : j = i
      · subst hj
        rw [hthis, hwas]
        exact turns_anti (by rw [popBy]; omega)
      · exact hothers j hj
    · -- a task was served, and the worker comes back within the loop
      have hahead := (PriorityQueue.ahead_pop hu waits).2
      have hone : ∀ j, s.popsBy late latest j ≤ popsBy late latest
          { s with sys := sys, due := Function.update s.due i clock } j +
            if j = i then 1 else 0 := by
        intro j
        by_cases hj : j = i
        · subst hj
          rw [if_pos rfl, hthis, hwas]
          refine turns_next (Nat.mul_pos (Nat.succ_pos _) positive) ?_
          rw [popBy]
          omega
        · rw [if_neg hj]
          exact hothers j hj
      have hless := Finset.sum_le_sum fun j (_ : j ∈ Finset.univ) => hone j
      rw [Finset.sum_add_distrib, Finset.sum_ite_eq' Finset.univ i, if_pos (Finset.mem_univ i)]
        at hless
      show sys.queue.ahead t + _ ≤ _
      omega
  | sleep i stand =>
    have hlen := attended.lock i stand
    rw [← PriorityQueue.length_queued, List.length_eq_zero_iff] at hlen
    rw [hlen] at waits
    cases waits
  | timeout i stand passed =>
    refine Nat.add_le_add_left (hsum fun j => popsBy_le late latest rfl ?_) _
    by_cases hj : j = i
    · subst hj
      exact Or.inl stand
    · exact Or.inr ⟨Function.update_of_ne hj _ _, Function.update_of_ne hj _ _⟩
  | wakeAll phase =>
    refine Nat.add_le_add_left (hsum fun j => popsBy_le late latest rfl ?_) _
    by_cases hj : s.stands j = .asleep
    · exact Or.inl hj
    · exact Or.inr ⟨if_neg hj, if_neg hj⟩

/-! ## How long that is

  What is left is the first count of turns: after `m` loops, whoever is awake now has come to the
  queue `m` times, because its next turn is no further away than a whole loop (`Dated`). -/

/-- A worker leaves only when the flag is set.  While a task waits in a running pipeline, then,
    every worker is somewhere in its loop, and the count of turns may speak of all of them. -/
def Manned (s : Parking n) : Prop := ∀ i, s.sys.workers i = .exited → s.sys.cancel = true

/-- **Step lemma** for `Manned`. -/
theorem Manned.step {clock : Nat} {s s' : Parking n} {k : ParkEvent n} (h : Manned s)
    (hact : s.act fromStr high clock k = some s') : Manned s' := by
  intro i hi
  by_contra hclear
  rw [Bool.not_eq_true] at hclear
  -- the flag was clear before, so nobody had left
  have hbefore : s.sys.cancel = false := by
    by_contra hset
    rw [cancel_kept hact (Bool.eq_true_of_not_eq_false hset)] at hclear
    cases hclear
  have hstays : s.sys.workers i ≠ .exited := fun hexit => by
    rw [h i hexit] at hbefore
    cases hbefore
  refine hstays ?_
  cases stepped_of_act hact with
  | push e sys moved outside unlocked awake =>
    rw [← workers_of_outside moved outside]
    exact hi
  | pushWake e sys j moved outside unlocked at_ =>
    rw [← workers_of_outside moved outside]
    exact hi
  | aside e sys moved outside queue =>
    rw [← workers_of_outside moved outside]
    exact hi
  | advance j sys moved stand full =>
    by_cases hij : i = j
    · subst hij
      have hfull : s.sys.workers i = .popping → s.sys.queue.pop ≠ none := fun hw =>
        (full hw).resolve_left (by rw [hbefore]; simp)
      exact absurd hi (work_turn 0 moved hbefore hfull).1
    · rw [← (work_spec moved).1 i hij]
      exact hi
  | _ => exact hi

end Parking

end RtsPipeline.Threaded
