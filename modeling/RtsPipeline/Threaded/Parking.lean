/-
  The workers of the threaded pipeline asleep on their condition variable.

  `pop_blocking` holds the mutex while it looks at the flag and at the heap, and `wait_for` gives
  the mutex up and goes to sleep in one step, so a push comes either before the look or after the
  worker is asleep, and then `notify_one` wakes a sleeper.  The flag is another matter: it is set,
  and `wake_all` is called, without the mutex, so both may fall between a worker's look at the flag
  and its sleep, and Ctrl-C and the timer call no `wake_all` at all.  What bounds the sleep then is
  its hundred milliseconds.

  `Pipeline` has a worker that finds nothing try again at any time; here it sleeps.  That this loses
  no task is a matter of counting.  A push adds one task and wakes one sleeper, if there is one, so
  queued tasks and sleepers together do not grow by a push; a worker goes to sleep only after it saw
  the heap empty, and nothing was pushed since, as it held the lock.  Hence tasks and sleepers fit
  in the number of the workers (`Attended.covered`), which is what both `no_task_sleeps` and the
  response time rest on.

  The way out after a cancellation is measured instead.  `toGo` says how long a worker needs from
  where it stands, its sleep included, and `exitBy` adds when that begins.  A step that is not late
  can only bring this date nearer, so what it is at the moment the flag is set bounds the exit.  The
  worst place is that of a worker that has looked and does not sleep yet: it misses `wake_all` and
  sleeps its hundred milliseconds.

  1. `Parking` and `act` — the system of `Pipeline` with the mutex, the sleepers and the clock.
  2. `refines_system` — seen from outside, a run of that system.
  3. `Attended` and `no_task_sleeps` — a queued task is never left to a sleeping worker.
  4. `exitBy` and `workers_exit` — once the flag is set, every worker has left soon.
-/
import RtsPipeline.Lib.Timed
import RtsPipeline.Threaded.Completion

namespace RtsPipeline.Threaded

open Lib

/-- Where a worker that is in `pop_blocking` stands. -/
inductive Stand
  | ready       -- about to take the lock
  | armed       -- holds the lock; the flag was clear and the heap empty
  | asleep      -- in `wait_for`
deriving DecidableEq, Repr

/-- `Duration::from_millis(100)`. -/
def waitForNs : Nat := 100000000

/-- The threaded pipeline with its condition variable.  `due` is when a sleep ends, and of a worker
    that is not asleep since when its next step is due. -/
structure Parking (n : Nat) where
  sys : System n
  stands : Fin n → Stand
  due : Fin n → Nat
  woke : Bool       -- `wake_all` was called

/-- One atomic step of an interleaving. -/
inductive ParkEvent (n : Nat)
  | other (e : SystemEvent n) (woken : Option (Fin n))  -- another thread; whom its push wakes
  | work (i : Fin n) (now : Nat)
  | sleep (i : Fin n)
  | timeout (i : Fin n)
  | wakeAll

/-- The step of the system inside. -/
def ParkEvent.inner {n : Nat} : ParkEvent n → Option (SystemEvent n)
  | other e _ => some e
  | work i now => some (.work i now)
  | _ => none

namespace Parking

variable {n : Nat}

/-- `run`, with all threads spawned. -/
def start (n capacity : Nat) : Parking n :=
  { sys := System.start n capacity, stands := fun _ => .ready, due := fun _ => 0, woke := false }

/-- Nobody holds the lock. -/
def free (s : Parking n) : Bool := decide (∀ i, s.stands i ≠ .armed)

/-- Whom `notify_one` may wake: a sleeper, if there is one. -/
def picks (s : Parking n) : Option (Fin n) → Bool
  | some i => decide (s.stands i = .asleep)
  | none => decide (∀ i, s.stands i ≠ .asleep)

/-- A sleeper is woken. -/
def wake (clock : Nat) (s : Parking n) (i : Fin n) : Parking n :=
  { s with stands := Function.update s.stands i .ready, due := Function.update s.due i clock }

/-- `dispatch` comes to its push. -/
def notifies (fromStr : Text → Option Json) (s : Parking n) (raw : Text) (now : Nat) : Bool :=
  match classify fromStr raw s.sys.failsafe.isDegraded now with
  | .admitted _ => true
  | _ => false

/-- What the mutex, the condition variable and the clock let another thread do. -/
def permits (fromStr : Text → Option Json) (clock : Nat) (s : Parking n) (e : SystemEvent n)
    (woken : Option (Fin n)) : Bool :=
  match e with
  | .work _ _ => false
  | .dispatch raw now _ =>
    decide (now = clock) &&
      if s.notifies fromStr raw now then s.free && s.picks woken else woken.isNone
  -- the workers are joined after `wake_all`
  | .main => woken.isNone && (decide (s.sys.main ≠ .joining) || s.woke)
  | _ => woken.isNone

/-- A step of another thread. -/
def other (fromStr : Text → Option Json) (high : UInt64) (clock : Nat) (s : Parking n)
    (e : SystemEvent n) (woken : Option (Fin n)) : Option (Parking n) :=
  if s.permits fromStr clock e woken then
    (s.sys.step fromStr high e).map fun sys => { woken.elim s (s.wake clock) with sys := sys }
  else none

/-- The step of a worker inside the system. -/
def advance (high : UInt64) (clock : Nat) (s : Parking n) (i : Fin n) : Option (Parking n) :=
  (s.sys.work high i clock).map fun sys =>
    { s with sys := sys, due := Function.update s.due i clock }

/-- The next step of a worker that is awake. -/
def work (high : UInt64) (clock : Nat) (s : Parking n) (i : Fin n) : Option (Parking n) :=
  match s.sys.workers i with
  -- in `pop_blocking`, with the lock taken for this look
  | .popping =>
    if s.stands i = .ready ∧ s.free = true then
      match s.sys.queue.popBlocking s.sys.cancel with
      | .wait =>
        some { s with
          stands := Function.update s.stands i .armed
          due := Function.update s.due i clock }
      | _ => s.advance high clock i
    else none
  -- outside of it nothing is shared with the sleepers
  | _ => s.advance high clock i

/-- One step at a time. -/
def act (fromStr : Text → Option Json) (high : UInt64) (clock : Nat) (s : Parking n) :
    ParkEvent n → Option (Parking n)
  | .other e woken => s.other fromStr high clock e woken
  | .work i now => if now = clock then s.work high clock i else none
  -- `wait_for` gives up the lock and sleeps, in one step
  | .sleep i =>
    if s.stands i = .armed then
      some { s with
        stands := Function.update s.stands i .asleep
        due := Function.update s.due i (clock + waitForNs) }
    else none
  -- it returns by itself, and the loop looks again
  | .timeout i =>
    if s.stands i = .asleep ∧ s.due i ≤ clock then some (s.wake clock i) else none
  -- `queue.wake_all()`, once the main thread has set the flag
  | .wakeAll =>
    if s.sys.main = .joining ∧ s.woke = false then
      some { s with
        stands := fun i => if s.stands i = .asleep then .ready else s.stands i
        due := fun i => if s.stands i = .asleep then clock else s.due i
        woke := true }
    else none

/-! ## What a step can do

  The steps of the other threads fall into three kinds only: a push that finds nobody asleep, a push
  that wakes a sleeper, and whatever leaves the queue alone.  The invariants need no more of
  them. -/

/-- What one step can do, and when. -/
inductive Stepped (fromStr : Text → Option Json) (high : UInt64) (clock : Nat) (s : Parking n) :
    ParkEvent n → Parking n → Prop
  -- a push needs the lock, so no worker may be between its look and its sleep
  | push (e : SystemEvent n) (sys : System n) (moved : s.sys.step fromStr high e = some sys)
      (outside : ∀ i now, e ≠ .work i now) (unlocked : ∀ i, s.stands i ≠ .armed)
      (awake : ∀ i, s.stands i ≠ .asleep) :
      Stepped fromStr high clock s (.other e none) { s with sys := sys }
  | pushWake (e : SystemEvent n) (sys : System n) (i : Fin n)
      (moved : s.sys.step fromStr high e = some sys) (outside : ∀ i now, e ≠ .work i now)
      (unlocked : ∀ i, s.stands i ≠ .armed) (at_ : s.stands i = .asleep) :
      Stepped fromStr high clock s (.other e (some i)) { s.wake clock i with sys := sys }
  | aside (e : SystemEvent n) (sys : System n) (moved : s.sys.step fromStr high e = some sys)
      (outside : ∀ i now, e ≠ .work i now) (queue : sys.queue = s.sys.queue) :
      Stepped fromStr high clock s (.other e none) { s with sys := sys }
  -- nothing there: the worker goes on to sleep and keeps the lock
  | look (i : Fin n) (at_ : s.sys.workers i = .popping) (stand : s.stands i = .ready)
      (clear : s.sys.cancel = false) (empty : s.sys.queue.pop = none) :
      Stepped fromStr high clock s (.work i clock) { s with
        stands := Function.update s.stands i .armed
        due := Function.update s.due i clock }
  | advance (i : Fin n) (sys : System n) (moved : s.sys.work high i clock = some sys)
      (stand : s.sys.workers i = .popping → s.stands i = .ready)
      (full : s.sys.workers i = .popping → s.sys.cancel = true ∨ s.sys.queue.pop ≠ none) :
      Stepped fromStr high clock s (.work i clock)
        { s with sys := sys, due := Function.update s.due i clock }
  | sleep (i : Fin n) (stand : s.stands i = .armed) :
      Stepped fromStr high clock s (.sleep i) { s with
        stands := Function.update s.stands i .asleep
        due := Function.update s.due i (clock + waitForNs) }
  | timeout (i : Fin n) (stand : s.stands i = .asleep) (passed : s.due i ≤ clock) :
      Stepped fromStr high clock s (.timeout i) (s.wake clock i)
  | wakeAll (phase : s.sys.main = .joining) :
      Stepped fromStr high clock s .wakeAll { s with
        stands := fun i => if s.stands i = .asleep then .ready else s.stands i
        due := fun i => if s.stands i = .asleep then clock else s.due i
        woke := true }

/-- A step that is no worker's and does not come to a push leaves the queue alone. -/
theorem queue_of_quiet {fromStr : Text → Option Json} {high : UInt64} {s : Parking n}
    {sys : System n} {e : SystemEvent n} (h : s.sys.step fromStr high e = some sys)
    (outside : ∀ i now, e ≠ .work i now)
    (quiet : ∀ raw now nowNs, e = .dispatch raw now nowNs → s.notifies fromStr raw now = false) :
    sys.queue = s.sys.queue := by
  cases e with
  -- a dispatch that pushes would notify
  | dispatch raw now nowNs =>
    have hquiet := quiet raw now nowNs rfl
    rw [System.step] at h
    split at h
    · unfold System.dispatch at h
      unfold notifies at hquiet
      cases hc : classify fromStr raw s.sys.failsafe.isDegraded now with
      | skipped err =>
        simp only [hc] at h
        obtain rfl := Option.some.inj h
        rfl
      | shed event =>
        simp only [hc] at h
        obtain rfl := Option.some.inj h
        rfl
      | admitted task =>
        rw [hc] at hquiet
        cases hquiet
    · cases h
  | work i now => exact absurd rfl (outside i now)
  | _ =>
    cases System.stepped_of_step h with
    | _ => rfl

theorem stepped_other {fromStr : Text → Option Json} {high : UInt64} {clock : Nat}
    {s s' : Parking n} {e : SystemEvent n} {woken : Option (Fin n)}
    (h : s.other fromStr high clock e woken = some s') :
    Stepped fromStr high clock s (.other e woken) s' := by
  unfold other at h
  split at h
  case isFalse => cases h
  case isTrue hp =>
    obtain ⟨sys, hsys, rfl⟩ := Option.map_eq_some_iff.mp h
    have houtside : ∀ i now, e ≠ .work i now := by
      rintro i now rfl
      rw [permits] at hp
      cases hp
    -- unless the step comes to a push, nobody is woken
    have haside : woken.isNone = true →
        (∀ raw now nowNs, e = .dispatch raw now nowNs → s.notifies fromStr raw now = false) →
        Stepped fromStr high clock s (.other e woken)
          { woken.elim s (s.wake clock) with sys := sys } := by
      intro hnone hquiet
      obtain rfl := Option.isNone_iff_eq_none.mp hnone
      exact .aside e sys hsys houtside (queue_of_quiet hsys houtside hquiet)
    cases e with
    | dispatch raw now nowNs =>
      simp only [permits, Bool.and_eq_true] at hp
      cases hn : s.notifies fromStr raw now with
      | false =>
        rw [hn] at hp
        refine haside hp.2 ?_
        rintro raw' now' nowNs' ⟨⟩
        exact hn
      | true =>
        rw [hn, if_pos rfl, Bool.and_eq_true] at hp
        have hunlocked : ∀ i, s.stands i ≠ .armed := of_decide_eq_true hp.2.1
        cases woken with
        | none => exact .push _ sys hsys houtside hunlocked (of_decide_eq_true hp.2.2)
        | some i => exact .pushWake _ sys i hsys houtside hunlocked (of_decide_eq_true hp.2.2)
    | work i now => exact absurd rfl (houtside i now)
    | main =>
      simp only [permits, Bool.and_eq_true] at hp
      exact haside hp.1 fun _ _ _ he => by cases he
    | _ => exact haside hp fun _ _ _ he => by cases he

/-- Every step does one of these.  A worker that sees the flag leaves without looking at the heap;
    otherwise it takes what the heap gives, and waits only if that is nothing. -/
theorem stepped_of_act {fromStr : Text → Option Json} {high : UInt64} {clock : Nat}
    {s s' : Parking n} {k : ParkEvent n} (h : s.act fromStr high clock k = some s') :
    Stepped fromStr high clock s k s' := by
  cases k with
  | other e woken => exact stepped_other h
  | work i now =>
    simp only [act] at h
    split at h
    case isFalse => cases h
    case isTrue hnow =>
      subst hnow
      unfold work at h
      cases hw : s.sys.workers i with
      | popping =>
        simp only [hw] at h
        split at h
        case isFalse => cases h
        case isTrue hstand =>
          unfold PriorityQueue.popBlocking at h
          cases hc : s.sys.cancel with
          | true =>
            simp only [hc, if_true] at h
            obtain ⟨sys, hsys, rfl⟩ := Option.map_eq_some_iff.mp h
            exact .advance i sys hsys (fun _ => hstand.1) fun _ => Or.inl hc
          | false =>
            simp only [hc, Bool.false_eq_true, if_false] at h
            cases hpop : s.sys.queue.pop with
            | none =>
              simp only [hpop] at h
              obtain rfl := Option.some.inj h
              exact .look i hw hstand.1 hc hpop
            | some r =>
              simp only [hpop] at h
              obtain ⟨sys, hsys, rfl⟩ := Option.map_eq_some_iff.mp h
              exact .advance i sys hsys (fun _ => hstand.1) fun _ => Or.inr (by simp [hpop])
      | body task actualStart total todo =>
        simp only [hw] at h
        obtain ⟨sys, hsys, rfl⟩ := Option.map_eq_some_iff.mp h
        exact .advance i sys hsys (fun hpop => by rw [hw] at hpop; cases hpop)
          fun hpop => by rw [hw] at hpop; cases hpop
      | exited =>
        simp only [hw] at h
        obtain ⟨sys, hsys, rfl⟩ := Option.map_eq_some_iff.mp h
        exact .advance i sys hsys (fun hpop => by rw [hw] at hpop; cases hpop)
          fun hpop => by rw [hw] at hpop; cases hpop
  | sleep i =>
    obtain ⟨hstand, rfl⟩ := of_guard h
    exact .sleep i hstand
  | timeout i =>
    obtain ⟨hstand, rfl⟩ := of_guard h
    exact .timeout i hstand.1 hstand.2
  | wakeAll =>
    obtain ⟨hphase, rfl⟩ := of_guard h
    exact .wakeAll hphase.1

variable {fromStr : Text → Option Json} {high : UInt64}

/-! ## A run of the system

  Falling asleep, waking up and `wake_all` change nothing the system has, so they leave no trace in
  its run.  A look that finds nothing is a step of the system that changes nothing. -/

/-- Seen from outside, a step is the step of the system inside, or none. -/
theorem system_step {clock : Nat} {s s' : Parking n} {k : ParkEvent n}
    (h : s.act fromStr high clock k = some s') :
    run (System.step fromStr high) s.sys k.inner.toList = some s'.sys := by
  have hone : ∀ {e : SystemEvent n} {sys : System n}, s.sys.step fromStr high e = some sys →
      run (System.step fromStr high) s.sys [e] = some sys := fun he =>
    run_cons_some.mpr ⟨_, he, rfl⟩
  cases stepped_of_act h with
  | push e sys moved outside unlocked awake => exact hone moved
  | pushWake e sys i moved outside unlocked at_ => exact hone moved
  | aside e sys moved outside queue => exact hone moved
  | look i at_ stand clear empty =>
    -- in the system, the worker looks and is back at the top of its loop
    refine hone ?_
    simp only [System.step, System.work, at_, PriorityQueue.popBlocking, clear, empty,
      Bool.false_eq_true, if_false]
  | advance i sys moved stand full => exact hone moved
  | sleep i stand => rfl
  | timeout i stand passed => rfl
  | wakeAll phase => rfl

/-- **Refinement**: a run of the pipeline with its condition variable is a run of the system in
    which a worker that finds nothing may try again at any time.

    A look that finds nothing, a sleep and a wake-up are no steps of that system or leave it as it
    is; every other step is one of its own. -/
theorem refines_system {s s' : Timed (Parking n)} (ls : List (TimedEvent (ParkEvent n)))
    (h : run (Timed.step (act fromStr high)) s ls = some s') :
    run (System.step fromStr high) s.state.sys
      (ls.filterMap fun e => e.act?.bind ParkEvent.inner) = some s'.state.sys := by
  refine run_refine (fun s => s.state.sys) _ ?_ ls s s' h
  intro s e s' he
  cases e with
  | elapse ns => rw [Timed.step_elapse he]; rfl
  | act k => exact system_step (Timed.step_act he).2

/-- A worker looks, sleeps and is woken by a task. -/
theorem refines_system_woken :
    let raw := "\x7b\"user\":\"u\",\"server_name\":\"w\"\x7d".toList
    let fromStr := fun _ => some (Json.obj [("user", .str "u"), ("server_name", .str "w")])
    let ls : List (TimedEvent (ParkEvent 1)) :=
      [.act (.work 0 0), .act (.sleep 0), .elapse 5, .act (.other (.dispatch raw 5 0) (some 0)),
        .act (.work 0 5)]
    ∃ s, run (Timed.step (act fromStr 0)) ⟨0, start 1 1⟩ ls = some s ∧
      run (System.step fromStr 0) (System.start 1 1)
        [.work 0 0, .dispatch raw 5 0, .work 0 5] = some s.state.sys := by
  intro raw fromStr ls
  have hsome : (run (Timed.step (act fromStr 0)) ⟨0, start 1 1⟩ ls).isSome = true := by
    decide +kernel
  obtain ⟨s, hs⟩ := Option.isSome_iff_exists.mp hsome
  exact ⟨s, hs, refines_system ls hs⟩

/-! ## Sleepers

How many workers sleep is a number, as it does not matter who they are: `notify_one` picks one of
them, and the model lets it be any. -/

/-- How many of the workers sleep. -/
def sleeping (stands : Fin n → Stand) : Nat := tally (fun w => decide (w = .asleep)) stands

theorem sleeping_update (stands : Fin n → Stand) (i : Fin n) (w : Stand) :
    sleeping (Function.update stands i w) + (decide (stands i = .asleep)).toNat =
      sleeping stands + (decide (w = .asleep)).toNat :=
  tally_update (fun w => decide (w = Stand.asleep)) stands i w

theorem sleeping_wake {stands : Fin n → Stand} {i : Fin n} (h : stands i = .asleep) :
    sleeping (Function.update stands i .ready) + 1 = sleeping stands := by
  have := sleeping_update stands i .ready
  rw [h] at this
  exact this

theorem sleeping_eq_zero {stands : Fin n → Stand} :
    sleeping stands = 0 ↔ ∀ i, stands i ≠ .asleep := by
  rw [sleeping, tally_eq_zero]
  exact forall_congr' fun i => decide_eq_false_iff_not

/-- Whoever is woken stands at the lock, and the others stand where they stood. -/
theorem stand_of_woken {stands : Fin n → Stand} {i j : Fin n} {w : Stand} (hw : w ≠ .ready)
    (h : Function.update stands i .ready j = w) : stands j = w := by
  by_cases hji : j = i
  · subst hji
    rw [Function.update_self] at h
    exact absurd h.symm hw
  · rwa [Function.update_of_ne hji] at h

theorem ready_of_woken {stands : Fin n → Stand} {i j : Fin n} (h : stands j = .ready) :
    Function.update stands i .ready j = .ready := by
  by_cases hji : j = i
  · subst hji
    exact Function.update_self ..
  · rwa [Function.update_of_ne hji]

/-! ## No task is left to a sleeper

The lost wake-up to be excluded is a task pushed between a worker's look at the heap and its sleep.
It cannot come there, since the worker holds the lock in between and the push needs it; this is the
second part of `Attended`.  The third is the count: a push wakes a sleeper for the task it adds, and
a worker that takes a task was awake. -/

/-- Only a worker in `pop_blocking` stands at the lock; who holds the lock has seen the heap empty;
    and while the flag is clear and somebody sleeps, there is a waking worker for every task.

    `covered` is the point, and `lock` is what makes it inductive: the sleeper that `sleep` adds is
    one that holds the lock, and then nothing is queued.  `covered` begins with "nobody sleeps"
    because then a queue may hold more tasks than there are workers.  The flag has to be clear, as
    once it is set a worker leaves without taking a task. -/
structure Attended (sys : System n) (stands : Fin n → Stand) : Prop where
  inside : ∀ i, stands i ≠ .ready → sys.workers i = .popping
  lock : ∀ i, stands i = .armed → sys.queue.len = 0
  covered : sys.cancel = false → sleeping stands = 0 ∨ sys.queue.len + sleeping stands ≤ n

theorem attended_start (C : Nat) : Attended (System.start n C) fun _ => .ready where
  inside := fun _ h => absurd rfl h
  lock := fun _ h => by cases h
  covered := fun _ => Or.inl (sleeping_eq_zero.mpr fun _ h => by cases h)

/-- A push lengthens the queue by one at most. -/
theorem len_of_step {s s' : System n} {e : SystemEvent n} (h : s.step fromStr high e = some s') :
    s'.queue.len ≤ s.queue.len + 1 := by
  cases System.stepped_of_step h with
  | pushed raw now nowNs event q o accepted push =>
    have := (PriorityQueue.push_some push).conserve.length_eq
    rw [List.length_cons, List.length_append, PriorityQueue.length_queued,
      PriorityQueue.length_queued] at this
    show q.len ≤ s.queue.len + 1
    omega
  | pop i now t q at_ pop =>
    have := PriorityQueue.len_of_pop pop
    show q.len ≤ s.queue.len + 1
    omega
  | _ => exact Nat.le_add_right _ _

/-- A step of another thread leaves the workers where they are, and never clears the flag. -/
theorem workers_of_outside {s s' : System n} {e : SystemEvent n}
    (h : s.step fromStr high e = some s') (outside : ∀ i now, e ≠ .work i now) :
    s'.workers = s.workers := by
  cases System.stepped_of_step h with
  | exit i now at_ => exact absurd rfl (outside i now)
  | pop i now t q at_ pop => exact absurd rfl (outside i now)
  | call i now task actualStart total total' b todo metrics silent at_ =>
    exact absurd rfl (outside i now)
  | send i now task actualStart total total' todo at_ => exact absurd rfl (outside i now)
  | again i now task actualStart total at_ => exact absurd rfl (outside i now)
  | _ => rfl

theorem cancel_of_step {s s' : System n} {e : SystemEvent n}
    (h : s.step fromStr high e = some s') (hc : s'.cancel = false) : s.cancel = false := by
  by_contra hne
  rw [System.cancel_kept h (Bool.eq_true_of_not_eq_false hne)] at hc
  cases hc

/-- A worker's step moves no other worker, and does not lengthen the queue. -/
theorem work_spec {s s' : System n} {i : Fin n} {now : Nat} (h : s.work high i now = some s') :
    (∀ j, j ≠ i → s'.workers j = s.workers j) ∧ s'.queue.len ≤ s.queue.len := by
  have hne : ∀ (w : Worker) (j : Fin n), j ≠ i → Function.update s.workers i w j = s.workers j :=
    fun w j hj => Function.update_of_ne hj _ _
  cases @System.stepped_work n (fun _ => none) high s s' i now h with
  | idle e rejected => exact ⟨fun _ _ => rfl, Nat.le_refl _⟩
  | exit i now at_ => exact ⟨hne _, Nat.le_refl _⟩
  | pop i now t q at_ pop =>
    refine ⟨hne _, ?_⟩
    have := PriorityQueue.len_of_pop pop
    show q.len ≤ s.queue.len
    omega
  | call i now task actualStart total total' b todo metrics silent at_ =>
    exact ⟨hne _, Nat.le_refl _⟩
  | send i now task actualStart total total' todo at_ => exact ⟨hne _, Nat.le_refl _⟩
  | again i now task actualStart total at_ => exact ⟨hne _, Nat.le_refl _⟩

/-- **Step lemma** for `Attended`. -/
theorem Attended.step {clock : Nat} {s s' : Parking n} {k : ParkEvent n}
    (h : Attended s.sys s.stands) (hs : Stepped fromStr high clock s k s') :
    Attended s'.sys s'.stands := by
  cases hs with
  -- nobody is asleep, so there is nothing to show of the count
  | push e sys moved outside unlocked awake =>
    refine ⟨fun i hi => ?_, fun i hi => absurd hi (unlocked i), fun _ => ?_⟩
    · rw [workers_of_outside moved outside]
      exact h.inside i hi
    · exact Or.inl (sleeping_eq_zero.mpr awake)
  | pushWake e sys i moved outside unlocked at_ =>
    change Attended sys (Function.update s.stands i .ready)
    refine ⟨fun j hj => ?_, fun j hj => ?_, fun hc => ?_⟩
    · rw [workers_of_outside moved outside]
      exact h.inside j fun hready => hj (ready_of_woken hready)
    · exact absurd (stand_of_woken (by simp) hj) (unlocked j)
    · -- one task more, one sleeper less
      have hwake := sleeping_wake at_
      have hlen := len_of_step moved
      have := h.covered (cancel_of_step moved hc)
      omega
  | aside e sys moved outside queue =>
    refine ⟨fun i hi => ?_, fun i hi => ?_, fun hc => ?_⟩
    · rw [workers_of_outside moved outside]
      exact h.inside i hi
    · rw [queue]
      exact h.lock i hi
    · rw [queue]
      exact h.covered (cancel_of_step moved hc)
  -- the worker finds the heap empty, and keeps the lock until it sleeps
  | look i at_ stand clear empty =>
    change Attended s.sys (Function.update s.stands i .armed)
    have hlen : s.sys.queue.len = 0 := by
      rw [← PriorityQueue.length_queued, PriorityQueue.pop_eq_none.mp empty]
      rfl
    refine ⟨fun j hj => ?_, fun j _ => hlen, fun hc => ?_⟩
    · by_cases hji : j = i
      · subst hji
        exact at_
      · rw [Function.update_of_ne hji] at hj
        exact h.inside j hj
    · have hsame := sleeping_update s.stands i .armed
      simp only [stand, reduceCtorEq, decide_false, Bool.toNat_false] at hsame
      have := h.covered hc
      omega
  -- a pop takes one task, and the one who took it is awake
  | advance i sys moved stand full =>
    change Attended sys s.stands
    obtain ⟨hworkers, hlen⟩ := work_spec moved
    have hstep : s.sys.step fromStr high (.work i clock) = some sys := moved
    refine ⟨fun j hj => ?_, fun j hj => ?_, fun hc => ?_⟩
    · by_cases hji : j = i
      · subst hji
        exact absurd (stand (h.inside j hj)) hj
      · rw [hworkers j hji]
        exact h.inside j hj
    · have := h.lock j hj
      omega
    · have := h.covered (cancel_of_step hstep hc)
      omega
  | sleep i stand =>
    change Attended s.sys (Function.update s.stands i .asleep)
    have hlen := h.lock i stand
    refine ⟨fun j hj => ?_, fun j _ => hlen, fun _ => ?_⟩
    · by_cases hji : j = i
      · subst hji
        exact h.inside j (by rw [stand]; simp)
      · rw [Function.update_of_ne hji] at hj
        exact h.inside j hj
    · -- whoever goes to sleep leaves no task behind
      rw [hlen, Nat.zero_add]
      exact Or.inr (tally_le _ _)
  | timeout i stand passed =>
    change Attended s.sys (Function.update s.stands i .ready)
    refine ⟨fun j hj => ?_, fun j hj => ?_, fun hc => ?_⟩
    · exact h.inside j fun hready => hj (ready_of_woken hready)
    · exact h.lock j (stand_of_woken (by simp) hj)
    · have hwake := sleeping_wake stand
      have := h.covered hc
      omega
  | wakeAll phase =>
    change Attended s.sys fun i => if s.stands i = .asleep then .ready else s.stands i
    refine ⟨fun j hj => ?_, fun j hj => ?_, fun _ => Or.inl (sleeping_eq_zero.mpr fun j => ?_)⟩
    · refine h.inside j fun hready => hj ?_
      rw [hready]
      rfl
    · refine h.lock j ?_
      split at hj
      · cases hj
      · exact hj
    · split
      · simp
      · assumption

theorem attended_run {C : Nat} {s : Timed (Parking n)} {ls : List (TimedEvent (ParkEvent n))}
    (h : run (Timed.step (act fromStr high)) ⟨0, start n C⟩ ls = some s) :
    Attended s.state.sys s.state.stands :=
  Timed.invariant (I := fun _ (s : Parking n) => Attended s.sys s.stands) (fun _ _ _ _ hs => hs)
    (fun _ _ _ _ hs hk => hs.step (stepped_of_act hk)) (attended_start C) h

/-- **No task sleeps**: in every run, while the flag is clear and a worker is asleep, at least as
    many workers are awake as tasks are queued; so when all sleep, nothing is queued.  No sleep has
    to end by itself for that.

    With `Attended.covered`, tasks and sleepers are no more than the workers.  If all of them sleep,
    there is no room for a task. -/
theorem no_task_sleeps (fromStr : Text → Option Json) (high : UInt64) (n C : Nat)
    (ls : List (TimedEvent (ParkEvent n))) (s : Timed (Parking n))
    (h : run (Timed.step (act fromStr high)) ⟨0, start n C⟩ ls = some s)
    (hclear : s.state.sys.cancel = false) (hasleep : ∃ i, s.state.stands i = .asleep) :
    s.state.sys.queue.len + sleeping s.state.stands ≤ n ∧
      ((∀ i, s.state.stands i = .asleep) → s.state.sys.queue.queued = []) := by
  obtain ⟨i, hi⟩ := hasleep
  have hcover : s.state.sys.queue.len + sleeping s.state.stands ≤ n := by
    rcases (attended_run h).covered hclear with hzero | hle
    · exact absurd hi (sleeping_eq_zero.mp hzero i)
    · exact hle
  refine ⟨hcover, fun hall => ?_⟩
  have hfull : sleeping s.state.stands = n := tally_eq_all.mpr fun i => decide_eq_true (hall i)
  have hlen : s.state.sys.queue.queued.length = 0 := by
    rw [PriorityQueue.length_queued]
    omega
  exact List.length_eq_zero_iff.mp hlen

/-- One worker asleep, one on its way to the task that arrived. -/
theorem no_task_sleeps_two :
    let raw := "\x7b\"user\":\"u\",\"server_name\":\"w\"\x7d".toList
    let fromStr := fun _ => some (Json.obj [("user", .str "u"), ("server_name", .str "w")])
    let ls : List (TimedEvent (ParkEvent 2)) :=
      [.act (.work 0 0), .act (.sleep 0), .act (.work 1 0), .act (.sleep 1),
        .act (.other (.dispatch raw 0 0) (some 1))]
    ∃ s, run (Timed.step (act fromStr 0)) ⟨0, start 2 1⟩ ls = some s ∧
      s.state.sys.queue.len = 1 ∧ s.state.sys.queue.len + sleeping s.state.stands ≤ 2 := by
  intro raw fromStr ls
  obtain ⟨s, hs, hv⟩ := Option.map_eq_some_iff.mp
    (show (run (Timed.step (act fromStr 0)) ⟨0, start 2 1⟩ ls).map
      (fun s => (s.state.sys.cancel, s.state.stands 0, s.state.sys.queue.len)) =
      some (false, .asleep, 1) from by decide +kernel)
  obtain ⟨hclear, hasleep, hlen⟩ : s.state.sys.cancel = false ∧ s.state.stands 0 = .asleep ∧
      s.state.sys.queue.len = 1 := by simpa using hv
  exact ⟨s, hs, hlen, (no_task_sleeps fromStr 0 2 1 ls s hs hclear ⟨0, hasleep⟩).1⟩

/-! ## The workers' way out

  A worker leaves at the first look at the flag that finds it set.  Before that look lie at most the
  rest of an iteration, or a sleep and the return from it. -/

/-- No worker's next step is overdue by more than `late`. -/
def Punctual (late : Nat) (s : Timed (Parking n)) : Prop :=
  ∀ i, s.state.sys.workers i = .exited ∨ s.clock ≤ s.state.due i + late

instance (late : Nat) : DecidablePred (Punctual (n := n) late) := fun s =>
  inferInstanceAs (Decidable (∀ i, s.state.sys.workers i = .exited ∨
    s.clock ≤ s.state.due i + late))

/-- How long after `due` a prompt worker has left, once the flag is set: a delay for each step of
    the iteration that is left and two for the way back to the lock and the look; of a sleeper,
    whose `due` is the end of its sleep, only the return and the look; and of a worker that is about
    to sleep, the whole sleep as well. -/
def toGo (late : Nat) (w : Worker) (stand : Stand) : Nat :=
  match w with
  | .exited => 0
  | .body _ _ _ todo => (todo.length + 2) * late
  | .popping =>
    match stand with
    | .ready => late
    | .asleep => 2 * late
    | .armed => 3 * late + waitForNs

/-- When a prompt worker has left, once the flag is set. -/
def exitBy (late : Nat) (s : Parking n) (i : Fin n) : Nat :=
  s.due i + toGo late (s.sys.workers i) (s.stands i)

theorem late_le_toGo (late : Nat) {w : Worker} (h : w ≠ .exited) (stand : Stand) :
    late ≤ toGo late w stand := by
  cases w with
  | exited => exact absurd rfl h
  | body task actualStart total todo =>
    show late ≤ (todo.length + 2) * late
    exact Nat.le_mul_of_pos_left late (Nat.succ_pos _)
  | popping => cases stand <;> simp only [toGo] <;> omega

/-- Once the flag is set, a worker's step takes it out, or one step nearer. -/
theorem work_nearer (late : Nat) {s s' : System n} {i : Fin n} {now : Nat}
    (h : s.work high i now = some s') (hset : s.cancel = true) :
    s'.workers i = .exited ∨
      toGo late (s'.workers i) .ready + late ≤ toGo late (s.workers i) .ready := by
  cases hw : s.workers i with
  | exited =>
    simp only [System.work, hw] at h
    cases h
  | popping =>
    simp only [System.work, hw, PriorityQueue.popBlocking, hset, if_true] at h
    obtain rfl := Option.some.inj h
    exact Or.inl (Function.update_self ..)
  | body task actualStart total todo =>
    cases todo with
    | nil =>
      simp only [System.work, hw] at h
      obtain rfl := Option.some.inj h
      have hself : (s.setWorker i .popping).workers i = .popping := Function.update_self ..
      rw [hself]
      show Worker.popping = .exited ∨ late + late ≤ (0 + 2) * late
      omega
    | cons b todo =>
      simp only [System.work, hw] at h
      obtain rfl := Option.some.inj h
      have hself : ∀ (t : System n) (w : Worker), (t.setWorker i w).workers i = w := fun _ _ =>
        Function.update_self ..
      rw [hself]
      refine Or.inr ?_
      show (todo.length + 2) * late + late ≤ (todo.length + 1 + 2) * late
      rw [← Nat.succ_mul]

/-- A step that is not the worker's own leaves an exited worker where it is. -/
theorem Stepped.exited {clock : Nat} {s s' : Parking n} {k : ParkEvent n}
    (hs : Stepped fromStr high clock s k s') {i : Fin n} (h : s.sys.workers i = .exited) :
    s'.sys.workers i = .exited := by
  cases hs with
  | push e sys moved outside unlocked awake =>
    show sys.workers i = _
    rw [workers_of_outside moved outside]
    exact h
  | pushWake e sys j moved outside unlocked at_ =>
    show sys.workers i = _
    rw [workers_of_outside moved outside]
    exact h
  | aside e sys moved outside queue =>
    show sys.workers i = _
    rw [workers_of_outside moved outside]
    exact h
  | advance j sys moved stand full =>
    show sys.workers i = _
    by_cases hij : i = j
    · subst hij
      simp only [System.work, h] at moved
      cases moved
    · rw [(work_spec moved).1 i hij]
      exact h
  | _ => exact h

/-- **Step lemma**: once the flag is set, nobody's way out gets longer. -/
theorem Stepped.exitBy_le {late clock : Nat} {s s' : Parking n} {k : ParkEvent n}
    (hs : Stepped fromStr high clock s k s') (hset : s.sys.cancel = true)
    (hatt : Attended s.sys s.stands) {i : Fin n}
    (hlate : s.sys.workers i = .exited ∨ clock ≤ s.due i + late) :
    s'.sys.workers i = .exited ∨ s'.exitBy late i ≤ s.exitBy late i := by
  rcases hlate with hexit | hlate
  · exact Or.inl (hs.exited hexit)
  -- who is woken stands at the lock from now on
  have hwoken : s.stands i = .asleep →
      clock + toGo late (s.sys.workers i) .ready ≤ s.exitBy late i := by
    intro hstand
    have hpop := hatt.inside i (by rw [hstand]; simp)
    simp only [exitBy, hpop, hstand, toGo]
    omega
  cases hs with
  | push e sys moved outside unlocked awake =>
    refine Or.inr (Nat.le_of_eq ?_)
    show s.due i + toGo late (sys.workers i) (s.stands i) = _
    rw [workers_of_outside moved outside]
    rfl
  | pushWake e sys j moved outside unlocked at_ =>
    refine Or.inr ?_
    show Function.update s.due j clock i +
      toGo late (sys.workers i) (Function.update s.stands j .ready i) ≤ _
    rw [workers_of_outside moved outside]
    by_cases hij : i = j
    · subst hij
      rw [Function.update_self, Function.update_self]
      exact hwoken at_
    · rw [Function.update_of_ne hij, Function.update_of_ne hij]
      exact Nat.le_refl _
  | aside e sys moved outside queue =>
    refine Or.inr (Nat.le_of_eq ?_)
    show s.due i + toGo late (sys.workers i) (s.stands i) = _
    rw [workers_of_outside moved outside]
    rfl
  | look j at_ stand clear empty =>
    rw [hset] at clear
    cases clear
  | advance j sys moved stand full =>
    show sys.workers i = .exited ∨
      Function.update s.due j clock i + toGo late (sys.workers i) (s.stands i) ≤ _
    by_cases hij : i = j
    · subst hij
      have hready : s.stands i = .ready := by
        by_contra hne
        exact hne (stand (hatt.inside i hne))
      refine (work_nearer late moved hset).imp_right fun hnear => ?_
      rw [Function.update_self, exitBy, hready]
      omega
    · rw [Function.update_of_ne hij, (work_spec moved).1 i hij]
      exact Or.inr (Nat.le_refl _)
  | sleep j stand =>
    refine Or.inr ?_
    show Function.update s.due j (clock + waitForNs) i +
      toGo late (s.sys.workers i) (Function.update s.stands j .asleep i) ≤ _
    by_cases hij : i = j
    · subst hij
      have hpop := hatt.inside i (by rw [stand]; simp)
      rw [Function.update_self, Function.update_self]
      simp only [exitBy, hpop, stand, toGo]
      omega
    · rw [Function.update_of_ne hij, Function.update_of_ne hij]
      exact Nat.le_refl _
  | timeout j stand passed =>
    refine Or.inr ?_
    show Function.update s.due j clock i +
      toGo late (s.sys.workers i) (Function.update s.stands j .ready i) ≤ _
    by_cases hij : i = j
    · subst hij
      rw [Function.update_self, Function.update_self]
      exact hwoken stand
    · rw [Function.update_of_ne hij, Function.update_of_ne hij]
      exact Nat.le_refl _
  | wakeAll phase =>
    refine Or.inr ?_
    show (if s.stands i = .asleep then clock else s.due i) +
      toGo late (s.sys.workers i) (if s.stands i = .asleep then .ready else s.stands i) ≤ _
    split
    · rename_i hstand
      exact hwoken hstand
    · exact Nat.le_refl _

/-- The flag stays set.  A step of the system keeps it, and sleeps and wake-ups do not touch it. -/
theorem cancel_kept {clock : Nat} {s s' : Parking n} {k : ParkEvent n}
    (h : s.act fromStr high clock k = some s') (hset : s.sys.cancel = true) :
    s'.sys.cancel = true := by
  by_contra hne
  have hclear := Bool.eq_false_iff.mpr hne
  have hstep := system_step h
  cases hk : k.inner with
  | none =>
    rw [hk] at hstep
    obtain heq := Option.some.inj hstep
    rw [heq] at hset
    rw [hset] at hclear
    cases hclear
  | some e =>
    rw [hk] at hstep
    obtain ⟨t, ht, hr⟩ := run_cons_some.mp hstep
    obtain rfl := Option.some.inj hr
    rw [cancel_of_step ht hclear] at hset
    cases hset

/-- **Bounded response** of one worker to the flag. -/
theorem responds (fromStr : Text → Option Json) (high : UInt64) (late : Nat) (i : Fin n) :
    Responds (Timed.step (act fromStr high)) Timed.clock
      (fun s => (s.state.sys.cancel = true ∧ Attended s.state.sys s.state.stands) ∧ Punctual late s)
      (fun s => s.state.sys.workers i = .exited) (fun s => s.state.exitBy late i) where
  stays := by
    intro s e s' _ hdone he
    cases e with
    | elapse ns => rw [Timed.step_elapse he]; exact hdone
    | act k => exact (stepped_of_act (Timed.step_act he).2).exited hdone
  sooner := by
    intro s e s' ⟨⟨hset, hatt⟩, hP⟩ _ he
    cases e with
    | elapse ns => rw [Timed.step_elapse he]; exact Or.inr (Nat.le_refl _)
    | act k => exact (stepped_of_act (Timed.step_act he).2).exitBy_le hset hatt (hP i)
  awaited := by
    intro s ⟨_, hP⟩
    by_cases hexit : s.state.sys.workers i = .exited
    · exact Or.inl hexit
    · have := (hP i).resolve_left hexit
      have := late_le_toGo late hexit (s.state.stands i)
      exact Or.inr (by rw [exitBy]; omega)

/-! ## How long that is

A bound that does not depend on the state: a sleep ends within the hundred milliseconds,
everything else is due already, and an iteration has five calls. -/

/-- A sleep ends within the hundred milliseconds, whatever else is due is due already, and a worker
    has at most its whole iteration before it.  So `exitBy` is never far from now, wherever the
    worker stands when the flag is set. -/
structure Dated (clock : Nat) (s : Parking n) : Prop where
  asleep : ∀ i, s.stands i = .asleep → s.due i ≤ clock + waitForNs
  awake : ∀ i, s.stands i ≠ .asleep → s.due i ≤ clock
  short : ∀ i task a t todo, s.sys.workers i = .body task a t todo →
    todo.length ≤ iteration.length

/-- One worker's place and date are set.  The others keep theirs. -/
theorem Dated.set {clock : Nat} {s : Parking n} (h : Dated clock s) (i : Fin n) {w : Stand}
    {d : Nat} (hasleep : w = .asleep → d ≤ clock + waitForNs) (hawake : w ≠ .asleep → d ≤ clock)
    {sys : System n} (hshort : ∀ i task a t todo, sys.workers i = .body task a t todo →
      todo.length ≤ iteration.length) : Dated clock { s with
        sys := sys
        stands := Function.update s.stands i w
        due := Function.update s.due i d } := by
  refine ⟨fun j hj => ?_, fun j hj => ?_, hshort⟩
  · change Function.update s.stands i w j = .asleep at hj
    show Function.update s.due i d j ≤ clock + waitForNs
    by_cases hji : j = i
    · subst hji
      rw [Function.update_self] at hj ⊢
      exact hasleep hj
    · rw [Function.update_of_ne hji] at hj ⊢
      exact h.asleep j hj
  · change Function.update s.stands i w j ≠ .asleep at hj
    show Function.update s.due i d j ≤ clock
    by_cases hji : j = i
    · subst hji
      rw [Function.update_self] at hj ⊢
      exact hawake hj
    · rw [Function.update_of_ne hji] at hj ⊢
      exact h.awake j hj

/-- **Step lemma** for `Dated`. -/
theorem Dated.step {clock : Nat} {s s' : Parking n} {k : ParkEvent n} (h : Dated clock s)
    (hs : Stepped fromStr high clock s k s') : Dated clock s' := by
  -- whoever moves gets a new date, and everybody else keeps the old one
  cases hs with
  | push e sys moved outside unlocked awake =>
    exact ⟨h.asleep, h.awake, System.short_step moved h.short⟩
  | pushWake e sys i moved outside unlocked at_ =>
    exact h.set i (fun hw => by cases hw) (fun _ => Nat.le_refl _) (System.short_step moved h.short)
  | aside e sys moved outside queue => exact ⟨h.asleep, h.awake, System.short_step moved h.short⟩
  | look i at_ stand clear empty =>
    exact h.set i (fun hw => by cases hw) (fun _ => Nat.le_refl _) h.short
  | advance i sys moved stand full =>
    have hstep : s.sys.step fromStr high (.work i clock) = some sys := moved
    have hset := h.set i (w := s.stands i) (d := clock) (fun _ => Nat.le_add_right _ _)
      (fun _ => Nat.le_refl _) (System.short_step hstep h.short)
    rwa [Function.update_eq_self] at hset
  | sleep i stand =>
    exact h.set i (fun _ => Nat.le_refl _) (fun hw => absurd rfl hw) h.short
  | timeout i stand passed =>
    exact h.set i (fun hw => by cases hw) (fun _ => Nat.le_refl _) h.short
  | wakeAll phase =>
    have hdue : ∀ j, (if s.stands j = .asleep then clock else s.due j) ≤ clock := by
      intro j
      split
      · exact Nat.le_refl _
      · rename_i hj
        exact h.awake j hj
    exact ⟨fun j _ => Nat.le_trans (hdue j) (Nat.le_add_right _ _), fun j _ => hdue j, h.short⟩

theorem dated_run {C : Nat} {s : Timed (Parking n)} {ls : List (TimedEvent (ParkEvent n))}
    (h : run (Timed.step (act fromStr high)) ⟨0, start n C⟩ ls = some s) :
    Dated s.clock s.state := by
  refine Timed.invariant (I := Dated) ?_ (fun _ _ _ _ hs hk => hs.step (stepped_of_act hk)) ?_ h
  · intro now later s hle hs
    refine ⟨fun i hi => ?_, fun i hi => Nat.le_trans (hs.awake i hi) hle, hs.short⟩
    exact Nat.le_trans (hs.asleep i hi) (Nat.add_le_add_right hle _)
  · exact ⟨fun _ hi => (by cases hi), fun _ _ => Nat.le_refl _, fun _ _ _ _ _ hw => (by cases hw)⟩

/-- Every worker is out a sleep and seven delays from now. -/
theorem Dated.exitBy_le {clock : Nat} {s : Parking n} (h : Dated clock s) (late : Nat) (i : Fin n) :
    s.exitBy late i ≤ clock + waitForNs + 7 * late := by
  rw [exitBy]
  -- by where the worker stands; the body is the longest way to go
  cases hw : s.sys.workers i with
  | exited =>
    show s.due i + 0 ≤ _
    by_cases hs : s.stands i = .asleep
    · have := h.asleep i hs
      omega
    · have := h.awake i hs
      omega
  | body task a t todo =>
    have htodo : (todo.length + 2) * late ≤ 7 * late :=
      Nat.mul_le_mul_right late (Nat.add_le_add_right (h.short i task a t todo hw) 2)
    show s.due i + (todo.length + 2) * late ≤ _
    by_cases hs : s.stands i = .asleep
    · have := h.asleep i hs
      omega
    · have := h.awake i hs
      omega
  | popping =>
    cases hs : s.stands i with
    | ready =>
      have := h.awake i (by rw [hs]; simp)
      simp only [toGo]
      omega
    | armed =>
      have := h.awake i (by rw [hs]; simp)
      simp only [toGo]
      omega
    | asleep =>
      have := h.asleep i hs
      simp only [toGo]
      omega

/-- **The workers leave in time**: in every run, from a state on in which the flag is set, whoever
    set it and whether or not `wake_all` found them asleep, prompt workers have all left after a
    hundred milliseconds and seven delays.

    `responds` gives each worker its date and `Dated` bounds it: the sleep it may be in, and a delay
    for each step until it comes to look at the flag. -/
theorem workers_exit (fromStr : Text → Option Json) (high : UInt64) (n C late : Nat)
    (ls : List (TimedEvent (ParkEvent n))) (s : Timed (Parking n))
    (h : run (Timed.step (act fromStr high)) ⟨0, start n C⟩ ls = some s)
    (hset : s.state.sys.cancel = true) (ms : List (TimedEvent (ParkEvent n)))
    (s' : Timed (Parking n)) (hms : run (Timed.step (act fromStr high)) s ms = some s')
    (hprompt : Throughout (Timed.step (act fromStr high)) (Punctual late) s ms)
    (hclock : s.clock + waitForNs + 7 * late < s'.clock) (i : Fin n) :
    s'.state.sys.workers i = .exited := by
  have hkept : Throughout (Timed.step (act fromStr high))
      (fun t => t.state.sys.cancel = true ∧ Attended t.state.sys t.state.stands) s ms := by
    intro before after _ t ht
    refine run_invariant (I := fun t : Timed (Parking n) =>
      t.state.sys.cancel = true ∧ Attended t.state.sys t.state.stands) ?_ before s t
      ⟨hset, attended_run h⟩ ht
    intro u e u' ⟨hc, hatt⟩ he
    cases e with
    | elapse ns => rw [Timed.step_elapse he]; exact ⟨hc, hatt⟩
    | act k =>
      have hk := (Timed.step_act he).2
      exact ⟨cancel_kept hk hc, hatt.step (stepped_of_act hk)⟩
  have hbound := (responds fromStr high late i).bounded (hkept.and hprompt) hms
  have := (dated_run h).exitBy_le late i
  exact hbound.resolve_right fun hle => by omega

/-- The flag is set behind a sleeper's back. -/
theorem workers_exit_asleep :
    let step := Timed.step (act (n := 1) (fun _ => none) 0)
    let ls : List (TimedEvent (ParkEvent 1)) :=
      [.act (.work 0 0), .act (.sleep 0), .act (.other .cancel none)]
    let ms : List (TimedEvent (ParkEvent 1)) :=
      [.elapse 100000000, .act (.timeout 0), .act (.work 0 100000000), .elapse 1]
    ∃ s s', run step ⟨0, start 1 1⟩ ls = some s ∧ run step s ms = some s' ∧
      s'.state.sys.workers 0 = .exited := by
  intro step ls ms
  obtain ⟨s, hs, hv⟩ := Option.map_eq_some_iff.mp
    (show (run step ⟨0, start 1 1⟩ ls).map (fun s => (s.state.sys.cancel, s.clock,
      decide (Throughout step (Punctual 0) s ms), (run step s ms).map Timed.clock)) =
      some (true, 0, true, some 100000001) from by decide +kernel)
  obtain ⟨hset, hclock, hprompt, hms⟩ : s.state.sys.cancel = true ∧ s.clock = 0 ∧
      Throughout step (Punctual 0) s ms ∧
      (run step s ms).map Timed.clock = some 100000001 := by simpa using hv
  obtain ⟨s', hs', hend⟩ := Option.map_eq_some_iff.mp hms
  exact ⟨s, s', hs, hs', workers_exit (fun _ => none) 0 1 1 0 ls s hs hset ms s' hs' hprompt
    (by rw [hclock, hend, waitForNs]; omega) 0⟩

end Parking

end RtsPipeline.Threaded
