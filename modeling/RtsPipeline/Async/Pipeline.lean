/-
  `rts-async/src/parser.rs` and the system it feeds: dispatch, the fail-safe ticker, the workers and
  one cancellation, in any interleaving.

  Each accepted payload gets a serial number, so that two equal payloads are told apart.

  1. `System` and `step` — the pool of `Scheduler` with `dispatch`, the ticker and the watchdog's
     heartbeat around it.
  2. `pool_run` — a run of the system is a run of the pool, so what holds of every pool holds here.
  3. `Placed` — an accepted payload is shed or pushed to its own lane.
  4. `exactly_once` — with the accounting of the pool: every accepted payload is in exactly one
     place, and a dequeued one is processed to the end.
-/
import RtsPipeline.Async.Accounting
import RtsPipeline.Core.Admission
import RtsPipeline.Core.FailSafe

namespace RtsPipeline.Async

open Lib

/-- An accepted payload: its serial number, its task, and what `is_degraded()` returned to its
    `dispatch`. -/
structure Entry where
  serial : Nat
  task : Task
  degraded : Bool
deriving DecidableEq, Repr

/-- `let ring = if priority == Priority::Human { hi } else { lo }`. -/
def laneOf (p : Priority) : Lane := if p = .human then .hi else .lo

/-- The pool, the fail-safe automaton and the watchdog's heartbeat, with the accepted and the shed
    payloads so far. -/
structure System (m : Nat) where
  pool : Pool Entry m
  failsafe : Hysteresis
  lastNs : UInt64
  accepted : List Entry
  shed : List Entry

/-- One step of an interleaving. -/
inductive SystemEvent (m : Nat)
  | dispatch (raw : Text) (now : Nat) (nowNs : UInt64)
  | tick (p99 : UInt64)     -- whatever the window of jitter samples holds at that moment
  | work (i : Fin m)
  | cancel

namespace System

variable {m : Nat}

/-- Nothing happened yet. -/
def start (m capacity : Nat) : System m :=
  { pool := Pool.start Entry m capacity
    failsafe := .new
    lastNs := 0
    accepted := []
    shed := [] }

/-- `dispatch(raw, hi, lo, watchdog, failsafe)`. -/
def dispatch (fromStr : Text → Option Json) (s : System m) (raw : Text) (now : Nat)
    (nowNs : UInt64) : System m :=
  let degraded := s.failsafe.isDegraded
  match classify fromStr raw degraded now with
  -- no touch: a payload that does not parse is only logged
  | .skipped _ => s
  -- the heartbeat is touched before the decision, so for a shed payload too
  | .shed event =>
    let entry := { serial := s.accepted.length, task := event.toTask now, degraded := degraded }
    { s with
      lastNs := nowNs
      accepted := s.accepted ++ [entry]
      shed := s.shed ++ [entry] }
  | .admitted task =>
    let entry := { serial := s.accepted.length, task := task, degraded := degraded }
    { s with
      lastNs := nowNs
      accepted := s.accepted ++ [entry]
      pool := s.pool.push (laneOf task.priority) entry }

/-- One step of an interleaving; `none` when it is not enabled. -/
def step (fromStr : Text → Option Json) (s : System m) : SystemEvent m → Option (System m)
  | .dispatch raw now nowNs => some (s.dispatch fromStr raw now nowNs)
  | .tick p99 => some { s with failsafe := s.failsafe.evaluate p99 }
  | .work i => (s.pool.step (.work i)).map fun pool => { s with pool := pool }
  | .cancel => (s.pool.step .cancel).map fun pool => { s with pool := pool }

/-- The event is a step of this worker. -/
def moves (i : Fin m) : SystemEvent m → Bool
  | .work j => j = i
  | _ => false

/-- The event of the payload this step accepts. -/
def payload (fromStr : Text → Option Json) : SystemEvent m → Option Event
  | .dispatch raw _ _ => accepted? fromStr raw
  | _ => none

/-- All places an accepted payload can be in. -/
def places (s : System m) : List Entry :=
  s.shed ++ (s.pool.log.evicted .hi ++ s.pool.log.evicted .lo) ++
    ((s.pool.lanes .hi).queue ++ (s.pool.lanes .lo).queue) ++
    s.pool.log.dequeued.map fun d => d.2.2

/-! ## What a dispatch does

`Dispatched` and `Stepped` say once what the definitions do, with the tests that were made as facts.
All that follows is by cases of these. -/

/-- The three outcomes of a dispatch. -/
inductive Dispatched (fromStr : Text → Option Json) (s : System m) (raw : Text) :
    System m → Prop
  | skipped (rejected : accepted? fromStr raw = none) : Dispatched fromStr s raw s
  | shed (event : Event) (now : Nat) (nowNs : UInt64)
      (accepted : accepted? fromStr raw = some event)
      (bot : (event.toTask now).priority = .bot) (degraded : s.failsafe.isDegraded = true) :
      Dispatched fromStr s raw { s with
        lastNs := nowNs
        accepted := s.accepted ++ [⟨s.accepted.length, event.toTask now, s.failsafe.isDegraded⟩]
        shed := s.shed ++ [⟨s.accepted.length, event.toTask now, s.failsafe.isDegraded⟩] }
  | pushed (event : Event) (now : Nat) (nowNs : UInt64)
      (accepted : accepted? fromStr raw = some event) :
      Dispatched fromStr s raw { s with
        lastNs := nowNs
        accepted := s.accepted ++ [⟨s.accepted.length, event.toTask now, s.failsafe.isDegraded⟩]
        pool := s.pool.push (laneOf (event.toTask now).priority)
          ⟨s.accepted.length, event.toTask now, s.failsafe.isDegraded⟩ }

theorem dispatch_spec (fromStr : Text → Option Json) (s : System m) (raw : Text) (now : Nat)
    (nowNs : UInt64) : Dispatched fromStr s raw (s.dispatch fromStr raw now nowNs) := by
  unfold dispatch
  cases ha : classify fromStr raw s.failsafe.isDegraded now with
  | skipped err =>
    simp only [ha]
    exact .skipped (classify_skipped ha)
  | shed event =>
    obtain ⟨hacc, hbot, hdeg⟩ := classify_shed ha
    simp only [ha]
    exact .shed event now nowNs hacc hbot hdeg
  | admitted task =>
    obtain ⟨event, hacc, rfl⟩ := classify_admitted ha
    simp only [ha]
    exact .pushed event now nowNs hacc

/-- What one step can do. -/
inductive Stepped (fromStr : Text → Option Json) (s : System m) : SystemEvent m → System m → Prop
  | dispatch (raw : Text) (now : Nat) (nowNs : UInt64) (s' : System m)
      (done : Dispatched fromStr s raw s') : Stepped fromStr s (.dispatch raw now nowNs) s'
  | tick (p99 : UInt64) :
      Stepped fromStr s (.tick p99) { s with failsafe := s.failsafe.evaluate p99 }
  | work (i : Fin m) (pool : Pool Entry m) (moved : s.pool.step (.work i) = some pool) :
      Stepped fromStr s (.work i) { s with pool := pool }
  | cancel : Stepped fromStr s .cancel { s with pool := { s.pool with cancel := true } }

theorem stepped_of_step {fromStr : Text → Option Json} {s s' : System m} {e : SystemEvent m}
    (h : s.step fromStr e = some s') : Stepped fromStr s e s' := by
  cases e with
  | dispatch raw now nowNs =>
    obtain rfl := Option.some.inj h
    exact .dispatch raw now nowNs _ (s.dispatch_spec fromStr raw now nowNs)
  | tick p99 =>
    obtain rfl := Option.some.inj h
    exact .tick p99
  | work i =>
    obtain ⟨pool, hp, rfl⟩ := Option.map_eq_some_iff.mp h
    exact .work i pool hp
  | cancel =>
    obtain rfl := Option.some.inj h
    exact .cancel

/-! ## A run of the system is a run of the pool

A dispatch is a push of the pool or nothing to it, a tick is nothing, and the rest are steps of the
pool itself.  The count of a worker's steps is carried along, because a promise about a worker says
how many steps it has left. -/

theorem pool_step {fromStr : Text → Option Json} {s s' : System m} {e : SystemEvent m}
    (h : s.step fromStr e = some s') :
    ∃ ps, run Pool.step s.pool ps = some s'.pool ∧
      ∀ i, ps.countP (Pool.moves i) = [e].countP (moves i) := by
  cases stepped_of_step h with
  | dispatch raw now nowNs _ done =>
    cases done with
    | skipped rejected => exact ⟨[], rfl, fun _ => rfl⟩
    | shed event now nowNs accepted bot degraded => exact ⟨[], rfl, fun _ => rfl⟩
    | pushed event now nowNs accepted => exact ⟨[.push _ _], rfl, fun _ => rfl⟩
  | tick p99 => exact ⟨[], rfl, fun _ => rfl⟩
  | work j pool moved => exact ⟨[.work j], run_cons_some.mpr ⟨pool, moved, rfl⟩, fun _ => rfl⟩
  | cancel => exact ⟨[.cancel], rfl, fun _ => rfl⟩

/-- **The system refines the pool**: the same workers move as often. -/
theorem pool_run {fromStr : Text → Option Json} :
    ∀ (ls : List (SystemEvent m)) {s s' : System m}, run (step fromStr) s ls = some s' →
    ∃ ps, run Pool.step s.pool ps = some s'.pool ∧
      ∀ i, ps.countP (Pool.moves i) = ls.countP (moves i) := by
  intro ls
  induction ls with
  | nil =>
    intro s s' h
    obtain rfl := Option.some.inj h
    exact ⟨[], rfl, fun _ => rfl⟩
  | cons e ls ih =>
    intro s s' h
    obtain ⟨t, hs, hr⟩ := run_cons_some.mp h
    obtain ⟨ps, hps, hcount⟩ := pool_step hs
    obtain ⟨qs, hqs, hcount'⟩ := ih hr
    refine ⟨ps ++ qs, run_append_some.mpr ⟨t.pool, hps, hqs⟩, fun i => ?_⟩
    rw [List.countP_append, hcount, hcount', ← List.countP_append, List.singleton_append]

/-! ## An accepted payload is shed or pushed to its own lane

The pool knows where the entries are that were pushed to it; what it cannot know is which payloads
they came from.  `Placed` is the missing half, and the two meet at the log of the pushes.  The
serial numbers make the entries different from each other, so that an entry in one place is in no
other. -/

/-- The serial numbers are the positions; a shed entry is a Bot of a dispatch in Degraded Mode; the
    others were pushed to their own lanes.  `split` is an equation of lists and not an inclusion, so
    that no entry can have been pushed twice or both shed and pushed. -/
structure Placed (s : System m) : Prop where
  serials : s.accepted.map Entry.serial = List.range s.accepted.length
  split : s.accepted.Perm (s.shed ++ (s.pool.log.pushed .hi ++ s.pool.log.pushed .lo))
  shed : ∀ e ∈ s.shed, e.task.priority = .bot ∧ e.degraded = true
  own : ∀ lane, ∀ e ∈ s.pool.log.pushed lane, laneOf e.task.priority = lane

theorem placed_start (C : Nat) : Placed (start m C) where
  serials := rfl
  split := List.Perm.refl []
  shed := fun _ h => absurd h List.not_mem_nil
  own := fun _ _ h => absurd h List.not_mem_nil

/-- The next serial number is fresh. -/
theorem serials_snoc {l : List Entry} (h : l.map Entry.serial = List.range l.length) {e : Entry}
    (he : e.serial = l.length) : (l ++ [e]).map Entry.serial = List.range (l ++ [e]).length := by
  rw [List.map_append, h, List.length_append, List.length_singleton, List.range_succ,
    List.map_singleton, he]

/-- A push adds to its lane and to no other. -/
theorem pushed_perm (pushed : Lane → List Entry) (lane : Lane) (e : Entry) :
    (Function.update pushed lane (pushed lane ++ [e]) .hi ++
      Function.update pushed lane (pushed lane ++ [e]) .lo).Perm
      (pushed .hi ++ pushed .lo ++ [e]) := by
  cases lane with
  | hi =>
    show (pushed .hi ++ [e] ++ pushed .lo).Perm (pushed .hi ++ pushed .lo ++ [e])
    rw [List.append_assoc, List.append_assoc]
    exact List.perm_append_comm.append_left _
  | lo =>
    show (pushed .hi ++ (pushed .lo ++ [e])).Perm (pushed .hi ++ pushed .lo ++ [e])
    rw [List.append_assoc]

/-- **Step lemma** for `Placed`. -/
theorem Placed.step {fromStr : Text → Option Json} {s s' : System m} {e : SystemEvent m}
    (h : Placed s) (hs : s.step fromStr e = some s') : Placed s' := by
  cases stepped_of_step hs with
  | tick p99 => exact ⟨h.serials, h.split, h.shed, h.own⟩
  | cancel => exact ⟨h.serials, h.split, h.shed, h.own⟩
  | work j pool moved =>
    have hlog := (Pool.step_eq_some.mp moved).pushed_work
    exact ⟨h.serials, hlog ▸ h.split, h.shed, fun lane => hlog ▸ h.own lane⟩
  | dispatch raw now nowNs _ done =>
    cases done with
    | skipped rejected => exact h
    -- the new entry goes to the end of both sides, or to the end of one lane
    | shed event now nowNs accepted bot degraded =>
      refine ⟨serials_snoc h.serials rfl, ?_, ?_, h.own⟩
      · show (s.accepted ++ [_]).Perm (s.shed ++ [_] ++ (_ ++ _))
        rw [List.append_assoc]
        refine (h.split.append_right _).trans ?_
        rw [List.append_assoc]
        exact List.perm_append_comm.append_left _
      · intro e he
        rcases List.mem_append.mp he with he | he
        · exact h.shed e he
        · obtain rfl := List.mem_singleton.mp he
          exact ⟨bot, degraded⟩
    | pushed event now nowNs accepted =>
      refine ⟨serials_snoc h.serials rfl, ?_, h.shed, ?_⟩
      · refine (h.split.append_right _).trans ?_
        rw [List.append_assoc]
        exact (pushed_perm s.pool.log.pushed _ _).symm.append_left _
      -- a lane other than that of the task is as before
      · intro lane e he
        change e ∈ Function.update s.pool.log.pushed _ _ lane at he
        by_cases hl : lane = laneOf (event.toTask now).priority
        · rw [hl, Function.update_self] at he
          rcases List.mem_append.mp he with he | he
          · exact (h.own _ e he).trans hl.symm
          · obtain rfl := List.mem_singleton.mp he
            exact hl.symm
        · rw [Function.update_of_ne hl] at he
          exact h.own lane e he

/-- One step logs the payload it dispatches, if it was accepted, and nothing else. -/
theorem accepted_step {fromStr : Text → Option Json} (s : System m) (e : SystemEvent m)
    (s' : System m) (hs : s.step fromStr e = some s') :
    s'.accepted.map (fun e => e.task.event) =
      s.accepted.map (fun e => e.task.event) ++
        ((payload fromStr e).map Event.intoOwned).toList := by
  cases stepped_of_step hs with
  | tick p99 => simp [payload]
  | cancel => simp [payload]
  | work j pool moved => simp [payload]
  | dispatch raw now nowNs _ done =>
    cases done with
    | skipped rejected => simp [payload, rejected]
    | shed event now nowNs accepted bot degraded => simp [payload, accepted, Event.toTask]
    | pushed event now nowNs accepted => simp [payload, accepted, Event.toTask]

/-- The accepted payloads of a run, in order. -/
theorem accepted_run {fromStr : Text → Option Json} (ls : List (SystemEvent m)) {s s' : System m}
    (h : run (step fromStr) s ls = some s') :
    s'.accepted.map (fun e => e.task.event) =
      s.accepted.map (fun e => e.task.event) ++
        (ls.filterMap (payload fromStr)).map Event.intoOwned := by
  rw [List.map_filterMap]
  exact run_collect accepted_step ls s s' h

/-! ## Every accepted payload is in exactly one place

Put together: accepted is shed or pushed, by `Placed`; pushed is evicted, queued or dequeued, by
`Pool.Accounted`; and dequeued is finished or in a worker's hands. -/

/-- The account of the accepted payloads. -/
structure ExactlyOnce (s : System m) : Prop where
  somewhere : s.accepted.Perm s.places
  once : s.places.Nodup
  shedBots : ∀ e ∈ s.shed, e.task.priority = .bot ∧ e.degraded = true
  ownLane : ∀ lane, ∀ e ∈ s.pool.log.evicted lane ++ (s.pool.lanes lane).queue ++
    s.pool.log.dequeuedFrom lane, laneOf e.task.priority = lane
  overflow : ∀ lane, (s.pool.lanes lane).overflowCount =
    UInt64.ofNat (s.pool.log.evicted lane).length
  total : s.accepted.length = s.shed.length +
    (s.pool.log.evicted .hi).length + (s.pool.log.evicted .lo).length +
    (s.pool.lanes .hi).len + (s.pool.lanes .lo).len + s.pool.log.dequeued.length
  processed : s.pool.log.taken.Perm (s.pool.log.finished ++ held s.pool.slots)

/-- The dequeued tasks, lane by lane. -/
theorem dequeuedFrom_perm (log : PoolLog Entry m) :
    (log.dequeuedFrom .hi ++ log.dequeuedFrom .lo).Perm (log.dequeued.map fun d => d.2.2) := by
  unfold PoolLog.dequeuedFrom
  rw [← List.map_append]
  apply List.Perm.map
  have hlo : (log.dequeued.filter fun d => d.2.1 = .lo) =
      log.dequeued.filter fun d => !decide (d.2.1 = .hi) := by
    refine List.filter_congr fun d _ => ?_
    cases d.2.1 <;> rfl
  rw [hlo]
  exact List.filter_append_perm _ _

/-- `Placed` says that an accepted entry is shed or pushed, and the pool, that a pushed one is
    evicted, queued or dequeued; the serial numbers make the entries different. -/
theorem exactlyOnce_of_placed {C : Nat} {s : System m} (hp : Placed s)
    (ha : Pool.Accounted C s.pool) : ExactlyOnce s := by
  have hplaces : s.accepted.Perm s.places := by
    refine List.perm_iff_count.mpr fun e => ?_
    have hsplit := hp.split.count_eq e
    have hhi := (ha.lane .hi).count_eq e
    have hlo := (ha.lane .lo).count_eq e
    have hd := (dequeuedFrom_perm s.pool.log).count_eq e
    simp only [List.count_append] at hsplit hhi hlo hd
    simp only [places, List.count_append]
    omega
  have hnd : s.accepted.Nodup := by
    apply List.Nodup.of_map Entry.serial
    rw [hp.serials]
    exact List.nodup_range
  refine ⟨hplaces, hplaces.nodup_iff.mp hnd, hp.shed, fun lane e he => ?_, ha.overflow, ?_,
    ha.carried⟩
  · exact hp.own lane e ((ha.lane lane).mem_iff.mpr he)
  · have hlen := hplaces.length_eq
    simp only [places, List.length_append, List.length_map] at hlen
    simp only [DropOldestRing.len]
    omega

/-- **Exactly once.**  After any interleaving of dispatches, ticks, worker steps and cancellations:

    * the accepted payloads are those `parse_one` accepted, in order;
    * each is shed (a Bot, in Degraded Mode), evicted from its own lane, queued in its own lane or
      dequeued, and in one of these places only;
    * a worker that dequeued one can always move, and whatever happens it has finished the
      iteration after the steps it has left.

    `Placed` has the half that the pool cannot know, which payloads its entries came from, and
    `Pool.Accounted` the other half; `held_run` counts the steps of a worker down to the end of its
    iteration. -/
theorem exactly_once (fromStr : Text → Option Json) (m C : Nat) (hC : 0 < C)
    (ls : List (SystemEvent m)) (s : System m) (h : run (step fromStr) (start m C) ls = some s) :
    s.accepted.map (fun e => e.task.event) =
      (ls.filterMap (payload fromStr)).map Event.intoOwned ∧
    ExactlyOnce s ∧
    ∀ i e, s.pool.slots i = some e → s.step fromStr (.work i) ≠ none ∧
      ∀ ms s', run (step fromStr) s ms = some s' →
        (s.pool.workers i).focus.left ≤ ms.countP (moves i) →
        (i, e) ∈ s'.pool.log.finished := by
  refine ⟨by simpa [start] using accepted_run ls h, ?_, fun i e hi => ⟨?_, ?_⟩⟩
  · have hp : Placed s := run_invariant (fun _ _ _ hI hs => hI.step hs) ls _ s (placed_start C) h
    have hreach : Reachable Pool.step (Pool.start Entry m C) s.pool := by
      obtain ⟨ps, hps, _⟩ := pool_run ls h
      exact ⟨ps, hps⟩
    exact exactlyOnce_of_placed hp (Pool.accounted_of_reachable hC hreach)
  · intro hnone
    exact Pool.work_of_held hi (Option.map_eq_none_iff.mp hnone)
  · intro ms s' hr hcount
    obtain ⟨ps, hps, hmoves⟩ := pool_run ms hr
    rcases Pool.held_run ps hi hps with hfin | ⟨hheld, hleft⟩
    · exact hfin
    · have hpos := Focus.left_pos hheld
      rw [hmoves] at hleft
      omega

/-- An accepted Bot payload, dequeued by the only worker before the cancellation. -/
theorem exactly_once_single :
    let raw := "\x7b\"user\":\"u\",\"bot\":true,\"server_name\":\"w\"\x7d".toList
    let fromStr := fun _ => some (Json.obj [("user", .str "u"), ("bot", .bool true),
      ("server_name", .str "w")])
    ∃ s : System 1, run (step fromStr) (start 1 1)
        ([.dispatch raw 1 1] ++ List.replicate 9 (.work 0) ++ [.cancel]) = some s ∧
      s.pool.log.dequeued.length = 1 ∧ ExactlyOnce s := by
  intro raw fromStr
  obtain ⟨s, hs, hd⟩ : ∃ s : System 1, run (step fromStr) (start 1 1)
      ([.dispatch raw 1 1] ++ List.replicate 9 (.work 0) ++ [.cancel]) = some s ∧
      s.pool.log.dequeued.length = 1 := ⟨_, rfl, rfl⟩
  exact ⟨s, hs, hd, (exactly_once fromStr 1 1 (by decide) _ s hs).2.1⟩

end System

end RtsPipeline.Async
