/-
  `rts-async/src/pipeline.rs`: one run of the async pipeline, from the first payload to the printed
  summary.

  Around the system of `Pipeline` stand the metrics store the workers write, the leaderboard actor
  behind its bounded channel, and the main task.  When ingest returns, the main task cancels, sends
  `Snapshot`, drops its sender, awaits the actor, takes the reply and reads the metrics.  The
  workers are detached: the actor ends once they all have dropped their senders, but nothing orders
  their updates before the `Snapshot`.

  1. `Run` and `step` — the state of all tasks and one atomic step of an interleaving.
  2. `calls`, `sendings`, `pushings` — what an onlooker sees of a step.
  3. `Stepped` — what a step can do, said once.
  4. `Kept` — in every run the metrics hold what the workers recorded, and every dequeued task is in
     the hands of a worker or was worked through.
  5. `Closed` — the actor ends after the last worker.
-/
import RtsPipeline.Async.Pipeline
import RtsPipeline.Core.Leaderboard
import RtsPipeline.Core.Ledger

namespace RtsPipeline.Async

open Lib

/-- `DEADLINE_NS`. -/
def deadlineNs : Nat := 2000000

/-- `mpsc::channel::<LbCmd>(1024)`. -/
def lbCapacity : Nat := 1024

/-- `LbCmd`. -/
inductive LbCmd
  | update (wiki : String)
  | snapshot
deriving DecidableEq, Repr

/-- The wiki of an update. -/
def LbCmd.wiki? : LbCmd → Option String
  | update wiki => some wiki
  | snapshot => none

/-- `actual_start` and `total` of a worker's iteration. -/
structure Clock where
  actualStart : Nat
  total : Nat
deriving DecidableEq, Repr

/-- Where the main task stands in `run`. -/
inductive MainPhase
  | ingesting               -- in `run_sse`
  | signalled               -- `cancel()` was called
  | requested               -- `Snapshot` is sent
  | released                -- `lb_tx` is dropped
  | joined                  -- `lb_handle` was awaited
  | answered (entries : Option (List (String × UInt64)))    -- what `snap_rx.await` gave
  -- the entries, and the store when `metrics.snapshot()` read it
  | finished (entries : Option (List (String × UInt64))) (metrics : Metrics)
  | failed                  -- `run_sse` returned an error
deriving DecidableEq, Repr

/-- The main task holds no sender any more. -/
def MainPhase.dropped : MainPhase → Bool
  | .released | .joined | .answered _ | .finished _ _ | .failed => true
  | _ => false

/-- The `Snapshot` was sent. -/
def MainPhase.asked : MainPhase → Bool
  | .requested | .released | .joined | .answered _ | .finished _ _ => true
  | _ => false

/-- `lb_handle` was awaited. -/
def MainPhase.awaited : MainPhase → Bool
  | .joined | .answered _ | .finished _ _ => true
  | _ => false

/-- The state of all tasks. -/
structure Run (m : Nat) where
  sys : System m
  clocks : Fin m → Clock
  metrics : Metrics
  channel : List LbCmd
  leaderboard : Leaderboard
  stopped : Bool
  reply : Option (List (String × UInt64))
  main : MainPhase

/-- One atomic step of an interleaving.  `now` is the monotonic clock. -/
inductive RunEvent (m : Nat)
  | dispatch (raw : Text) (now : Nat) (nowNs : UInt64)
  | tick (p99 : UInt64)     -- whatever the window of jitter samples holds at that moment
  | cancel                  -- Ctrl-C or the timer
  | work (i : Fin m) (now : Nat)
  | ingestOk
  | ingestErr
  | main
  | count                   -- the actor receives an update
  | answer (reply : List (String × UInt64))     -- the actor receives the `Snapshot`
  | stop                    -- the actor's `recv` finds the channel closed

/-- The step of the system inside a step of the run. -/
def RunEvent.inner {m : Nat} : RunEvent m → Option (SystemEvent m)
  | dispatch raw now nowNs => some (.dispatch raw now nowNs)
  | tick p99 => some (.tick p99)
  | cancel => some .cancel
  | work i _ => some (.work i)
  | ingestOk => some .cancel
  | _ => none

namespace Run

variable {m : Nat}

/-- `run`, with all tasks spawned. -/
def start (m capacity : Nat) : Run m :=
  { sys := System.start m capacity
    clocks := fun _ => { actualStart := 0, total := 0 }
    metrics := .new
    channel := []
    leaderboard := .new
    stopped := false
    reply := none
    main := .ingesting }

/-- The channel after `try_send`, which gives up when the channel is full or closed. -/
def trySend (s : Run m) (cmd : LbCmd) : List LbCmd :=
  if s.stopped = false ∧ s.channel.length < lbCapacity then s.channel ++ [cmd] else s.channel

/-- The call a worker's step makes, with what it is given. -/
def nextCall (s : Run m) (i : Fin m) : Option Call :=
  (s.sys.pool.workers i).focus.call?.map fun c =>
    { step := c.2
      task := c.1.task
      actualStart := (s.clocks i).actualStart
      total := (s.clocks i).total }

/-- The effect of a call outside the pool.  `feedFailsafe` adds a sample to the window, which `tick`
    leaves open. -/
def call (high : UInt64) (s : Run m) (c : Call) : Run m :=
  { s with
    metrics := s.metrics.perform deadlineNs high c
    channel :=
      if c.step = .sendUpdate then s.trySend (.update c.task.event.serverName) else s.channel }

/-- The clock of a worker after its step: `actual_start` is read when the `select!` is over, `total`
    after the update is sent. -/
def clockAfter (s : Run m) (i : Fin m) (now : Nat) : Clock :=
  match (s.sys.pool.workers i).focus with
  | .won _ _ => { actualStart := now, total := 0 }
  | .body _ (.sendUpdate :: _) =>
    { s.clocks i with total := now - (s.clocks i).actualStart }
  | _ => s.clocks i

/-- The next step of one worker; `none` when it has exited. -/
def work (fromStr : Text → Option Json) (high : UInt64) (s : Run m) (i : Fin m) (now : Nat) :
    Option (Run m) :=
  (s.sys.step fromStr (.work i)).map fun sys =>
    { (s.nextCall i).elim s (s.call high) with
      sys := sys
      clocks := Function.update s.clocks i (s.clockAfter i now) }

/-- The next step of the main task after ingest; `none` while it waits. -/
def mainStep (s : Run m) : Option (Run m) :=
  match s.main with
  | .signalled =>
    if s.channel.length < lbCapacity then
      some { s with main := .requested, channel := s.channel ++ [.snapshot] }
    else none
  | .requested => some { s with main := .released }
  | .released => if s.stopped then some { s with main := .joined } else none
  | .joined => some { s with main := .answered s.reply }
  | .answered entries => some { s with main := .finished entries s.metrics }
  | _ => none

/-- One step of an interleaving; `none` when it is not enabled. -/
def step (fromStr : Text → Option Json) (high : UInt64) (s : Run m) : RunEvent m → Option (Run m)
  | .dispatch raw now nowNs =>
    if s.main = .ingesting then
      (s.sys.step fromStr (.dispatch raw now nowNs)).map fun sys => { s with sys := sys }
    else none
  | .tick p99 => (s.sys.step fromStr (.tick p99)).map fun sys => { s with sys := sys }
  | .cancel => (s.sys.step fromStr .cancel).map fun sys => { s with sys := sys }
  | .work i now => s.work fromStr high i now
  | .ingestOk =>
    if s.main = .ingesting then
      (s.sys.step fromStr .cancel).map fun sys => { s with sys := sys, main := .signalled }
    else none
  | .ingestErr => if s.main = .ingesting then some { s with main := .failed } else none
  | .main => s.mainStep
  | .count =>
    if s.stopped then none
    else
      match s.channel with
      | .update wiki :: rest =>
        some { s with channel := rest, leaderboard := s.leaderboard.update wiki }
      | _ => none
  | .answer reply =>
    if s.stopped then none
    else
      match s.channel with
      | .snapshot :: rest =>
        if s.leaderboard.Snapshot reply then some { s with channel := rest, reply := some reply }
        else none
      | _ => none
  | .stop =>
    -- closed: empty, and no worker nor the main task holds a sender
    if s.channel = [] ∧ (∀ i, (s.sys.pool.workers i).focus = .exited) ∧ s.main.dropped = true then
      some { s with stopped := true }
    else none

/-! ## What an onlooker sees

Three lists that no party keeps: the calls of the workers, their `try_send`s, and the pushes of the
dispatches.  What a run did is said with these, and what the store and the leaderboard say about it
is compared with them. -/

/-- The call a step makes. -/
def calls (s : Run m) : RunEvent m → List Call
  | .work i _ => (s.nextCall i).toList
  | _ => []

/-- A `try_send` of an update: the messages it finds in the channel, and whether the `Snapshot` was
    sent before. -/
structure Sending where
  waiting : Nat
  late : Bool
deriving DecidableEq, Repr

/-- The `try_send` a step makes. -/
def sendings (s : Run m) (e : RunEvent m) : List Sending :=
  ((s.calls e).filter fun c => c.step = .sendUpdate).map fun _ =>
    { waiting := s.channel.length, late := s.main.asked }

/-- The task a step pushes. -/
def pushing? (fromStr : Text → Option Json) (s : Run m) : RunEvent m → Option Task
  | .dispatch raw now _ =>
    match classify fromStr raw s.sys.failsafe.isDegraded now with
    | .admitted task => some task
    | _ => none
  | _ => none

/-- The push a step makes, to the lane of the task. -/
def pushings (fromStr : Text → Option Json) (s : Run m) (e : RunEvent m) : List Pushing :=
  ((s.pushing? fromStr e).map fun task =>
    let lane := s.sys.pool.lanes (laneOf task.priority)
    let entry : Entry :=
      { serial := s.sys.accepted.length
        task := task
        degraded := s.sys.failsafe.isDegraded }
    { full := decide (lane.len = lane.capacity), outcome := (lane.push entry).2 }).toList

end Run

namespace System

variable {m : Nat}

/-- A step that is no worker's leaves the workers and what they dequeued alone. -/
theorem workers_of_quiet {fromStr : Text → Option Json} {s s' : System m} {e : SystemEvent m}
    (h : s.step fromStr e = some s') (quiet : ∀ i, e ≠ .work i) :
    s'.pool.workers = s.pool.workers ∧ s'.pool.log.dequeued = s.pool.log.dequeued := by
  cases stepped_of_step h with
  | dispatch raw now nowNs _ done =>
    cases done with
    | skipped rejected => exact ⟨rfl, rfl⟩
    | shed event now nowNs accepted bot degraded => exact ⟨rfl, rfl⟩
    | pushed event now nowNs accepted => exact ⟨rfl, rfl⟩
  | tick p99 => exact ⟨rfl, rfl⟩
  | work i pool moved => exact absurd rfl (quiet i)
  | cancel => exact ⟨rfl, rfl⟩

end System

namespace Run

variable {m : Nat}

/-! ## What a step can do

Many events are steps of the system within and nothing else; `outside` puts them together.  A step
of a worker is one of the system too, and makes a call of the body or does not.  The rest belong to
the main task and to the actor. -/

/-- What one step can do, and when. -/
inductive Stepped (fromStr : Text → Option Json) (high : UInt64) (s : Run m) :
    RunEvent m → Run m → Prop
  | outside (e : RunEvent m) (l : SystemEvent m) (sys : System m) (inner : e.inner = some l)
      (moved : s.sys.step fromStr l = some sys) (quiet : ∀ i, l ≠ .work i) :
      Stepped fromStr high s e { s with sys := sys }
  | move (i : Fin m) (now : Nat) (sys : System m) (clocks : Fin m → Clock)
      (moved : s.sys.step fromStr (.work i) = some sys) (next : s.nextCall i = none) :
      Stepped fromStr high s (.work i now) { s with sys := sys, clocks := clocks }
  | call (i : Fin m) (now : Nat) (sys : System m) (clocks : Fin m → Clock) (c : Call)
      (moved : s.sys.step fromStr (.work i) = some sys) (next : s.nextCall i = some c) :
      Stepped fromStr high s (.work i now) { s.call high c with sys := sys, clocks := clocks }
  -- `cancel.cancel()` as soon as ingest has returned
  | ingestOk (sys : System m) (moved : s.sys.step fromStr .cancel = some sys)
      (phase : s.main = .ingesting) :
      Stepped fromStr high s .ingestOk { s with sys := sys, main := .signalled }
  | ingestErr (phase : s.main = .ingesting) :
      Stepped fromStr high s .ingestErr { s with main := .failed }
  -- `lb_tx.send(Snapshot).await` waits for room
  | request (phase : s.main = .signalled) (room : s.channel.length < lbCapacity) :
      Stepped fromStr high s .main
        { s with main := .requested, channel := s.channel ++ [.snapshot] }
  | release (phase : s.main = .requested) :
      Stepped fromStr high s .main { s with main := .released }
  | join (phase : s.main = .released) (stopped : s.stopped = true) :
      Stepped fromStr high s .main { s with main := .joined }
  | receive (phase : s.main = .joined) :
      Stepped fromStr high s .main { s with main := .answered s.reply }
  | print (entries : Option (List (String × UInt64))) (phase : s.main = .answered entries) :
      Stepped fromStr high s .main { s with main := .finished entries s.metrics }
  -- the channel keeps its order
  | count (wiki : String) (rest : List LbCmd) (running : s.stopped = false)
      (waiting : s.channel = .update wiki :: rest) :
      Stepped fromStr high s .count
        { s with channel := rest, leaderboard := s.leaderboard.update wiki }
  | answer (reply : List (String × UInt64)) (rest : List LbCmd) (running : s.stopped = false)
      (waiting : s.channel = .snapshot :: rest) (sorted : s.leaderboard.Snapshot reply) :
      Stepped fromStr high s (.answer reply) { s with channel := rest, reply := some reply }
  | stop (empty : s.channel = []) (exited : ∀ i, (s.sys.pool.workers i).focus = .exited)
      (dropped : s.main.dropped = true) : Stepped fromStr high s .stop { s with stopped := true }

variable {fromStr : Text → Option Json} {high : UInt64} {s s' : Run m} {e : RunEvent m}

theorem stepped_main (h : s.mainStep = some s') : Stepped fromStr high s .main s' := by
  unfold mainStep at h
  split at h
  · rename_i hm
    obtain ⟨hroom, rfl⟩ := of_guard h
    exact .request hm hroom
  · rename_i hm; obtain rfl := Option.some.inj h; exact .release hm
  · rename_i hm
    obtain ⟨hst, rfl⟩ := of_guard h
    exact .join hm hst
  · rename_i hm; obtain rfl := Option.some.inj h; exact .receive hm
  · rename_i entries hm; obtain rfl := Option.some.inj h; exact .print entries hm
  · exact nomatch h

theorem stepped_work {i : Fin m} {now : Nat} (h : s.work fromStr high i now = some s') :
    Stepped fromStr high s (.work i now) s' := by
  obtain ⟨sys, hsys, rfl⟩ := Option.map_eq_some_iff.mp h
  cases hn : s.nextCall i with
  | none => exact .move i now sys _ hsys hn
  | some c => exact .call i now sys _ c hsys hn

/-- Every step does one of these. -/
theorem stepped_of_step (h : s.step fromStr high e = some s') : Stepped fromStr high s e s' := by
  cases e with
  | dispatch raw now nowNs =>
    rw [step] at h
    split at h
    · obtain ⟨sys, hsys, rfl⟩ := Option.map_eq_some_iff.mp h
      exact .outside _ _ sys rfl hsys fun _ hw => nomatch hw
    · exact nomatch h
  | tick p99 =>
    rw [step] at h
    obtain ⟨sys, hsys, rfl⟩ := Option.map_eq_some_iff.mp h
    exact .outside _ _ sys rfl hsys fun _ hw => nomatch hw
  | cancel =>
    rw [step] at h
    obtain ⟨sys, hsys, rfl⟩ := Option.map_eq_some_iff.mp h
    exact .outside _ _ sys rfl hsys fun _ hw => nomatch hw
  | work i now => exact stepped_work h
  | ingestOk =>
    rw [step] at h
    split at h
    · rename_i hm
      obtain ⟨sys, hsys, rfl⟩ := Option.map_eq_some_iff.mp h
      exact .ingestOk sys hsys hm
    · exact nomatch h
  | ingestErr =>
    rw [step] at h
    obtain ⟨hm, rfl⟩ := of_guard h
    exact .ingestErr hm
  | main => exact stepped_main h
  | count =>
    rw [step] at h
    split at h
    · exact nomatch h
    · rename_i hrun
      split at h
      · rename_i wiki rest hch
        obtain rfl := Option.some.inj h
        exact .count wiki rest (Bool.eq_false_iff.mpr hrun) hch
      · exact nomatch h
  | answer reply =>
    rw [step] at h
    split at h
    · exact nomatch h
    · rename_i hrun
      split at h
      · rename_i rest hch
        obtain ⟨hsn, rfl⟩ := of_guard h
        exact .answer reply rest (Bool.eq_false_iff.mpr hrun) hch hsn
      · exact nomatch h
  | stop =>
    rw [step] at h
    obtain ⟨hx, rfl⟩ := of_guard h
    exact .stop hx.1 hx.2.1 hx.2.2

/-! ## A run is a run of the system

So what is known of every run of the system, and with it of every run of the pool, is known of every
run of the program.  Nothing around the system can hold it up: the workers never wait for the store
or the channel. -/

theorem system_step (h : s.step fromStr high e = some s') :
    run (System.step fromStr) s.sys e.inner.toList = some s'.sys := by
  have hone : ∀ {l : SystemEvent m} {sys : System m}, s.sys.step fromStr l = some sys →
      run (System.step fromStr) s.sys [l] = some sys := fun hl => run_cons_some.mpr ⟨_, hl, rfl⟩
  cases stepped_of_step h with
  | outside _ l sys inner moved quiet => rw [inner]; exact hone moved
  | move i now sys clocks moved next => exact hone moved
  | call i now sys clocks c moved next => exact hone moved
  | ingestOk sys moved phase => exact hone moved
  | _ => rfl

/-- **A run refines the system** of dispatches, ticks, workers and cancellations. -/
theorem system_run (ls : List (RunEvent m)) (h : run (Run.step fromStr high) s ls = some s') :
    run (System.step fromStr) s.sys (ls.filterMap RunEvent.inner) = some s'.sys :=
  run_refine Run.sys RunEvent.inner (fun _ _ _ hs => system_step hs) ls s s' h

/-! ## What the workers recorded

The same as for the threads, with the pool's own balance of its workers in place of a new one. -/

/-- The metrics hold what these calls wrote, and a dequeued task is in the hands of a worker or was
    worked through.  The first half is about values and the second about numbers: the ledger does
    not know how many calls there ought to be, and the balance does not know what they recorded. -/
structure Kept (high : UInt64) (s : Run m) (cs : List Call) : Prop where
  ledger : Ledger deadlineNs high s.metrics cs
  balance : Balance iteration (s.sys.pool.hands Entry.task) (s.sys.pool.taken Entry.task)
    (cs.map Call.made)

theorem kept_start (C : Nat) : Kept high (start m C) [] where
  ledger := ledger_new
  balance := balance_start iteration fun _ => rfl

/-- Only workers call. -/
theorem calls_silent {l : SystemEvent m} (inner : e.inner = some l) (quiet : ∀ i, l ≠ .work i) :
    s.calls e = [] := by
  cases e with
  | work i now => exact absurd (Option.some.inj inner).symm (quiet i)
  | _ => rfl

/-- The calls made by a step are those of the pool. -/
theorem nextCall_made (s : Run m) (i : Fin m) :
    (s.nextCall i).toList.map Call.made = s.sys.pool.called Entry.task (.work i) := by
  rw [nextCall, Pool.called]
  cases (s.sys.pool.workers i).focus.call? with
  | none => rfl
  | some c => rfl

/-- A worker's step is one of the crew. -/
theorem Kept.work {sys : System m} {i : Fin m} {cs : List Call} (h : Kept high s cs)
    (moved : s.sys.step fromStr (.work i) = some sys) :
    Balance iteration (sys.pool.hands Entry.task) (sys.pool.taken Entry.task)
      ((cs ++ (s.nextCall i).toList).map Call.made) := by
  obtain ⟨pool, hp, rfl⟩ := Option.map_eq_some_iff.mp moved
  obtain ⟨more, htaken, hcrew⟩ := (Pool.step_eq_some.mp hp).crew Entry.task
  rw [htaken, List.map_append, nextCall_made]
  exact h.balance.step (by decide) hcrew

/-- **Step lemma** for `Kept`. -/
theorem Kept.step {cs : List Call} (h : Kept high s cs) (hs : Stepped fromStr high s e s') :
    Kept high s' (cs ++ s.calls e) := by
  have hquiet : ∀ {sys : System m} {l : SystemEvent m}, s.sys.step fromStr l = some sys →
      (∀ i, l ≠ .work i) → Balance iteration (sys.pool.hands Entry.task)
        (sys.pool.taken Entry.task) (cs.map Call.made) := by
    intro sys l moved quiet
    obtain ⟨hw, hd⟩ := System.workers_of_quiet moved quiet
    unfold Pool.hands Pool.taken
    rw [hw, hd]
    exact h.balance
  cases hs with
  | outside _ l sys inner moved quiet =>
    rw [calls_silent inner quiet, List.append_nil]
    exact ⟨h.ledger, hquiet moved quiet⟩
  | move i now sys clocks moved next =>
    have hbal := h.work moved
    rw [calls, next] at *
    exact ⟨(List.append_nil cs).symm ▸ h.ledger, hbal⟩
  | call i now sys clocks c moved next =>
    have hbal := h.work moved
    rw [calls, next] at *
    exact ⟨h.ledger.perform c, hbal⟩
  | ingestOk sys moved phase =>
    show Kept high _ (cs ++ [])
    rw [List.append_nil]
    exact ⟨h.ledger, hquiet moved fun _ hw => nomatch hw⟩
  | _ =>
    show Kept high _ (cs ++ [])
    rw [List.append_nil]
    exact ⟨h.ledger, h.balance⟩

/-- **Run lemma** for `Kept`. -/
theorem kept_of_run {C : Nat} {ls : List (RunEvent m)}
    (h : run (Run.step fromStr high) (start m C) ls = some s) :
    Kept high s (observe (Run.step fromStr high) calls (start m C) ls) :=
  run_observe (R := Kept high) (fun _ _ _ _ hK hs => hK.step (stepped_of_step hs)) ls _ s []
    (kept_start C) h

/-- No worker is inside an iteration. -/
def Quiet (s : Run m) : Prop := ∀ i, s.sys.pool.slots i = none

theorem Quiet.hands (h : s.Quiet) (i : Fin m) : s.sys.pool.hands Entry.task i = none :=
  Focus.hands_eq_none.mpr (h i)

/-- A push returns `DroppedOldest` exactly when it finds the lane at capacity. -/
theorem pushings_outcome :
    ∀ p ∈ s.pushings fromStr e, p.outcome = .droppedOldest ↔ p.full = true := by
  intro p hp
  obtain ⟨task, _, rfl⟩ := Option.map_eq_some_iff.mp (Option.mem_toList.mp hp)
  rw [decide_eq_true_iff]
  exact (DropOldestRing.push_outcome _ _).1

/-- **The metrics agree** with what the workers did, when no worker is inside an iteration, exactly
    if no value was beyond the range of the histograms and no push found its lane at capacity. -/
theorem agrees_iff {hdr : Hdr} {C : Nat} {ls : List (RunEvent m)}
    (h : run (Run.step fromStr hdr.high) (start m C) ls = some s) (quiet : s.Quiet) :
    Agrees hdr s.metrics (s.sys.pool.taken Entry.task)
        (dropped (observe (Run.step fromStr hdr.high) (pushings fromStr) (start m C) ls)) ↔
      (∀ c ∈ observe (Run.step fromStr hdr.high) calls (start m C) ls, c.Fits hdr.high) ∧
        ∀ p ∈ observe (Run.step fromStr hdr.high) (pushings fromStr) (start m C) ls,
          p.full = false := by
  have hkept := kept_of_run h
  have hout := observe_forall (pushings fromStr) (fun _ _ => pushings_outcome) h
  rw [← dropped_eq_zero hout]
  exact hkept.ledger.agrees_iff fun b hb => hkept.balance.settled quiet.hands hb

/-! ## The actor ends last -/

/-- The actor has stopped only once every sender was dropped, and was awaited only once it had
    stopped.  The senders are the main task's and one clone in each worker, so a stopped actor means
    that all of them have left; that is how `leaderboard_handle.await` waits for detached workers
    whose own handles nobody holds. -/
structure Closed (s : Run m) : Prop where
  stopped : s.stopped = true → s.channel = [] ∧
    (∀ i, (s.sys.pool.workers i).focus = .exited) ∧ s.main.dropped = true
  awaited : s.main.awaited = true → s.stopped = true

theorem closed_start (C : Nat) : Closed (start m C) where
  stopped := fun h => nomatch h
  awaited := fun h => nomatch h

/-- While a worker can move, the actor runs. -/
theorem Closed.running_of_work (h : Closed s) {i : Fin m} {sys : System m}
    (moved : s.sys.step fromStr (.work i) = some sys) : s.stopped = false := by
  rw [← Bool.not_eq_true]
  intro hst
  obtain ⟨pool, hp, _⟩ := Option.map_eq_some_iff.mp moved
  have hfocus := (h.stopped hst).2.1 i
  rw [Pool.step, Pool.work, hfocus] at hp
  cases hp

/-- While the main task holds a sender, the actor runs. -/
theorem Closed.running_of_held (h : Closed s) (held : s.main.dropped = false) :
    s.stopped = false := by
  rw [← Bool.not_eq_true]
  intro hst
  exact absurd (held.symm.trans (h.stopped hst).2.2) (by decide)

/-- Before the actor is awaited, while it runs. -/
theorem closed_of_running (hrun : s.stopped = false) (hawaited : s.main.awaited = false) :
    Closed s where
  stopped := fun hst => absurd (hrun.symm.trans hst) (by decide)
  awaited := fun ho => absurd (hawaited.symm.trans ho) (by decide)

/-- While the actor runs, it has not been awaited. -/
theorem Closed.not_awaited (h : Closed s) (hrun : s.stopped = false) : s.main.awaited = false := by
  rw [← Bool.not_eq_true]
  intro ho
  exact absurd (hrun.symm.trans (h.awaited ho)) (by decide)

/-- **Step lemma** for `Closed`. -/
theorem Closed.step (h : Closed s) (hs : Stepped fromStr high s e s') : Closed s' := by
  -- as long as some worker can move or the main task holds a sender, nothing is closed
  cases hs with
  | outside _ l sys inner moved quiet =>
    obtain ⟨hw, _⟩ := System.workers_of_quiet moved quiet
    refine ⟨fun hst => ?_, h.awaited⟩
    rw [hw]
    exact h.stopped hst
  | move i now sys clocks moved next =>
    have hrun := h.running_of_work moved
    exact closed_of_running hrun (h.not_awaited hrun)
  | call i now sys clocks c moved next =>
    have hrun := h.running_of_work moved
    exact closed_of_running hrun (h.not_awaited hrun)
  | ingestOk sys moved phase =>
    exact closed_of_running (h.running_of_held (by rw [phase]; rfl)) rfl
  | ingestErr phase => exact closed_of_running (h.running_of_held (by rw [phase]; rfl)) rfl
  | request phase room => exact closed_of_running (h.running_of_held (by rw [phase]; rfl)) rfl
  | release phase => exact closed_of_running (h.running_of_held (by rw [phase]; rfl)) rfl
  | join phase stopped =>
    exact ⟨fun _ => ⟨(h.stopped stopped).1, (h.stopped stopped).2.1, rfl⟩, fun _ => stopped⟩
  | receive phase =>
    have hst := h.awaited (by rw [phase]; rfl)
    exact ⟨fun _ => ⟨(h.stopped hst).1, (h.stopped hst).2.1, rfl⟩, fun _ => hst⟩
  | print entries phase =>
    have hst := h.awaited (by rw [phase]; rfl)
    exact ⟨fun _ => ⟨(h.stopped hst).1, (h.stopped hst).2.1, rfl⟩, fun _ => hst⟩
  | count wiki rest running waiting => exact closed_of_running running (h.not_awaited running)
  | answer reply rest running waiting sorted =>
    exact closed_of_running running (h.not_awaited running)
  | stop empty exited dropped => exact ⟨fun _ => ⟨empty, exited, dropped⟩, fun _ => rfl⟩

/-- **Run lemma** for `Closed`. -/
theorem closed_of_run {C : Nat} {ls : List (RunEvent m)}
    (h : run (Run.step fromStr high) (start m C) ls = some s) : Closed s :=
  run_invariant (fun _ _ _ hI hs => hI.step (stepped_of_step hs)) ls _ s (closed_start C) h

/-- Once the actor was awaited, no worker is inside an iteration. -/
theorem Closed.quiet (h : Closed s) (hawaited : s.main.awaited = true) : s.Quiet := fun i => by
  rw [Pool.slots, (h.stopped (h.awaited hawaited)).2.1 i]
  rfl

end Run

end RtsPipeline.Async
