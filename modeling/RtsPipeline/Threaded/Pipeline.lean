/-
  `rts-threaded/src/pipeline.rs`: one run of the threaded pipeline, from the first payload to the
  printed leaderboard.

  The ingest thread dispatches payloads; worker threads pop tasks and forward wiki names; the
  leaderboard thread counts them; a ticker moves the fail-safe automaton.  When ingest returns, the
  main thread sets the flag, joins the workers, sends `Snapshot`, drops the last sender, joins the
  leaderboard and receives the reply.  Any interleaving of these is a schedule of `step`.

  The leaderboard's channel delivers every message.  Of its order only this is used: the leaderboard
  may receive any waiting update, but the `Snapshot` not before what was sent before it.

  That the printed leaderboard counts every dequeued task is an argument about order, with the
  threads' own synchronisation as its only means.  The main thread sends the `Snapshot` after it has
  joined the workers, so every update has been sent by then and stands before it in the channel;
  the leaderboard answers it when it is the first message, so every update has been counted by then;
  and it is the last message there is, since nobody with a sender is left who would send.
  `Delivered` states each of these at every moment of a run: before the request as `Early`, after it
  as `Asked`.  The account of the tasks, `Accounted`, is separate and needs none of it.

  1. `System` and `step` — the state of all threads and one atomic step of an interleaving.
  2. `Stepped` — what a step can do, said once.
  3. `Accounted` — where every accepted task is, whatever the workers do.
  4. `Delivered` — a dequeued task's update is owed by its worker, waiting, or counted; and once the
     `Snapshot` is on its way nothing can be added behind it.
  5. `pipeline_accounting` — both, and the printed leaderboard they give.
-/
import RtsPipeline.Core.Admission
import RtsPipeline.Core.FailSafe
import RtsPipeline.Core.Iteration
import RtsPipeline.Core.Leaderboard
import RtsPipeline.Core.Metrics
import RtsPipeline.Lib.Run
import RtsPipeline.Lib.Slots
import RtsPipeline.Threaded.Scheduler

namespace RtsPipeline.Threaded

open Lib

/-- `DEADLINE_NS`. -/
def deadlineNs : Nat := 2000000

/-- `LbCmd`. -/
inductive LbCmd
  | update (wiki : String)
  | snapshot
deriving DecidableEq, Repr

/-- The wiki of an update. -/
def LbCmd.wiki? : LbCmd → Option String
  | update wiki => some wiki
  | snapshot => none

/-- Where a worker thread stands in `worker`. -/
inductive Worker
  | popping                 -- in `pop_blocking`
  | body (task : Task) (actualStart total : Nat) (todo : List BodyStep)
  | exited
deriving DecidableEq, Repr

/-- Where the main thread stands in `run`. -/
inductive MainPhase
  | ingesting               -- in `run_sse`
  | joining                 -- the flag is set, the workers are being joined
  | requested               -- `Snapshot` is sent
  | released                -- the last sender is dropped
  | joined                  -- the leaderboard thread is joined
  | finished (entries : Option (List (String × UInt64)))    -- what `snap_rx.recv()` gave
  | failed                  -- `run_sse` returned an error
deriving DecidableEq, Repr

/-- The main thread holds no sender any more. -/
def MainPhase.dropped : MainPhase → Bool
  | .released | .joined | .finished _ | .failed => true
  | _ => false

/-- What happened so far.  No step depends on it.  A shed task comes with what `is_degraded()`
    returned to its dispatch. -/
structure SystemLog (n : Nat) where
  accepted : List Task
  shed : List (Task × Bool)
  evicted : List Task
  dequeued : List (Fin n × Task)
  counted : List String

/-- The state of all threads. -/
structure System (n : Nat) where
  queue : PriorityQueue
  failsafe : Hysteresis
  lastNs : UInt64
  cancel : Bool
  metrics : Metrics
  workers : Fin n → Worker
  channel : List LbCmd
  leaderboard : Leaderboard
  stopped : Bool
  reply : Option (List (String × UInt64))
  main : MainPhase
  log : SystemLog n

/-- One atomic step of an interleaving.  `now` is the monotonic clock. -/
inductive SystemEvent (n : Nat)
  | dispatch (raw : Text) (now : Nat) (nowNs : UInt64)
  | tick (p99 : UInt64)     -- whatever the window of jitter samples holds at that moment
  | cancel                  -- Ctrl-C or the timer
  | work (i : Fin n) (now : Nat)
  | ingestOk
  | ingestErr
  | main
  | count (k : Nat)         -- the leaderboard receives the update waiting at `k`
  | answer (reply : List (String × UInt64))     -- the leaderboard receives the `Snapshot`
  | stop                    -- the leaderboard's `recv` finds the channel closed

namespace System

variable {n : Nat}

/-- `run`, with all threads spawned. -/
def start (n capacity : Nat) : System n :=
  { queue := PriorityQueue.new capacity
    failsafe := .new
    lastNs := 0
    cancel := false
    metrics := .new
    workers := fun _ => .popping
    channel := []
    leaderboard := .new
    stopped := false
    reply := none
    main := .ingesting
    log := { accepted := [], shed := [], evicted := [], dequeued := [], counted := [] } }

/-- Move one worker. -/
def setWorker (s : System n) (i : Fin n) (w : Worker) : System n :=
  { s with workers := Function.update s.workers i w }

/-- The channel after a send; the receiver is gone once the leaderboard thread has stopped. -/
def send (s : System n) (cmd : LbCmd) : List LbCmd :=
  if s.stopped then s.channel else s.channel ++ [cmd]

/-- `dispatch(raw, queue, watchdog, failsafe)`; `none` when the push panics. -/
def dispatch (fromStr : Text → Option Json) (s : System n) (raw : Text) (now : Nat)
    (nowNs : UInt64) : Option (System n) :=
  let degraded := s.failsafe.isDegraded
  match classify fromStr raw degraded now with
  -- no touch: a payload that does not parse is only logged
  | .skipped _ => some s
  -- the heartbeat is touched before the decision, so for a shed payload too
  | .shed event =>
    some { s with
      lastNs := nowNs
      log := { s.log with
        accepted := s.log.accepted ++ [event.toTask now]
        shed := s.log.shed ++ [(event.toTask now, degraded)] } }
  -- the log takes down the victim, which the queue itself forgets
  | .admitted task =>
    (s.queue.push task).map fun r =>
      { s with
        lastNs := nowNs
        queue := r.1
        log := { s.log with
          accepted := s.log.accepted ++ [task]
          evicted := s.log.evicted ++ s.queue.victim.toList } }

/-- One call of the body of the loop. -/
def call (high : UInt64) (s : System n) (b : BodyStep) (task : Task) (actualStart total : Nat) :
    System n :=
  match b with
  | .recordDrift =>
    { s with metrics := s.metrics.recordDrift high task.priority (actualStart - task.enqueuedAt) }
  | .sendUpdate => { s with channel := s.send (.update task.event.serverName) }
  | .recordJitter => { s with metrics := s.metrics.recordJitter high total }
  | .feedFailsafe => s      -- a sample for the window, which `tick` leaves open
  | .recordMiss =>
    if deadlineNs < total then { s with metrics := s.metrics.recordDeadlineMiss task.priority }
    else s

/-- `total` is measured after the send. -/
def totalAfter (b : BodyStep) (actualStart total now : Nat) : Nat :=
  if b = .sendUpdate then now - actualStart else total

/-- The next step of one worker; `none` when it has exited. -/
def work (high : UInt64) (s : System n) (i : Fin n) (now : Nat) : Option (System n) :=
  match s.workers i with
  | .popping =>
    match s.queue.popBlocking s.cancel with
    | .cancelled => some (s.setWorker i .exited)
    | .task t q =>
      some { s.setWorker i (.body t now 0 iteration) with
        queue := q
        log := { s.log with dequeued := s.log.dequeued ++ [(i, t)] } }
    -- a poll that found nothing may be repeated at any time
    | .wait => some s
  -- one call of the iteration at a time, with the others' steps in between
  | .body task actualStart total (b :: todo) =>
    some ((s.call high b task actualStart total).setWorker i
      (.body task actualStart (totalAfter b actualStart total now) todo))
  | .body _ _ _ [] => some (s.setWorker i .popping)
  | .exited => none

/-- The next step of the main thread after ingest; `none` while it waits. -/
def mainStep (s : System n) : Option (System n) :=
  match s.main with
  | .joining =>
    if ∀ i, s.workers i = .exited then
      some { s with main := .requested, channel := s.send .snapshot }
    else none
  | .requested => some { s with main := .released }
  | .released => if s.stopped then some { s with main := .joined } else none
  | .joined => some { s with main := .finished s.reply }
  | _ => none

/-- One step of an interleaving; `none` when it is not enabled. -/
def step (fromStr : Text → Option Json) (high : UInt64) (s : System n) :
    SystemEvent n → Option (System n)
  | .dispatch raw now nowNs =>
    if s.main = .ingesting then s.dispatch fromStr raw now nowNs else none
  | .tick p99 => some { s with failsafe := s.failsafe.evaluate p99 }
  | .cancel => some { s with cancel := true }
  | .work i now => s.work high i now
  | .ingestOk =>
    if s.main = .ingesting then some { s with main := .joining, cancel := true } else none
  | .ingestErr => if s.main = .ingesting then some { s with main := .failed } else none
  | .main => s.mainStep
  | .count k =>
    if s.stopped then none
    else
      match s.channel[k]? with
      | some (.update wiki) =>
        some { s with
          channel := s.channel.eraseIdx k
          leaderboard := s.leaderboard.update wiki
          log := { s.log with counted := s.log.counted ++ [wiki] } }
      | _ => none
  | .answer reply =>
    if s.stopped then none
    else
      match s.channel with
      | .snapshot :: rest =>
        if s.leaderboard.Snapshot reply then some { s with channel := rest, reply := some reply }
        else none
      | _ => none
  | .stop =>
    -- closed: empty, and no worker nor the main thread holds a sender
    if s.channel = [] ∧ (∀ i, s.workers i = .exited) ∧ s.main.dropped = true then
      some { s with stopped := true }
    else none

/-- The tasks dequeued by all workers, as wikis. -/
def wikis (s : System n) : List String := s.log.dequeued.map fun d => d.2.event.serverName

/-! ## What a step can do

  The inversion of `step`, once: every invariant below goes through these cases and none unfolds the
  step function.  What no invariant looks at is left open, as the metrics after a call and the
  measured times. -/

/-- What one step can do, and when. -/
inductive Stepped (fromStr : Text → Option Json) (s : System n) :
    SystemEvent n → System n → Prop
  | idle (e : SystemEvent n) (rejected : ∀ raw now nowNs, e = .dispatch raw now nowNs →
      accepted? fromStr raw = none) : Stepped fromStr s e s
  | shed (raw : Text) (now : Nat) (nowNs : UInt64) (event : Event)
      (accepted : accepted? fromStr raw = some event)
      (bot : (event.toTask now).priority = .bot) (degraded : s.failsafe.isDegraded = true) :
      Stepped fromStr s (.dispatch raw now nowNs) { s with
        lastNs := nowNs
        log := { s.log with
          accepted := s.log.accepted ++ [event.toTask now]
          shed := s.log.shed ++ [(event.toTask now, s.failsafe.isDegraded)] } }
  | pushed (raw : Text) (now : Nat) (nowNs : UInt64) (event : Event) (q : PriorityQueue)
      (o : PushOutcome) (accepted : accepted? fromStr raw = some event)
      (push : s.queue.push (event.toTask now) = some (q, o)) :
      Stepped fromStr s (.dispatch raw now nowNs) { s with
        lastNs := nowNs
        queue := q
        log := { s.log with
          accepted := s.log.accepted ++ [event.toTask now]
          evicted := s.log.evicted ++ s.queue.victim.toList } }
  | tick (p99 : UInt64) :
      Stepped fromStr s (.tick p99) { s with failsafe := s.failsafe.evaluate p99 }
  | cancel : Stepped fromStr s .cancel { s with cancel := true }
  | exit (i : Fin n) (now : Nat) (at_ : s.workers i = .popping) :
      Stepped fromStr s (.work i now) (s.setWorker i .exited)
  | pop (i : Fin n) (now : Nat) (t : Task) (q : PriorityQueue) (at_ : s.workers i = .popping)
      (pop : s.queue.pop = some (t, q)) :
      Stepped fromStr s (.work i now) { s.setWorker i (.body t now 0 iteration) with
        queue := q
        log := { s.log with dequeued := s.log.dequeued ++ [(i, t)] } }
  -- what a call writes into the metrics is left open
  | call (i : Fin n) (now : Nat) (task : Task) (actualStart total total' : Nat) (b : BodyStep)
      (todo : List BodyStep) (metrics : Metrics) (silent : b ≠ .sendUpdate)
      (at_ : s.workers i = .body task actualStart total (b :: todo)) :
      Stepped fromStr s (.work i now)
        { s.setWorker i (.body task actualStart total' todo) with metrics := metrics }
  | send (i : Fin n) (now : Nat) (task : Task) (actualStart total total' : Nat)
      (todo : List BodyStep)
      (at_ : s.workers i = .body task actualStart total (.sendUpdate :: todo)) :
      Stepped fromStr s (.work i now) { s.setWorker i (.body task actualStart total' todo) with
        channel := s.send (.update task.event.serverName) }
  | again (i : Fin n) (now : Nat) (task : Task) (actualStart total : Nat)
      (at_ : s.workers i = .body task actualStart total []) :
      Stepped fromStr s (.work i now) (s.setWorker i .popping)
  | ingestOk (phase : s.main = .ingesting) :
      Stepped fromStr s .ingestOk { s with main := .joining, cancel := true }
  | ingestErr (phase : s.main = .ingesting) :
      Stepped fromStr s .ingestErr { s with main := .failed }
  -- `join` on every worker, and only then the `Snapshot`
  | request (phase : s.main = .joining) (exited : ∀ i, s.workers i = .exited) :
      Stepped fromStr s .main { s with main := .requested, channel := s.send .snapshot }
  | release (phase : s.main = .requested) : Stepped fromStr s .main { s with main := .released }
  | join (phase : s.main = .released) (stopped : s.stopped = true) :
      Stepped fromStr s .main { s with main := .joined }
  | receive (phase : s.main = .joined) :
      Stepped fromStr s .main { s with main := .finished s.reply }
  -- updates may overtake each other, the `Snapshot` may not overtake them
  | count (k : Nat) (wiki : String) (running : s.stopped = false)
      (waiting : s.channel[k]? = some (.update wiki)) :
      Stepped fromStr s (.count k) { s with
        channel := s.channel.eraseIdx k
        leaderboard := s.leaderboard.update wiki
        log := { s.log with counted := s.log.counted ++ [wiki] } }
  | answer (reply : List (String × UInt64)) (rest : List LbCmd) (running : s.stopped = false)
      (waiting : s.channel = .snapshot :: rest) (sorted : s.leaderboard.Snapshot reply) :
      Stepped fromStr s (.answer reply) { s with channel := rest, reply := some reply }
  -- `recv` returns `Err` when nothing waits and nobody can send any more
  | stop (empty : s.channel = []) (exited : ∀ i, s.workers i = .exited)
      (dropped : s.main.dropped = true) : Stepped fromStr s .stop { s with stopped := true }

/-- What a dispatch comes to is what `classify` said of its payload.  Of an accepted task there is a
    next state only if the push did not panic. -/
theorem stepped_dispatch {fromStr : Text → Option Json} {s s' : System n} {raw : Text} {now : Nat}
    {nowNs : UInt64} (h : s.dispatch fromStr raw now nowNs = some s') :
    Stepped fromStr s (.dispatch raw now nowNs) s' := by
  unfold dispatch at h
  cases ha : classify fromStr raw s.failsafe.isDegraded now with
  | skipped err =>
    simp only [ha] at h
    obtain rfl := Option.some.inj h
    refine .idle _ ?_
    rintro raw' now' nowNs' ⟨⟩
    exact classify_skipped ha
  | shed event =>
    obtain ⟨hacc, hbot, hdeg⟩ := classify_shed ha
    simp only [ha] at h
    obtain rfl := Option.some.inj h
    exact .shed raw now nowNs event hacc hbot hdeg
  | admitted task =>
    obtain ⟨event, hacc, rfl⟩ := classify_admitted ha
    simp only [ha] at h
    obtain ⟨r, hr, rfl⟩ := Option.map_eq_some_iff.mp h
    exact .pushed raw now nowNs event r.1 r.2 hacc hr

/-- A worker in `pop_blocking` sees the flag, a task or nothing; in the body, each call of the
    iteration is one step, and only `sendUpdate` touches the channel. -/
theorem stepped_work {fromStr : Text → Option Json} {high : UInt64} {s s' : System n} {i : Fin n}
    {now : Nat} (h : s.work high i now = some s') : Stepped fromStr s (.work i now) s' := by
  unfold work at h
  cases hw : s.workers i with
  | exited => rw [hw] at h; exact nomatch h
  | popping =>
    simp only [hw, PriorityQueue.popBlocking] at h
    split at h
    · obtain rfl := Option.some.inj h; exact .exit i now hw
    · rename_i t q hpb
      obtain rfl := Option.some.inj h
      split at hpb
      · exact nomatch hpb
      · cases hp : s.queue.pop with
        | none => rw [hp] at hpb; exact nomatch hpb
        | some r =>
          rw [hp] at hpb
          obtain ⟨rfl, rfl⟩ := PopBlocking.task.inj hpb
          exact .pop i now r.1 r.2 hw hp
    · obtain rfl := Option.some.inj h
      exact .idle _ fun _ _ _ he => nomatch he
  | body task actualStart total todo =>
    cases todo with
    | nil =>
      simp only [hw] at h
      obtain rfl := Option.some.inj h
      exact .again i now task actualStart total hw
    | cons b todo =>
      simp only [hw] at h
      obtain rfl := Option.some.inj h
      cases b with
      | sendUpdate => exact .send i now task actualStart total _ todo hw
      | recordDrift => exact .call i now task actualStart total _ _ todo _ (by decide) hw
      | recordJitter => exact .call i now task actualStart total _ _ todo _ (by decide) hw
      | feedFailsafe => exact .call i now task actualStart total _ _ todo s.metrics (by decide) hw
      | recordMiss =>
        by_cases hm : deadlineNs < total
        · simp only [call, if_pos hm]
          exact .call i now task actualStart total _ _ todo _ (by decide) hw
        · simp only [call, if_neg hm]
          exact .call i now task actualStart total _ _ todo s.metrics (by decide) hw

/-- Every step does one of these. -/
theorem stepped_of_step {fromStr : Text → Option Json} {high : UInt64} {s s' : System n}
    {e : SystemEvent n} (h : s.step fromStr high e = some s') : Stepped fromStr s e s' := by
  cases e with
  | dispatch raw now nowNs =>
    rw [step] at h
    split at h
    · exact stepped_dispatch h
    · exact nomatch h
  | tick p99 => obtain rfl := Option.some.inj h; exact .tick p99
  | cancel => obtain rfl := Option.some.inj h; exact .cancel
  | work i now => exact stepped_work h
  | ingestOk =>
    rw [step] at h
    obtain ⟨hm, rfl⟩ := of_guard h
    exact .ingestOk hm
  | ingestErr =>
    rw [step] at h
    obtain ⟨hm, rfl⟩ := of_guard h
    exact .ingestErr hm
  | main =>
    rw [step, mainStep] at h
    split at h
    · rename_i hm
      obtain ⟨hx, rfl⟩ := of_guard h
      exact .request hm hx
    · rename_i hm; obtain rfl := Option.some.inj h; exact .release hm
    · rename_i hm
      obtain ⟨hx, rfl⟩ := of_guard h
      exact .join hm hx
    · rename_i hm; obtain rfl := Option.some.inj h; exact .receive hm
    · exact nomatch h
  | count k =>
    rw [step] at h
    split at h
    · exact nomatch h
    · rename_i hrun
      split at h
      · rename_i wiki hk
        obtain rfl := Option.some.inj h
        exact .count k wiki (Bool.eq_false_iff.mpr hrun) hk
      · exact nomatch h
  | answer reply =>
    rw [step] at h
    split at h
    · exact nomatch h
    · rename_i hrun
      split at h
      · rename_i rest hch
        obtain ⟨hsn, rfl⟩ := of_guard h
        exact .answer reply rest (Bool.eq_false_iff.mpr hrun) hch hsn
      · exact nomatch h
  | stop =>
    rw [step] at h
    obtain ⟨hx, rfl⟩ := of_guard h
    exact .stop hx.1 hx.2.1 hx.2.2

/-! ## Where every accepted task is

The log has a list for each way a task can go.  What is proved is that the lists together are what
was accepted, as bags, so that no task is lost or in two places. -/

/-- Every accepted task is shed, evicted, queued or dequeued.  The lists are compared as bags: the
    heap does not keep an order, and the log of the evictions has its own. -/
def Conserved (s : System n) : Prop :=
  s.log.accepted.Perm (s.log.shed.map Prod.fst ++ s.log.evicted ++ s.queue.queued ++
    s.log.dequeued.map Prod.snd)

/-- **Step lemma** for `Conserved`, whatever the capacity. -/
theorem Conserved.step {fromStr : Text → Option Json} {s s' : System n} {e : SystemEvent n}
    (h : Conserved s) (hs : Stepped fromStr s e s') : Conserved s' := by
  cases hs with
  | shed raw now nowNs event accepted bot degraded =>
    refine List.perm_iff_count.mpr fun t => ?_
    have := h.count_eq t
    simp only [List.map_append, List.count_append, List.map_cons, List.map_nil] at this ⊢
    omega
  | pushed raw now nowNs event q o accepted push =>
    -- the task is queued, and what the queue gave up for it is evicted
    refine List.perm_iff_count.mpr fun t => ?_
    have := h.count_eq t
    have hcons := (PriorityQueue.push_some push).conserve.count_eq t
    rw [← List.singleton_append] at hcons
    simp only [List.count_append] at this hcons ⊢
    omega
  | pop i now t q at_ pop =>
    refine List.perm_iff_count.mpr fun u => ?_
    have := h.count_eq u
    have hpop := (PriorityQueue.pop_spec pop).1.count_eq u
    rw [← List.singleton_append] at hpop
    simp only [List.map_append, List.count_append, List.map_cons, List.map_nil] at this hpop ⊢
    omega
  | _ => exact h

/-- The account of the tasks, and of the queue's own counter.  The places are kept whatever the
    capacity; the capacity and the counter are taken from the specification of a push, which asks
    for room for one task. -/
structure Accounted (C : Nat) (s : System n) : Prop where
  capacity : s.queue.capacity = C
  places : Conserved s
  shedBots : ∀ e ∈ s.log.shed, e.1.priority = .bot ∧ e.2 = true
  overflow : s.queue.overflow = UInt64.ofNat s.log.evicted.length

theorem accounted_start (C : Nat) : Accounted C (start n C) where
  capacity := rfl
  places := List.Perm.refl []
  shedBots := fun _ h => absurd h List.not_mem_nil
  overflow := rfl

/-- **Step lemma** for `Accounted`.  The places are `Conserved`, and what is left to show is about
    the capacity and the two counters: a push adds its victim to the evicted and counts it. -/
theorem Accounted.step {fromStr : Text → Option Json} {C : Nat} (hC : 0 < C) {s s' : System n}
    {e : SystemEvent n} (h : Accounted C s) (hs : Stepped fromStr s e s') : Accounted C s' := by
  have hplaces : Conserved s' := Conserved.step h.places hs
  cases hs with
  | shed raw now nowNs event accepted bot degraded =>
    refine ⟨h.capacity, hplaces, fun e he => ?_, h.overflow⟩
    rcases List.mem_append.mp he with he | he
    · exact h.shedBots e he
    · obtain rfl := List.mem_singleton.mp he
      exact ⟨bot, degraded⟩
  | pushed raw now nowNs event q o accepted push =>
    obtain ⟨q', o', hpush, hspec⟩ :=
      s.queue.push_spec (event.toTask now) (by rw [h.capacity]; exact hC)
    obtain ⟨rfl, rfl⟩ := Prod.mk.inj (Option.some.inj (push.symm.trans hpush))
    refine ⟨hspec.capacity_eq.trans h.capacity, hplaces, h.shedBots, ?_⟩
    show q.overflow = UInt64.ofNat (s.log.evicted ++ s.queue.victim.toList).length
    rw [hspec.overflow_eq, h.overflow, List.length_append, UInt64.ofNat_add]
  | pop i now t q at_ pop =>
    obtain ⟨_, _, hcap, hover⟩ := PriorityQueue.pop_spec pop
    exact ⟨hcap.trans h.capacity, hplaces, h.shedBots, hover.trans h.overflow⟩
  | _ => exact ⟨h.capacity, hplaces, h.shedBots, h.overflow⟩

/-! ## Where every update is

The same for the updates, which go from a worker through the channel into the counts.  An update
that arrives after the `Snapshot` would be counted and not printed; this is where the order of the
shutdown matters, the workers being joined before the `Snapshot` is sent. -/

/-- The update a worker still has to send. -/
def owes : Worker → Option String
  | .body task _ _ todo => if .sendUpdate ∈ todo then some task.event.serverName else none
  | _ => none

/-- The updates the workers still have to send. -/
def owed (s : System n) : List String := (held fun i => owes (s.workers i)).map Prod.snd

/-- The updates in the channel. -/
def waiting (s : System n) : List String := s.channel.filterMap LbCmd.wiki?

/-- The `Snapshot` is the last message there will ever be, or it has been answered.  In the second
    case the reply is still one for the present counts, as nothing is left in the channel that could
    change them. -/
def Asked (s : System n) : Prop :=
  (∀ i, s.workers i = .exited) ∧
    ((∃ updates, s.channel = updates ++ [.snapshot] ∧ .snapshot ∉ updates ∧ s.reply = none) ∨
      (s.channel = [] ∧ ∃ reply, s.reply = some reply ∧ s.leaderboard.Snapshot reply))

/-- No `Snapshot` was sent yet. -/
def Early (s : System n) : Prop := .snapshot ∉ s.channel ∧ s.reply = none

/-- What the phase of the main thread says about the `Snapshot`. -/
def PhaseOk (early asked : Prop) (stopped : Bool) (reply : Option (List (String × UInt64))) :
    MainPhase → Prop
  | .ingesting => early
  | .joining => early
  | .failed => early
  | .requested => asked
  | .released => asked
  | .joined => asked ∧ stopped = true
  | .finished entries => asked ∧ stopped = true ∧ entries = reply

theorem PhaseOk.mono {early early' asked asked' : Prop} {stopped : Bool}
    {reply : Option (List (String × UInt64))} {phase : MainPhase}
    (h : PhaseOk early asked stopped reply phase) (he : early → early') (ha : asked → asked') :
    PhaseOk early' asked' stopped reply phase := by
  cases phase with
  | ingesting => exact he h
  | joining => exact he h
  | failed => exact he h
  | requested => exact ha h
  | released => exact ha h
  | joined => exact h.imp_left ha
  | finished entries => exact h.imp_left ha

/-- No update is lost, and none comes after the `Snapshot`.

    `wikis` is the balance: a dequeued task's wiki is owed by its worker until it is sent, waits in
    the channel until it is received, and is counted from then on.  `once` is why a send settles the
    debt: the body of the loop sends one update only.  `closed` and `phase` tie the state of the
    channel to the phase of the main thread, and are what rules out that a worker sends to a
    leaderboard that has stopped, where `send` would lose the update. -/
structure Delivered (s : System n) : Prop where
  wikis : s.wikis.Perm (owed s ++ waiting s ++ s.log.counted)
  tallies : s.leaderboard.Tallies s.log.counted
  once : ∀ i task actualStart total todo, s.workers i = .body task actualStart total todo →
    todo.Nodup
  closed : s.stopped = true → s.channel = [] ∧ (∀ i, s.workers i = .exited) ∧
    s.main.dropped = true
  phase : PhaseOk (Early s) (Asked s) s.stopped s.reply s.main

theorem delivered_start (C : Nat) : Delivered (start n C) where
  wikis := by
    have hslots : (fun i => owes ((start n C).workers i)) = fun _ => none := rfl
    unfold owed
    rw [hslots, held_empty]
    exact List.Perm.refl []
  tallies := Leaderboard.tallies_new
  once := fun _ _ _ _ _ h => nomatch h
  closed := fun h => nomatch h
  phase := ⟨List.not_mem_nil, rfl⟩

/-- While a worker runs, no `Snapshot` was sent and the leaderboard has not stopped. -/
theorem Delivered.of_running {s : System n} (h : Delivered s) {i : Fin n}
    (hi : s.workers i ≠ .exited) :
    s.stopped = false ∧ Early s ∧
      ∀ early asked : Prop, early → PhaseOk early asked s.stopped s.reply s.main := by
  -- a running worker holds a sender, so the receiver has not seen the end
  have hrun : s.stopped = false := by
    cases hst : s.stopped with
    | false => rfl
    | true => exact absurd ((h.closed hst).2.1 i) hi
  have hno : ¬ Asked s := fun ha => hi (ha.1 i)
  have hph := h.phase
  cases hm : s.main with
  | ingesting => rw [hm] at hph; exact ⟨hrun, hph, fun _ _ he => he⟩
  | joining => rw [hm] at hph; exact ⟨hrun, hph, fun _ _ he => he⟩
  | failed => rw [hm] at hph; exact ⟨hrun, hph, fun _ _ he => he⟩
  | requested => rw [hm] at hph; exact absurd hph hno
  | released => rw [hm] at hph; exact absurd hph hno
  | joined => rw [hm] at hph; exact absurd hph.1 hno
  | finished entries => rw [hm] at hph; exact absurd hph.1 hno

/-- While the main thread holds a sender, the leaderboard has not stopped. -/
theorem Delivered.running {s : System n} (h : Delivered s) (hm : s.main.dropped = false) :
    s.stopped = false := by
  rw [← Bool.not_eq_true]
  intro hst
  exact absurd (hm.symm.trans (h.closed hst).2.2) (by decide)

/-! ## Updates on their way

  The three moves an update can make, as facts about lists: what is owed, waiting and counted is the
  same altogether, up to the order, but for the task just dequeued. -/

section Balance

variable {dequeued owed owed' waiting waiting' counted : List String} {wiki : String}

/-- A worker takes on an update. -/
theorem balance_pop (h : dequeued.Perm (owed ++ waiting ++ counted))
    (ho : owed'.Perm (wiki :: owed)) :
    (dequeued ++ [wiki]).Perm (owed' ++ waiting ++ counted) := by
  refine (List.perm_append_singleton wiki dequeued).trans ((h.cons wiki).trans ?_)
  exact ((ho.symm.append_right waiting).append_right counted)

/-- A worker sends an update. -/
theorem balance_send (h : dequeued.Perm (owed ++ waiting ++ counted))
    (ho : owed.Perm (wiki :: owed')) :
    dequeued.Perm (owed' ++ (waiting ++ [wiki]) ++ counted) := by
  refine h.trans (List.Perm.append_right counted ((ho.append_right waiting).trans ?_))
  rw [← List.append_assoc]
  exact (List.perm_append_singleton wiki _).symm

/-- The leaderboard counts an update. -/
theorem balance_count (h : dequeued.Perm (owed ++ waiting ++ counted))
    (hw : waiting.Perm (wiki :: waiting')) :
    dequeued.Perm (owed ++ waiting' ++ (counted ++ [wiki])) := by
  apply h.trans
  refine ((hw.append_left owed).append_right counted).trans ?_
  rw [← List.append_assoc]
  refine List.Perm.trans ?_ (List.perm_append_singleton wiki _).symm
  exact List.perm_middle.append_right counted

end Balance

/-- A worker that moves changes what it owes. -/
theorem owes_moved {s s' : System n} {i : Fin n} {w : Worker}
    (hw : s'.workers = Function.update s.workers i w) :
    (fun j => owes (s'.workers j)) = Function.update (fun j => owes (s.workers j)) i (owes w) := by
  rw [hw]
  exact Function.comp_update owes s.workers i w

theorem owed_kept {s s' : System n} {i : Fin n} {w : Worker}
    (hw : s'.workers = Function.update s.workers i w) (ho : owes w = owes (s.workers i)) :
    owed s' = owed s := by
  unfold owed
  rw [owes_moved hw, ho]
  exact congrArg (fun slots => (held slots).map Prod.snd)
    (Function.update_eq_self i fun j => owes (s.workers j))

theorem owed_more {s s' : System n} {i : Fin n} {w : Worker} {wiki : String}
    (hw : s'.workers = Function.update s.workers i w) (hfree : owes (s.workers i) = none)
    (ho : owes w = some wiki) : (owed s').Perm (wiki :: owed s) := by
  unfold owed
  rw [owes_moved hw, ho]
  have hslot : (fun j => owes (s.workers j)) i = none := hfree
  exact (held_fill wiki hslot).map Prod.snd

theorem owed_less {s s' : System n} {i : Fin n} {w : Worker} {wiki : String}
    (hw : s'.workers = Function.update s.workers i w) (hold : owes (s.workers i) = some wiki)
    (ho : owes w = none) : (owed s).Perm (wiki :: owed s') := by
  unfold owed
  rw [owes_moved hw, ho]
  have hslot : (fun j => owes (s.workers j)) i = some wiki := hold
  exact (held_empty_slot hslot).map Prod.snd

/-- A step of a running worker, whose account of the updates balances.  The worker had not exited,
    so the shutdown has not got past the joins. -/
theorem Delivered.worker {s s' : System n} (h : Delivered s) {i : Fin n} {w : Worker}
    (hi : s.workers i ≠ .exited) (hw : s'.workers = Function.update s.workers i w)
    (hwikis : s'.wikis.Perm (owed s' ++ waiting s' ++ s'.log.counted))
    (hrest : s'.leaderboard = s.leaderboard ∧ s'.log.counted = s.log.counted ∧
      s'.stopped = s.stopped ∧ s'.reply = s.reply ∧ s'.main = s.main)
    (honce : ∀ task actualStart total todo, w = .body task actualStart total todo → todo.Nodup)
    (hch : .snapshot ∉ s'.channel) : Delivered s' := by
  obtain ⟨hlb, hcounted, hst, hreply, hmain⟩ := hrest
  obtain ⟨hrun, hearly, hphase⟩ := h.of_running hi
  refine ⟨hwikis, by rw [hlb, hcounted]; exact h.tallies, ?_, ?_, ?_⟩
  · intro j task actualStart total todo hj
    rw [hw] at hj
    by_cases hji : j = i
    · subst hji
      rw [Function.update_self] at hj
      exact honce task actualStart total todo hj
    · rw [Function.update_of_ne hji] at hj
      exact h.once j task actualStart total todo hj
  · intro hstop
    rw [hst, hrun] at hstop
    cases hstop
  · rw [hst, hreply, hmain]
    exact hphase _ _ ⟨hch, hreply.trans hearly.2⟩

/-- A step of a running worker that owes what it owed before, and leaves the channel alone. -/
theorem Delivered.keep {s s' : System n} (h : Delivered s) {i : Fin n} {w : Worker}
    (hi : s.workers i ≠ .exited) (hw : s'.workers = Function.update s.workers i w)
    (howes : owes w = owes (s.workers i)) (hlog : s'.log = s.log ∧ s'.channel = s.channel)
    (hrest : s'.leaderboard = s.leaderboard ∧ s'.stopped = s.stopped ∧ s'.reply = s.reply ∧
      s'.main = s.main)
    (honce : ∀ task actualStart total todo, w = .body task actualStart total todo → todo.Nodup) :
    Delivered s' := by
  obtain ⟨hlog, hch⟩ := hlog
  obtain ⟨hlb, hst, hreply, hmain⟩ := hrest
  refine h.worker hi hw ?_ ⟨hlb, by rw [hlog], hst, hreply, hmain⟩ honce ?_
  · rw [owed_kept hw howes, System.wikis, waiting, hlog, hch]
    exact h.wikis
  · rw [hch]
    exact (h.of_running hi).2.1.1

/-- The `Snapshot` stays the last message while updates are taken from before it.  What is taken is
    an update, so it is not the last command. -/
theorem Asked.take {s s' : System n} (h : Asked s) {k : Nat} {wiki : String}
    (hk : s.channel[k]? = some (.update wiki)) (hw : s'.workers = s.workers)
    (hc : s'.channel = s.channel.eraseIdx k) (hr : s'.reply = s.reply) : Asked s' := by
  obtain ⟨hexit, hasked⟩ := h
  refine ⟨by rw [hw]; exact hexit, Or.inl ?_⟩
  rcases hasked with ⟨updates, hch, hno, hreply⟩ | ⟨hnil, _⟩
  · have hlt : k < updates.length := by
      by_contra hge
      rw [hch, List.getElem?_append_right (Nat.le_of_not_lt hge)] at hk
      have := List.mem_of_getElem? hk
      rw [List.mem_singleton] at this
      exact nomatch this
    refine ⟨updates.eraseIdx k, ?_, fun hm => hno (List.mem_of_mem_eraseIdx hm),
      hr.trans hreply⟩
    rw [hc, hch, List.eraseIdx_append_of_lt_length hlt]
  · rw [hnil] at hk
    exact nomatch hk

/-- Nothing waits behind the `Snapshot`. -/
theorem Asked.last {s : System n} (h : Asked s) {rest : List LbCmd}
    (hch : s.channel = .snapshot :: rest) : rest = [] := by
  obtain ⟨_, ⟨updates, hup, hno, _⟩ | ⟨hnil, _⟩⟩ := h
  · rw [hch] at hup
    cases updates with
    | nil => exact (List.cons.inj hup).2
    | cons u us => exact absurd ((List.cons.inj hup).1 ▸ List.mem_cons_self) hno
  · rw [hch] at hnil
    exact nomatch hnil

/-- While the leaderboard runs, a reply can only be given in a phase that waits for it. -/
theorem PhaseOk.answer {early early' asked asked' : Prop} {stopped : Bool}
    {reply reply' : Option (List (String × UInt64))} {phase : MainPhase}
    (h : PhaseOk early asked stopped reply phase) (he : ¬ early) (ha : asked → asked')
    (hrun : stopped = false) : PhaseOk early' asked' stopped reply' phase := by
  cases phase with
  | ingesting => exact absurd h he
  | joining => exact absurd h he
  | failed => exact absurd h he
  | requested => exact ha h
  | released => exact ha h
  | joined => exact absurd (hrun.symm.trans h.2) (by decide)
  | finished entries => exact absurd (hrun.symm.trans h.2.1) (by decide)

/-- The leaderboard may stop in any phase, as far as the phase is concerned. -/
theorem PhaseOk.stop {early asked : Prop} {stopped : Bool}
    {reply : Option (List (String × UInt64))} {phase : MainPhase}
    (h : PhaseOk early asked stopped reply phase) : PhaseOk early asked true reply phase := by
  cases phase with
  | joined => exact ⟨h.1, rfl⟩
  | finished entries => exact ⟨h.1, rfl, h.2.2⟩
  | _ => exact h

/-- A step of the main thread that leaves the channel and the leaderboard alone. -/
theorem Delivered.advance {s : System n} (h : Delivered s) (p : MainPhase) (cancel : Bool)
    (dropped : s.stopped = true → p.dropped = true)
    (phase : PhaseOk (Early s) (Asked s) s.stopped s.reply s.main →
      PhaseOk (Early s) (Asked s) s.stopped s.reply p) :
    Delivered { s with main := p, cancel := cancel } where
  wikis := h.wikis
  tallies := h.tallies
  once := h.once
  closed := fun hst => ⟨(h.closed hst).1, (h.closed hst).2.1, dropped hst⟩
  phase := phase h.phase

/-- **Step lemma** for `Delivered`. -/
theorem Delivered.step {fromStr : Text → Option Json} {s s' : System n} {e : SystemEvent n}
    (h : Delivered s) (hs : Stepped fromStr s e s') : Delivered s' := by
  cases hs with
  | idle e rejected => exact h
  | shed raw now nowNs event accepted bot degraded =>
    exact ⟨h.wikis, h.tallies, h.once, h.closed, h.phase⟩
  | pushed raw now nowNs event q o accepted push =>
    exact ⟨h.wikis, h.tallies, h.once, h.closed, h.phase⟩
  | tick p99 => exact ⟨h.wikis, h.tallies, h.once, h.closed, h.phase⟩
  | cancel => exact ⟨h.wikis, h.tallies, h.once, h.closed, h.phase⟩
  | exit i now at_ =>
    -- a worker between two iterations owes nothing
    have hi : s.workers i ≠ .exited := by rw [at_]; decide
    exact h.keep hi rfl (by rw [at_]; rfl) ⟨rfl, rfl⟩ ⟨rfl, rfl, rfl, rfl⟩
      fun _ _ _ _ he => by cases he
  | pop i now t q at_ pop =>
    -- the dequeued task's update is owed from now on
    have hi : s.workers i ≠ .exited := by rw [at_]; decide
    refine h.worker hi rfl ?_ ⟨rfl, rfl, rfl, rfl, rfl⟩ ?_ (h.of_running hi).2.1.1
    · have hfree : owes (s.workers i) = none := by
        rw [at_]
        rfl
      have hmore : (owed { s.setWorker i (.body t now 0 iteration) with
          queue := q
          log := { s.log with dequeued := s.log.dequeued ++ [(i, t)] } }).Perm
            (t.event.serverName :: owed s) := owed_more rfl hfree rfl
      have hw : (s.log.dequeued ++ [(i, t)]).map (fun d => d.2.event.serverName) =
          s.wikis ++ [t.event.serverName] := by
        rw [List.map_append]
        rfl
      exact (List.Perm.of_eq hw).trans (balance_pop h.wikis hmore)
    · rintro task actualStart total todo ⟨⟩
      decide
  | call i now task actualStart total total' b todo metrics silent at_ =>
    have hi : s.workers i ≠ .exited := by rw [at_]; intro he; cases he
    have howes : owes (.body task actualStart total' todo) = owes (s.workers i) := by
      rw [at_]
      simp only [owes, List.mem_cons, Ne.symm silent, false_or]
    refine h.keep hi rfl howes ⟨rfl, rfl⟩ ⟨rfl, rfl, rfl, rfl⟩ ?_
    rintro task' actualStart' total'' todo' ⟨⟩
    exact (List.nodup_cons.mp (h.once i _ _ _ _ at_)).2
  | send i now task actualStart total total' todo at_ =>
    have hi : s.workers i ≠ .exited := by rw [at_]; intro he; cases he
    obtain ⟨hrun, hearly, _⟩ := h.of_running hi
    have hsend : s.send (.update task.event.serverName) =
        s.channel ++ [.update task.event.serverName] := by simp [send, hrun]
    have hnd := List.nodup_cons.mp (h.once i _ _ _ _ at_)
    refine h.worker hi rfl ?_ ⟨rfl, rfl, rfl, rfl, rfl⟩ ?_ ?_
    · -- the update moves from the worker to the channel
      have hold : owes (s.workers i) = some task.event.serverName := by
        rw [at_]
        simp [owes]
      have hless : (owed s).Perm (task.event.serverName ::
          owed { s.setWorker i (.body task actualStart total' todo) with
            channel := s.send (.update task.event.serverName) }) :=
        owed_less rfl hold (by simp [owes, hnd.1])
      have hwait : (s.send (.update task.event.serverName)).filterMap LbCmd.wiki? =
          waiting s ++ [task.event.serverName] := by
        simp [waiting, hsend, LbCmd.wiki?]
      refine (balance_send h.wikis hless).trans (List.Perm.of_eq ?_)
      rw [← hwait]
      rfl
    · rintro task' actualStart' total'' todo' ⟨⟩
      exact hnd.2
    · show .snapshot ∉ s.send (.update task.event.serverName)
      rw [hsend, List.mem_append, not_or]
      exact ⟨hearly.1, by simp⟩
  | again i now task actualStart total at_ =>
    have hi : s.workers i ≠ .exited := by rw [at_]; intro he; cases he
    exact h.keep hi rfl (by rw [at_]; rfl) ⟨rfl, rfl⟩ ⟨rfl, rfl, rfl, rfl⟩
      fun _ _ _ _ he => by cases he
  | ingestOk phase =>
    have hrun := h.running (by rw [phase]; rfl)
    refine h.advance .joining true (fun hst => absurd (hrun.symm.trans hst) (by decide)) fun hp => ?_
    rw [phase] at hp
    exact hp
  | ingestErr phase =>
    refine h.advance .failed s.cancel (fun _ => rfl) fun hp => ?_
    rw [phase] at hp
    exact hp
  | request phase exited =>
    have hrun := h.running (by rw [phase]; rfl)
    have hsend : s.send .snapshot = s.channel ++ [.snapshot] := by simp [send, hrun]
    have hearly := h.phase
    rw [phase] at hearly
    refine ⟨?_, h.tallies, h.once, fun hst => ?_, ?_⟩
    · have hwait : waiting { s with main := .requested, channel := s.send .snapshot } =
          waiting s := by simp [waiting, hsend, LbCmd.wiki?]
      rw [hwait]
      exact h.wikis
    · rw [show s.stopped = true from hst] at hrun
      cases hrun
    · exact ⟨exited, Or.inl ⟨s.channel, hsend, hearly.1, hearly.2⟩⟩
  | release phase =>
    refine h.advance .released s.cancel (fun _ => rfl) fun hp => ?_
    rw [phase] at hp
    exact hp
  | join phase stopped =>
    refine h.advance .joined s.cancel (fun _ => rfl) fun hp => ?_
    rw [phase] at hp
    exact ⟨hp, stopped⟩
  | receive phase =>
    refine h.advance (.finished s.reply) s.cancel (fun _ => rfl) fun hp => ?_
    rw [phase] at hp
    exact ⟨hp.1, hp.2, rfl⟩
  | count k wiki running waiting_ =>
    have hstop : ∀ {P : Prop}, s.stopped = true → P := fun hst => by
      rw [running] at hst; cases hst
    refine ⟨?_, h.tallies.update wiki, h.once, fun hst => hstop hst, ?_⟩
    · -- the update moves from the channel to the counts
      obtain ⟨hlt, hget⟩ := List.getElem?_eq_some_iff.mp waiting_
      have hperm := (List.getElem_cons_eraseIdx_perm hlt).filterMap LbCmd.wiki?
      rw [hget] at hperm
      exact balance_count h.wikis hperm.symm
    · have hph := h.phase
      have hearly : Early s → Early { s with
          channel := s.channel.eraseIdx k
          leaderboard := s.leaderboard.update wiki
          log := { s.log with counted := s.log.counted ++ [wiki] } } :=
        fun he => ⟨fun hm => he.1 (List.mem_of_mem_eraseIdx hm), he.2⟩
      have hasked : Asked s → Asked { s with
          channel := s.channel.eraseIdx k
          leaderboard := s.leaderboard.update wiki
          log := { s.log with counted := s.log.counted ++ [wiki] } } :=
        fun ha => ha.take waiting_ rfl rfl rfl
      exact hph.mono hearly hasked
  | answer reply rest running waiting_ sorted =>
    have hstop : ∀ {P : Prop}, s.stopped = true → P := fun hst => by
      rw [running] at hst; cases hst
    refine ⟨?_, h.tallies, h.once, fun hst => hstop hst, ?_⟩
    · have hwait : waiting s = rest.filterMap LbCmd.wiki? := by
        rw [waiting, waiting_]; rfl
      have := h.wikis
      rw [hwait] at this
      exact this
    · -- nothing waits behind the `Snapshot`, so the channel is empty now
      refine h.phase.answer (fun he => he.1 (by rw [waiting_]; exact List.mem_cons_self))
        (fun ha => ⟨ha.1, Or.inr ⟨ha.last waiting_, reply, rfl, sorted⟩⟩) running
  | stop empty exited dropped =>
    exact ⟨h.wikis, h.tallies, h.once, fun _ => ⟨empty, exited, dropped⟩, h.phase.stop⟩

/-! ## The accepted payloads of a run

What ties the log to the schedule: the accepted tasks are those of the payloads that were
dispatched, in this order. -/

/-- What `parse_one` makes of the payload this step dispatches. -/
def payload (fromStr : Text → Option Json) : SystemEvent n → Option Event
  | .dispatch raw _ _ => accepted? fromStr raw
  | _ => none

/-- One step logs the payload it dispatches, if it was accepted, and nothing else. -/
theorem Stepped.accepted {fromStr : Text → Option Json} {s s' : System n} {e : SystemEvent n}
    (h : Stepped fromStr s e s') :
    s'.log.accepted.map Task.event =
      s.log.accepted.map Task.event ++ ((payload fromStr e).map Event.intoOwned).toList := by
  cases h with
  | idle e rejected =>
    have hnone : payload fromStr e = none := by
      cases e with
      | dispatch raw now nowNs => exact rejected raw now nowNs rfl
      | _ => rfl
    simp [hnone]
  | shed raw now nowNs event accepted bot degraded => simp [payload, accepted, Event.toTask]
  | pushed raw now nowNs event q o accepted push => simp [payload, accepted, Event.toTask]
  | _ => simp [payload, setWorker]

/-- The accepted payloads of a run, in order. -/
theorem accepted_run {fromStr : Text → Option Json} {high : UInt64} (ls : List (SystemEvent n))
    {s s' : System n} (h : run (step fromStr high) s ls = some s') :
    s'.log.accepted.map Task.event =
      s.log.accepted.map Task.event ++ (ls.filterMap (payload fromStr)).map Event.intoOwned := by
  rw [List.map_filterMap]
  exact run_collect (fun _ _ _ hs => (stepped_of_step hs).accepted) ls s s' h

/-! ## Accounting

The two invariants along a run, and what they come to when the main thread has printed. -/

/-- The printed leaderboard: each wiki of a dequeued task once, with the number of such tasks,
    by non-increasing count. -/
def Exact (s : System n) (entries : List (String × UInt64)) : Prop :=
  (entries.map Prod.fst).Nodup ∧
    (∀ wiki k, (wiki, k) ∈ entries ↔
      wiki ∈ s.wikis ∧ k = UInt64.ofNat (s.wikis.count wiki)) ∧
    entries.Pairwise fun a b => b.2 ≤ a.2

/-- What the main thread receives after the shutdown. -/
theorem Delivered.exact {s : System n} (h : Delivered s)
    {entries : Option (List (String × UInt64))} (hm : s.main = .finished entries) :
    ∃ reply, entries = some reply ∧ Exact s reply := by
  have hph := h.phase
  rw [hm] at hph
  obtain ⟨⟨hexit, hasked⟩, hst, heq⟩ := hph
  have hnil : s.channel = [] := (h.closed hst).1
  -- the actor has stopped, so the `Snapshot` is not waiting any more
  rcases hasked with ⟨updates, hch, _, _⟩ | ⟨_, reply, hreply, hsnap⟩
  · rw [hnil] at hch
    exact absurd hch.symm (by simp)
  · -- every worker has exited and the channel is empty, so every update was counted
    have howed : owed s = [] := by
      have hnone : (fun i => owes (s.workers i)) = fun _ => none := by
        funext i
        rw [hexit i]
        rfl
      unfold owed
      rw [hnone, held_empty]
      rfl
    have hcounted : s.wikis.Perm s.log.counted := by
      have := h.wikis
      rw [howed, waiting, hnil] at this
      exact this
    obtain ⟨hnodup, hmem, hsorted⟩ := hsnap.exact h.tallies
    refine ⟨reply, heq.trans hreply, hnodup, fun wiki k => ?_, hsorted⟩
    rw [hmem wiki k, hcounted.mem_iff, hcounted.count_eq]

/-- **Accounting.**  After any interleaving of dispatches, ticks, worker steps, leaderboard steps
    and the shutdown sequence:

    * the accepted payloads are those `parse_one` accepted, in order, and as many as were shed,
      evicted, queued or dequeued, `overflow_count` counting the evicted;
    * only Bot events were shed, each in Degraded Mode;
    * once the main thread has received the `Snapshot`, it holds the exact leaderboard.

    Two invariants that do not need each other, `Accounted` for the tasks and `Delivered` for the
    updates, each with a step lemma over the cases of `Stepped`.  What was accepted is read off the
    schedule, by a log that only grows. -/
theorem pipeline_accounting (fromStr : Text → Option Json) (high : UInt64) (n C : Nat)
    (hC : 0 < C) (ls : List (SystemEvent n)) (s : System n)
    (h : run (step fromStr high) (start n C) ls = some s) :
    s.log.accepted.map Task.event = (ls.filterMap (payload fromStr)).map Event.intoOwned ∧
    s.log.accepted.length = s.log.shed.length + s.log.evicted.length + s.queue.len +
      s.log.dequeued.length ∧
    s.queue.overflowCount = UInt64.ofNat s.log.evicted.length ∧
    (∀ e ∈ s.log.shed, e.1.priority = .bot ∧ e.2 = true) ∧
    (∀ entries, s.main = .finished entries → ∃ reply, entries = some reply ∧ Exact s reply) := by
  have ha : Accounted C s :=
    run_invariant (fun _ _ _ hI hs => hI.step hC (stepped_of_step hs)) ls _ s (accounted_start C) h
  have hd : Delivered s :=
    run_invariant (fun _ _ _ hI hs => hI.step (stepped_of_step hs)) ls _ s (delivered_start C) h
  refine ⟨by simpa [start] using accepted_run ls h, ?_, ha.overflow, ha.shedBots,
    fun entries hm => hd.exact hm⟩
  have hlen := ha.places.length_eq
  rw [← PriorityQueue.length_queued]
  simpa only [List.length_append, List.length_map] using hlen

/-- Two payloads of one wiki, each dequeued by its own worker, and the whole shutdown. -/
theorem pipeline_accounting_two :
    let raw := "\x7b\"user\":\"u\",\"server_name\":\"w\"\x7d".toList
    let fromStr := fun _ => some (Json.obj [("user", .str "u"), ("server_name", .str "w")])
    let ls : List (SystemEvent 2) :=
      [.dispatch raw 1 1, .dispatch raw 2 2, .work 0 3, .work 1 3,
        .work 0 4, .work 0 4, .work 0 4, .work 0 4, .work 0 4, .work 0 4, .count 0,
        .work 1 5, .work 1 5, .work 1 5, .work 1 5, .work 1 5, .work 1 5,
        .ingestOk, .work 0 6, .work 1 6, .main, .count 0, .answer [("w", 2)], .main, .stop,
        .main, .main]
    ∃ s, run (step fromStr 1) (start 2 2) ls = some s ∧
      s.main = .finished (some [("w", 2)]) ∧ Exact s [("w", 2)] := by
  intro raw fromStr ls
  obtain ⟨s, hs, hm⟩ := Option.map_eq_some_iff.mp
    (show (run (step fromStr 1) (start 2 2) ls).map System.main =
      some (.finished (some [("w", 2)])) from rfl)
  obtain ⟨reply, heq, hexact⟩ :=
    (pipeline_accounting fromStr 1 2 2 (by decide) ls s hs).2.2.2.2 _ hm
  obtain rfl := Option.some.inj heq
  exact ⟨s, hs, hm, hexact⟩

end System

end RtsPipeline.Threaded
