/-
  The tickers of the fail-safe controller, lock by lock: `run_sync_ticker` of
  `rts-core/src/failsafe.rs` and the `tokio::time::interval` of the async pipeline.

  The controller is shared.  `record` reads the position of the current bucket and lets go of its
  lock before it takes the bucket's, so a sample may end up in a bucket that is not current any
  more.  `advance` keeps the lock of the position to its end and is one step.  `p99_ns` takes the
  locks of the buckets one after the other, and samples are recorded in between.

  A sleep is never early.  The interval's first tick is due at once; a tick that is missed by more
  than the timer's slack is skipped, and the next one is due on the grid of the ticks.

  What the workers do meanwhile does not matter to the first result.  The mode changes only in
  `evaluate`, after `dwellTicks` rounds in a row that asked for it, and the counter of these starts
  at zero after a change; the rounds are a period apart whatever happens.  So `Paced` only has to
  relate the counter to the time that has passed since the last change.  It cannot be a lower bound
  on the clock, as a tick of the interval may be late and the next one in time again; the invariant
  speaks of when the round is due, and the lateness of one tick is what the two ends differ by.

  The way back is about the contents of the buckets, and there the workers do matter: one that has
  read the position may put its sample into a bucket that has been rotated away since.  If all
  samples are fast this only makes some other bucket fast.  `Calming` counts the advances since;
  each clears the oldest bucket, so after `ringLen` of them no slow sample is left, whatever was put
  where.

  1. `Ticking.act` — one step of a worker or of the ticker, at a time.
  2. `quiet_tick` — a tick that nothing interferes with is `FailSafeController.tick`.
  3. `Paced` — the rounds of the ticker and the changes of the mode.
  4. `switches_apart` — the mode does not flap.
  5. `Calming` — how far back the buckets are clear of slow samples.
  6. `recovers_in_time` — the way back to normal mode, in seconds.
-/
import RtsPipeline.Core.DegradedMode
import RtsPipeline.Core.Watchdog

namespace RtsPipeline

open Lib

/-! ## The code

The loop of the ticker, cut at the places where something else may happen: the wait, the look at the
flag, the advance of the window, the merging of each bucket, and the evaluation.  A worker that
records reads the position first and writes into the bucket later. -/

/-- `RollingHistogram::record`, after the position was read. -/
def RollingHistogram.recordAt (high : UInt64) (w : RollingHistogram) (i : Fin ringLen)
    (ns : UInt64) : RollingHistogram :=
  { w with buckets := Function.update w.buckets i ((w.buckets i).record high (max ns 1)) }

/-- `p99_ns`, after the buckets were merged. -/
def Hdr.p99Of (hdr : Hdr) (merged : Histogram) : UInt64 :=
  if merged.isEmpty then 0 else hdr.valueAtQuantile merged .p99

/-- The period of both tickers. -/
def tickPeriodNs : Nat := 1000000000

/-- How late a tick of an interval may be before it counts as missed. -/
def tickSlackNs : Nat := 5000000

/-- `MissedTickBehavior::Skip`: when the tick after the one that was due at `due` and came at `now`
    is due. -/
def nextTick (due now : Nat) : Nat :=
  if now ≤ due + tickSlackNs then due + tickPeriodNs
  else now + tickPeriodNs - (now - due) % tickPeriodNs

/-- When the next round is due: the threaded ticker sleeps after its tick, the interval is set when
    it fires. -/
def Runtime.nextRound (rt : Runtime) (due woke clock : Nat) : Nat :=
  match rt with
  | .threaded => clock + tickPeriodNs
  | .async => nextTick due woke

/-- Where the ticker stands, with the time its round was due at and the time it woke up. -/
inductive TickerPhase
  | waiting (due : Nat)
  | awake (due woke : Nat)           -- about to load the flag
  | ticking (due woke : Nat)         -- in `tick`, about to advance
  | merging (due woke : Nat) (rest : List (Fin ringLen)) (merged : Histogram)
  | finished

/-- The window was advanced in this round. -/
def TickerPhase.advanced : TickerPhase → Nat
  | merging .. => 1
  | _ => 0

/-- The controller, `n` workers that record, and the ticker.  `switches` are the times at which the
    mode changed; no step depends on them. -/
structure Ticking (n : Nat) where
  controller : FailSafeController
  picked : Fin n → Option (Fin ringLen)   -- the position a worker has read
  cancel : Bool
  phase : TickerPhase
  switches : List Nat

/-- A step of the flag, of a worker or of the ticker. -/
inductive TickerEvent (n : Nat)
  | cancel
  | pick (i : Fin n)
  | put (i : Fin n) (j : Nat)
  | turn

namespace Ticking

variable {n : Nat}

/-- The ticker is spawned with the pipeline. -/
def start (rt : Runtime) : Ticking n :=
  { controller := .new
    picked := fun _ => none
    cancel := false
    phase := .waiting (match rt with | .threaded => tickPeriodNs | .async => 0)
    switches := [] }

/-- `is_degraded`. -/
def isDegraded (s : Ticking n) : Bool := s.controller.isDegraded

/-- The end of `tick`: the automaton moves, and the round is over. -/
def evaluate (hdr : Hdr) (rt : Runtime) (clock due woke : Nat) (merged : Histogram)
    (s : Ticking n) : Ticking n :=
  let hysteresis := s.controller.hysteresis.evaluate (hdr.p99Of merged)
  { s with
    controller := { s.controller with hysteresis := hysteresis }
    phase := .waiting (rt.nextRound due woke clock)
    switches := s.switches ++ if hysteresis.isDegraded = s.isDegraded then [] else [clock] }

/-- The next step of the ticker; `none` while it waits and when it has returned. -/
def turn (hdr : Hdr) (rt : Runtime) (clock : Nat) (s : Ticking n) : Option (Ticking n) :=
  match s.phase with
  | .waiting due =>
    match rt with
    -- `thread::sleep` ends when it is due, whatever the flag says
    | .threaded => if due ≤ clock then some { s with phase := .awake due clock } else none
    -- the `select!` looks at the token first
    | .async =>
      if s.cancel then some { s with phase := .finished }
      else if due ≤ clock then some { s with phase := .ticking due clock }
      else none
  -- the threaded ticker looks at the flag after its sleep
  | .awake due woke =>
    if s.cancel then some { s with phase := .finished }
    else some { s with phase := .ticking due woke }
  -- `advance`, under one lock
  | .ticking due woke =>
    some { s with
      controller := { s.controller with rolling := s.controller.rolling.advance }
      phase := .merging due woke (List.finRange ringLen) .empty }
  -- one bucket at a time, each under its own lock
  | .merging due woke (i :: rest) merged =>
    some { s with
      phase := .merging due woke rest (merged.add (s.controller.rolling.buckets i)) }
  | .merging due woke [] merged => some (s.evaluate hdr rt clock due woke merged)
  | .finished => none

/-- One step at a time. -/
def act (hdr : Hdr) (rt : Runtime) (clock : Nat) (s : Ticking n) :
    TickerEvent n → Option (Ticking n)
  | .cancel => some { s with cancel := true }
  -- `record` reads the position of the current bucket
  | .pick i =>
    some { s with picked := Function.update s.picked i (some s.controller.rolling.idx) }
  -- and writes into that bucket, current or not
  | .put i j =>
    (s.picked i).map fun b =>
      { s with
        controller :=
          { s.controller with rolling := s.controller.rolling.recordAt hdr.high b (nanos j) }
        picked := Function.update s.picked i none }
  | .turn => s.turn hdr rt clock

/-! ## What a step can do

One case for each place the ticker can be at, with what it needs to go on from there. -/

/-- What one step can do, and when. -/
inductive Stepped (hdr : Hdr) (rt : Runtime) (clock : Nat) (s : Ticking n) :
    TickerEvent n → Ticking n → Prop
  | cancel : Stepped hdr rt clock s .cancel { s with cancel := true }
  | pick (i : Fin n) : Stepped hdr rt clock s (.pick i)
      { s with picked := Function.update s.picked i (some s.controller.rolling.idx) }
  | put (i : Fin n) (j : Nat) (b : Fin ringLen) : Stepped hdr rt clock s (.put i j)
      { s with
        controller :=
          { s.controller with rolling := s.controller.rolling.recordAt hdr.high b (nanos j) }
        picked := Function.update s.picked i none }
  | wake (due : Nat) (phase : TickerPhase) (at_ : s.phase = .waiting due) (passed : due ≤ clock)
      (next : phase = .awake due clock ∨ phase = .ticking due clock) :
      Stepped hdr rt clock s .turn { s with phase := phase }
  | look (due woke : Nat) (at_ : s.phase = .awake due woke) :
      Stepped hdr rt clock s .turn { s with phase := .ticking due woke }
  | advance (due woke : Nat) (at_ : s.phase = .ticking due woke) : Stepped hdr rt clock s .turn
      { s with
        controller := { s.controller with rolling := s.controller.rolling.advance }
        phase := .merging due woke (List.finRange ringLen) .empty }
  | merge (due woke : Nat) (i : Fin ringLen) (rest : List (Fin ringLen)) (merged : Histogram)
      (at_ : s.phase = .merging due woke (i :: rest) merged) : Stepped hdr rt clock s .turn
      { s with
        phase := .merging due woke rest (merged.add (s.controller.rolling.buckets i)) }
  | evaluate (due woke : Nat) (merged : Histogram) (at_ : s.phase = .merging due woke [] merged) :
      Stepped hdr rt clock s .turn (s.evaluate hdr rt clock due woke merged)
  | leave (outside : s.phase.advanced = 0) (set : s.cancel = true) :
      Stepped hdr rt clock s .turn { s with phase := .finished }

/-- Every step does one of these.  The threaded ticker sleeps and looks at the flag afterwards, the
    async one selects, and there a set flag wins whether or not the round is due. -/
theorem stepped_of_act {hdr : Hdr} {rt : Runtime} {clock : Nat} {s s' : Ticking n}
    {e : TickerEvent n} (h : s.act hdr rt clock e = some s') : Stepped hdr rt clock s e s' := by
  cases e with
  | cancel =>
    obtain rfl := Option.some.inj h
    exact .cancel
  | pick i =>
    obtain rfl := Option.some.inj h
    exact .pick i
  | put i j =>
    obtain ⟨b, _, rfl⟩ := Option.map_eq_some_iff.mp h
    exact .put i j b
  | turn =>
    simp only [act, turn] at h
    split at h
    next due at_ =>
      cases rt with
      | threaded =>
        obtain ⟨passed, rfl⟩ := of_guard h
        exact .wake due _ at_ passed (Or.inl rfl)
      | async =>
        simp only at h
        split at h
        next set =>
          obtain rfl := Option.some.inj h
          exact .leave (by rw [at_]; rfl) set
        next =>
          obtain ⟨passed, rfl⟩ := of_guard h
          exact .wake due _ at_ passed (Or.inr rfl)
    next due woke at_ =>
      split at h
      next set =>
        obtain rfl := Option.some.inj h
        exact .leave (by rw [at_]; rfl) set
      next =>
        obtain rfl := Option.some.inj h
        exact .look due woke at_
    next due woke at_ =>
      obtain rfl := Option.some.inj h
      exact .advance due woke at_
    next due woke i rest merged at_ =>
      obtain rfl := Option.some.inj h
      exact .merge due woke i rest merged at_
    next due woke merged at_ =>
      obtain rfl := Option.some.inj h
      exact .evaluate due woke merged at_
    next => cases h

/-- The merging of buckets that nobody writes to.  The induction is on the buckets still to be
    merged. -/
theorem quiet_merge (hdr : Hdr) (rt : Runtime) (clock due woke : Nat) :
    ∀ (rest : List (Fin ringLen)) (merged : Histogram) (s : Ticking n),
    s.phase = .merging due woke rest merged →
    run (act hdr rt clock) s (List.replicate rest.length .turn) = some
      { s with
        phase := .merging due woke []
          (rest.foldl (fun h i => h.add (s.controller.rolling.buckets i)) merged) } := by
  intro rest
  induction rest with
  | nil =>
    intro merged s hs
    rw [List.foldl_nil, ← hs]
    rfl
  | cons i rest ih =>
    intro merged s hs
    have hstep : s.act hdr rt clock .turn = some
        { s with
          phase := .merging due woke rest (merged.add (s.controller.rolling.buckets i)) } := by
      show s.turn hdr rt clock = _
      rw [turn, hs]
    rw [List.length_cons, List.replicate_succ, run_cons, hstep]
    exact ih _ _ rfl

/-- **A tick that nothing interferes with** is `FailSafeController.tick`. -/
theorem quiet_tick (hdr : Hdr) (rt : Runtime) (clock due woke : Nat) (s : Ticking n)
    (h : s.phase = .ticking due woke) :
    (run (act hdr rt clock) s (List.replicate (ringLen + 2) .turn)).map Ticking.controller =
      some (s.controller.tick hdr) := by
  have hadvance : s.act hdr rt clock .turn = some
      { s with
        controller := { s.controller with rolling := s.controller.rolling.advance }
        phase := .merging due woke (List.finRange ringLen) .empty } := by
    show s.turn hdr rt clock = _
    rw [turn, h]
  have hturns : List.replicate (ringLen + 2) (TickerEvent.turn (n := n)) =
      .turn :: (List.replicate (List.finRange ringLen).length .turn ++ [.turn]) := rfl
  rw [hturns, run_cons, hadvance, Option.bind_some, run_append,
    quiet_merge hdr rt clock due woke (List.finRange ringLen) .empty _ rfl, Option.bind_some]
  rfl

/-! ## The rounds

How the two runtimes come to the time of the next round, and what they have in common: the rounds
are a period apart at least, and the next one is at most a period away. -/

end Ticking

namespace TickerPhase

/-- When the round was due. -/
def due? : TickerPhase → Option Nat
  | waiting due | awake due _ | ticking due _ | merging due _ _ _ => some due
  | finished => none

/-- When the ticker woke up for the round. -/
def woke? : TickerPhase → Option Nat
  | awake _ woke | ticking _ woke | merging _ woke _ _ => some woke
  | waiting _ | finished => none

end TickerPhase

theorem nextTick_bounds {due now : Nat} (h : due ≤ now) :
    due + tickPeriodNs ≤ nextTick due now ∧ nextTick due now ≤ now + tickPeriodNs := by
  unfold nextTick
  split
  · omega
  · have := Nat.mod_le (now - due) tickPeriodNs
    omega

/-- The rounds are a period apart at least, and the next one is due within a period. -/
theorem Runtime.nextRound_bounds (rt : Runtime) {due woke clock : Nat} (hwoke : due ≤ woke)
    (hclock : woke ≤ clock) : due + tickPeriodNs ≤ rt.nextRound due woke clock ∧
      rt.nextRound due woke clock ≤ clock + tickPeriodNs := by
  cases rt with
  | threaded =>
    show due + tickPeriodNs ≤ clock + tickPeriodNs ∧ clock + tickPeriodNs ≤ clock + tickPeriodNs
    omega
  | async =>
    have : due + tickPeriodNs ≤ nextTick due woke ∧ nextTick due woke ≤ woke + tickPeriodNs :=
      nextTick_bounds hwoke
    show due + tickPeriodNs ≤ nextTick due woke ∧ nextTick due woke ≤ clock + tickPeriodNs
    omega

/-- By how much two changes of the mode may be closer than the rounds they belong to. -/
def Runtime.slop (rt : Runtime) (late : Nat) : Nat :=
  match rt with
  | .threaded => 0
  | .async => late

/-- By how much the first round is early. -/
def Runtime.head : Runtime → Nat
  | .threaded => 0
  | .async => tickPeriodNs

namespace Ticking

variable {n : Nat} {hdr : Hdr} {rt : Runtime} {late clock : Nat} {s s' : Ticking n}
  {e : TickerEvent n}

/-- `dwell_counter`. -/
def dwelt (s : Ticking n) : Nat := s.controller.hysteresis.dwellCounter.toNat

/-- The round and the clock: a round is never due more than a period ahead, the ticker has not woken
    up for it early, and it has left only if the flag was set.  `waits` bounds how long the ticker
    can be away, whichever of the two runtimes it is written in; `woken` is what makes two rounds a
    period apart. -/
structure Clocked (clock : Nat) (s : Ticking n) : Prop where
  waits : ∀ due, s.phase.due? = some due → due ≤ clock + tickPeriodNs
  woken : ∀ due woke, s.phase.due? = some due → s.phase.woke? = some woke →
    due ≤ woke ∧ woke ≤ clock
  left : s.phase = .finished → s.cancel = true

theorem clocked_start (rt : Runtime) : (start rt : Ticking n).Clocked 0 where
  waits due hdue := by
    obtain rfl := Option.some.inj hdue
    cases rt with
    | threaded => exact Nat.le_add_left _ _
    | async => exact Nat.zero_le _
  woken _ _ _ hwoke := by cases hwoke
  left hphase := by cases hphase

theorem Clocked.later {later : Nat} (hle : clock ≤ later) (h : s.Clocked clock) :
    s.Clocked later where
  waits due hdue := Nat.le_trans (h.waits due hdue) (Nat.add_le_add_right hle _)
  woken due woke hdue hwoke :=
    ⟨(h.woken due woke hdue hwoke).1, Nat.le_trans (h.woken due woke hdue hwoke).2 hle⟩
  left := h.left

/-- The ticker moves on within its round. -/
theorem Clocked.move (h : s.Clocked clock) {t : Ticking n}
    (hdue : ∀ due, t.phase.due? = some due → s.phase.due? = some due)
    (hwoke : ∀ woke, t.phase.woke? = some woke → s.phase.woke? = some woke)
    (hleft : t.phase = .finished → t.cancel = true) : t.Clocked clock where
  waits due ht := h.waits due (hdue due ht)
  woken due woke ht hw := h.woken due woke (hdue due ht) (hwoke woke hw)
  left := hleft

/-- **Step lemma** for `Clocked`. -/
theorem Clocked.step (h : s.Clocked clock) (hs : Stepped hdr rt clock s e s') :
    s'.Clocked clock := by
  -- a waking sets the time of waking, an evaluation the next round; the rest keep both
  cases hs with
  | cancel => exact h.move (fun _ hd => hd) (fun _ hw => hw) fun _ => rfl
  | pick i => exact h.move (fun _ hd => hd) (fun _ hw => hw) h.left
  | put i j b => exact h.move (fun _ hd => hd) (fun _ hw => hw) h.left
  | wake due phase at_ passed next =>
    -- either way out of the sleep keeps when the round was due
    have hdue : ∀ d, phase.due? = some d → d = due := by
      rcases next with rfl | rfl
      · exact fun d hd => (Option.some.inj hd).symm
      · exact fun d hd => (Option.some.inj hd).symm
    have hwoke : ∀ w, phase.woke? = some w → w = clock := by
      rcases next with rfl | rfl
      · exact fun w hw => (Option.some.inj hw).symm
      · exact fun w hw => (Option.some.inj hw).symm
    refine ⟨fun d hd => ?_, fun d w hd hw => ?_, fun hleft => ?_⟩
    · rw [hdue d hd]
      omega
    · rw [hdue d hd, hwoke w hw]
      exact ⟨passed, Nat.le_refl _⟩
    · rcases next with rfl | rfl <;> cases hleft
  | look due woke at_ =>
    exact h.move (fun d hd => by rw [at_]; exact hd) (fun w hw => by rw [at_]; exact hw)
      fun hleft => by cases hleft
  | advance due woke at_ =>
    exact h.move (fun d hd => by rw [at_]; exact hd) (fun w hw => by rw [at_]; exact hw)
      fun hleft => by cases hleft
  | merge due woke i rest merged at_ =>
    exact h.move (fun d hd => by rw [at_]; exact hd) (fun w hw => by rw [at_]; exact hw)
      fun hleft => by cases hleft
  | evaluate due woke merged at_ =>
    obtain ⟨hdw, hwc⟩ := h.woken due woke (by rw [at_]; rfl) (by rw [at_]; rfl)
    refine ⟨fun d hd => ?_, fun d w _ hw => ?_, fun hleft => ?_⟩
    · obtain rfl := Option.some.inj hd
      exact (rt.nextRound_bounds hdw hwc).2
    · cases hw
    · cases hleft
  | leave outside set =>
    exact h.move (fun _ hd => by cases hd) (fun _ hw => by cases hw) fun _ => set

/-- The ticker's round is at most `late` behind. -/
def Punctual (late : Nat) (s : Timed (Ticking n)) : Prop :=
  ∀ due ∈ s.state.phase.due?, s.clock ≤ due + late

instance (late : Nat) : DecidablePred (Punctual (n := n) late) := fun s =>
  inferInstanceAs (Decidable (∀ due ∈ s.state.phase.due?, s.clock ≤ due + late))

/-! ## The changes of the mode

An evaluation moves the dwell counter by one at most, and there is one evaluation in a round.  So
ten rounds lie between two changes, and their times are known from the section before. -/

/-- The counter has moved on by one at most since the round before, and every tick it counts took a
    round.

    `since` is the one that carries the induction: between a change and the round that is due now
    lie the rounds the counter counts and one more.  When the counter is full, the mode changes and
    `since` says what `apart` asks of the new change.  `first` and `settled` are the same for the
    start. -/
structure Paced (rt : Runtime) (late : Nat) (s : Ticking n) : Prop where
  since : ∀ due, s.phase.due? = some due → ∀ a ∈ s.switches,
    a + (s.dwelt + 1) * tickPeriodNs ≤ due + rt.slop late
  first : ∀ due, s.phase.due? = some due → (s.dwelt + 1) * tickPeriodNs ≤ due + rt.head
  apart : s.switches.Pairwise fun a b => a + dwellTicks.toNat * tickPeriodNs ≤ b + rt.slop late
  settled : ∀ b ∈ s.switches, dwellTicks.toNat * tickPeriodNs ≤ b + rt.head

theorem paced_start (rt : Runtime) (late : Nat) : (start rt : Ticking n).Paced rt late where
  since _ _ a ha := absurd ha List.not_mem_nil
  first due hdue := by
    obtain rfl := Option.some.inj hdue
    have hzero : (start rt : Ticking n).dwelt = 0 := rfl
    rw [hzero, Nat.zero_add, Nat.one_mul]
    cases rt with
    | threaded => exact Nat.le_add_right _ _
    | async => exact Nat.le_add_left _ _
  apart := List.Pairwise.nil
  settled b hb := absurd hb List.not_mem_nil

/-- The ticker moves on within its round, or leaves. -/
theorem Paced.move (h : s.Paced rt late) {t : Ticking n}
    (hdue : ∀ due, t.phase.due? = some due → s.phase.due? = some due) (hdwelt : t.dwelt = s.dwelt)
    (hswitches : t.switches = s.switches) : t.Paced rt late where
  since due ht a ha := by
    rw [hdwelt]
    exact h.since due (hdue due ht) a (hswitches ▸ ha)
  first due ht := by
    rw [hdwelt]
    exact h.first due (hdue due ht)
  apart := hswitches ▸ h.apart
  settled b hb := h.settled b (hswitches ▸ hb)

/-- What `evaluate` does to the mode and the counter.  If the mode stays, the counter moves on or
    starts over; if it changes, the counter was full and starts over. -/
theorem evaluate_cases (hdr : Hdr) (rt : Runtime) (clock : Nat) (s : Ticking n) (due woke : Nat)
    (merged : Histogram) :
    (s.evaluate hdr rt clock due woke merged).switches = s.switches ∧
        (s.evaluate hdr rt clock due woke merged).dwelt ≤ s.dwelt + 1 ∨
      (s.evaluate hdr rt clock due woke merged).switches = s.switches ++ [clock] ∧
        dwellTicks.toNat ≤ s.dwelt + 1 ∧
        (s.evaluate hdr rt clock due woke merged).dwelt = 0 := by
  have hcases := Dwell.step_cases Hysteresis.beyond dwellTicks.toNat
    s.controller.hysteresis.toDwell (hdr.p99Of merged)
  rw [← Hysteresis.toDwell_evaluate] at hcases
  have hswitches : (s.evaluate hdr rt clock due woke merged).switches = s.switches ++
      if (s.controller.hysteresis.evaluate (hdr.p99Of merged)).isDegraded = s.isDegraded then []
      else [clock] := rfl
  rcases hcases with ⟨hmode, hcount⟩ | ⟨hmode, hfull, hcount⟩
  · refine Or.inl ⟨?_, hcount⟩
    rw [hswitches]
    exact (congrArg _ (if_pos hmode)).trans (List.append_nil _)
  · refine Or.inr ⟨?_, hfull, hcount⟩
    rw [hswitches]
    exact congrArg _ (if_neg hmode)

/-- **Step lemma** for `Paced`. -/
theorem Paced.step (h : s.Paced rt late) (hclocked : s.Clocked clock)
    (hlate : rt = .async → ∀ due, s.phase.due? = some due → clock ≤ due + late)
    (hs : Stepped hdr rt clock s e s') : s'.Paced rt late := by
  cases hs with
  | cancel | pick | put => exact h.move (fun _ hd => hd) rfl rfl
  | wake due phase at_ passed next =>
    refine h.move (fun d hd => ?_) rfl rfl
    rw [at_]
    rcases next with rfl | rfl <;> exact hd
  | look due woke at_ => exact h.move (fun d hd => by rw [at_]; exact hd) rfl rfl
  | advance due woke at_ => exact h.move (fun d hd => by rw [at_]; exact hd) rfl rfl
  | merge due woke i rest merged at_ => exact h.move (fun d hd => by rw [at_]; exact hd) rfl rfl
  | leave outside set => exact h.move (fun _ hd => by cases hd) rfl rfl
  | evaluate due woke merged at_ =>
    have hdue : s.phase.due? = some due := by rw [at_]; rfl
    obtain ⟨hdw, hwc⟩ := hclocked.woken due woke hdue (by rw [at_]; rfl)
    have hnext := (rt.nextRound_bounds hdw hwc).1
    -- the round after a tick is due a period after it, but for the delay of an interval's tick
    have hslop : clock + tickPeriodNs ≤ rt.nextRound due woke clock + rt.slop late := by
      cases rt with
      | threaded => exact Nat.le_refl _
      | async =>
        have hc := hlate rfl due hdue
        show _ ≤ _ + late
        omega
    have hsince := h.since due hdue
    have hfirst := h.first due hdue
    have hround : ∀ d, (s.evaluate hdr rt clock due woke merged).phase.due? = some d →
        d = rt.nextRound due woke clock := fun d hd => (Option.some.inj hd).symm
    rcases evaluate_cases hdr rt clock s due woke merged with
      ⟨hswitches, hdwelt⟩ | ⟨hswitches, hfull, hdwelt⟩
    · -- the counter has moved on by one at most, and the round by a period at least
      have hmore := Nat.mul_le_mul_right tickPeriodNs (Nat.add_le_add_right hdwelt 1)
      rw [Nat.succ_mul (s.dwelt + 1)] at hmore
      refine ⟨fun d hd a ha => ?_, fun d hd => ?_, hswitches ▸ h.apart, hswitches ▸ h.settled⟩
      · have := hsince a (hswitches ▸ ha)
        rw [hround d hd]
        omega
      · rw [hround d hd]
        omega
    · -- the counter was full, and starts anew
      have hmany := Nat.mul_le_mul_right tickPeriodNs hfull
      refine ⟨fun d hd a ha => ?_, fun d hd => ?_, ?_, fun b hb => ?_⟩
      · rw [hround d hd, hdwelt, Nat.zero_add, Nat.one_mul]
        rcases List.mem_append.mp (hswitches ▸ ha) with ha | ha
        · have := hsince a ha
          rw [Nat.succ_mul] at this
          omega
        · rw [List.mem_singleton.mp ha]
          exact hslop
      · rw [hround d hd, hdwelt, Nat.zero_add, Nat.one_mul]
        rw [Nat.succ_mul] at hfirst
        omega
      · rw [hswitches]
        refine List.pairwise_append.mpr ⟨h.apart, List.pairwise_singleton _ _, fun a ha b hb => ?_⟩
        have := hsince a ha
        rw [List.mem_singleton.mp hb]
        omega
      · rcases List.mem_append.mp (hswitches ▸ hb) with hb | hb
        · exact h.settled b hb
        · rw [List.mem_singleton.mp hb]
          omega

/-- In degraded mode after an odd number of changes.  The list of the switches does not say which of
    them was on and which was off; this is where it can be read from. -/
def Marked (s : Ticking n) : Prop := s.isDegraded = decide (s.switches.length % 2 = 1)

/-- **Step lemma** for `Marked`. -/
theorem Marked.step (h : s.Marked) (hs : Stepped hdr rt clock s e s') : s'.Marked := by
  cases hs with
  | evaluate due woke merged at_ =>
    show (s.controller.hysteresis.evaluate (hdr.p99Of merged)).isDegraded =
      decide ((s.switches ++ if (s.controller.hysteresis.evaluate (hdr.p99Of merged)).isDegraded =
        s.isDegraded then [] else [clock]).length % 2 = 1)
    generalize (s.controller.hysteresis.evaluate (hdr.p99Of merged)).isDegraded = mode
    unfold Marked at h
    by_cases hmode : mode = s.isDegraded
    · rw [if_pos hmode, List.append_nil, hmode]
      exact h
    · rw [if_neg hmode, List.length_append, List.length_singleton]
      -- the other mode, and the other parity
      rw [Bool.eq_not.mpr hmode, h]
      by_cases hodd : s.switches.length % 2 = 1
      · rw [decide_eq_true hodd, decide_eq_false (by omega)]
        rfl
      · rw [decide_eq_false hodd, decide_eq_true (by omega)]
        rfl
  | _ => exact h

/-- **Run lemma** for `Clocked`. -/
theorem clocked_of_reachable {s : Timed (Ticking n)}
    (h : Reachable (Timed.step (act hdr rt)) ⟨0, start rt⟩ s) : s.state.Clocked s.clock := by
  obtain ⟨ls, hls⟩ := h
  refine Timed.invariant (I := fun now t => Clocked now t)
    (fun _ _ _ hle hc => hc.later hle) ?_ (clocked_start rt) hls
  exact fun _ _ _ _ hc hact => hc.step (stepped_of_act hact)

/-- **Run lemma** for `Paced` and `Marked`. -/
theorem paced_run {ls : List (TimedEvent (TickerEvent n))} {s : Timed (Ticking n)}
    (hlate : rt = .async →
      Throughout (Timed.step (act hdr rt)) (Punctual late) ⟨0, start rt⟩ ls)
    (h : run (Timed.step (act hdr rt)) ⟨0, start rt⟩ ls = some s) :
    s.state.Paced rt late ∧ s.state.Marked := by
  have hpunctual : Throughout (Timed.step (act hdr rt)) (fun u => rt = .async → Punctual late u)
      ⟨0, start rt⟩ ls :=
    fun before after hb u hu hrt => hlate hrt before after hb u hu
  -- that the rounds are due in time is known of every reachable state, so the induction may use it
  have hclocked : Throughout (Timed.step (act hdr rt)) (fun u => u.state.Clocked u.clock)
      ⟨0, start rt⟩ ls := throughout_of_reachable (fun _ hu => clocked_of_reachable hu) ls
  refine run_invariant_throughout (I := fun u : Timed (Ticking n) =>
      u.state.Paced rt late ∧ u.state.Marked) ?_ ls ⟨0, start rt⟩ s
    ⟨paced_start rt late, rfl⟩ (hpunctual.and hclocked) h
  intro u e u' ⟨hpaced, hmarked⟩ ⟨hu, hc⟩ _ he
  cases e with
  | elapse ns =>
    rw [Timed.step_elapse he]
    exact ⟨hpaced, hmarked⟩
  | act k =>
    have hstep := stepped_of_act (Timed.step_act he).2
    exact ⟨hpaced.step hc (fun hrt due hdue => hu hrt due hdue) hstep, hmarked.step hstep⟩

/-- **The mode does not flap**, in every run of the ticker and the workers.  Two changes of the mode
    are ten periods apart, however the threads are scheduled; a tick of the interval may be late,
    and then they are closer by that much at most.  The mode is degraded after an odd number of
    changes, and the first takes ten ticks.

    `Paced` relates the dwell counter to the time since the last change, and a change asks for a
    full counter. -/
theorem switches_apart (hdr : Hdr) (rt : Runtime) (n late : Nat)
    (ls : List (TimedEvent (TickerEvent n))) (s : Timed (Ticking n))
    (h : run (Timed.step (act hdr rt)) ⟨0, start rt⟩ ls = some s)
    (hlate : rt = .async →
      Throughout (Timed.step (act hdr rt)) (Punctual late) ⟨0, start rt⟩ ls) :
    (s.state.switches.Pairwise fun a b =>
        a + dwellTicks.toNat * tickPeriodNs ≤ b + rt.slop late) ∧
      (∀ b ∈ s.state.switches, dwellTicks.toNat * tickPeriodNs ≤ b + rt.head) ∧
      s.state.isDegraded = decide (s.state.switches.length % 2 = 1) := by
  obtain ⟨hpaced, hmarked⟩ := paced_run hlate h
  exact ⟨hpaced.apart, hpaced.settled, hmarked⟩

/-- The p99 of fewer than a hundred samples is the greatest. -/
def fewHdr : Hdr :=
  { Hdr.program with
    valueAtQuantile := fun h _ => highestEquivalent (h.samples.max?.getD 0) }

/-- A second with one sample of five milliseconds, and the tick of the interval at its start. -/
def slowSecond : List (TimedEvent (TickerEvent 1)) :=
  List.replicate 8 (.act .turn) ++ [.act (.pick 0), .act (.put 0 5000000), .elapse tickPeriodNs]

/-- Ten slow seconds, and the tick that sees the last of them. -/
theorem switches_apart_slow :
    let step := Timed.step (act (n := 1) fewHdr .async)
    ∃ s, run step ⟨0, start .async⟩ (List.replicate 11 slowSecond).flatten = some s ∧
      s.state.switches = [10000000000] ∧
      s.state.isDegraded = decide (s.state.switches.length % 2 = 1) := by
  intro step
  obtain ⟨s, hs, hstate⟩ := Option.map_eq_some_iff.mp
    (show (run step ⟨0, start .async⟩ (List.replicate 11 slowSecond).flatten).map
      (fun s => s.state.switches) = some [10000000000] from by decide +kernel)
  obtain ⟨_, _, hmode⟩ :=
    switches_apart fewHdr .async 1 0 _ s hs fun _ => by decide +kernel
  exact ⟨s, hs, hstate, hmode⟩

/-! ## The way back to normal mode

Samples may be written into a bucket that has been rotated meanwhile, and so a slow sample picked
before the quiet time may show up in it.  `Calming` counts the rounds, and the buckets that have
been cleared in them. -/

/-- Nothing in the histogram is reported at `RECOVER_NS` or above. -/
def Fast (hdr : Hdr) (h : Histogram) : Prop := ∀ v ∈ h.samples, hdr.reported v < recoverNs

/-- The samples recorded are reported below `RECOVER_NS`. -/
def FastPuts (hdr : Hdr) (ls : List (TimedEvent (TickerEvent n))) : Prop :=
  ∀ i j, .act (.put i j) ∈ ls → sampleOf j ≤ hdr.high → hdr.reported (sampleOf j) < recoverNs

theorem Fast.record {h : Histogram} (hf : Fast hdr h) {j : Nat}
    (hj : sampleOf j ≤ hdr.high → hdr.reported (sampleOf j) < recoverNs) :
    Fast hdr (h.record hdr.high (sampleOf j)) := by
  intro v hv
  rcases Histogram.mem_record hv with hv | ⟨rfl, hhigh⟩
  · exact hf v hv
  · exact hj hhigh

theorem Fast.add {h other : Histogram} (hf : Fast hdr h) (hf' : Fast hdr other) :
    Fast hdr (h.add other) := by
  intro v hv
  exact (List.mem_append.mp hv).elim (hf v) (hf' v)

theorem Fast.p99Of (hr : hdr.Reports) {merged : Histogram} (h : Fast hdr merged) :
    hdr.p99Of merged < recoverNs := by
  unfold Hdr.p99Of
  split
  · decide
  · rename_i hne
    obtain ⟨v, hv, heq⟩ := hr merged .p99 fun he => hne (by rw [Histogram.isEmpty, he]; rfl)
    rw [heq]
    exact h v hv

/-- `k` times the window was advanced, with fast samples only.  The newest `k` buckets are clear of
    slow ones; from the fifth time on all are, and every tick is a step towards normal mode.  The
    ticker is on its way there, up to `limit`.

    `merging` is there because a tick looks at the buckets one by one: what it has merged so far
    must be fast too.  `settling` reads the counter against `k`: in degraded mode the rounds behind
    the fifth are all counted, so the mode is left before there are ten of them.  `timely` turns
    rounds into time, a period and a delay for each. -/
structure Calming (hdr : Hdr) (late limit k : Nat) (s : Ticking n) : Prop where
  newest : Newest (Fast hdr) s.controller.rolling.buckets s.controller.rolling.idx k
  merging : ∀ due woke rest merged, s.phase = .merging due woke rest merged → ringLen ≤ k →
    Fast hdr merged
  settling : s.isDegraded = false ∨ k < ringLen + s.phase.advanced + s.dwelt
  timely : ∀ due, s.phase.due? = some due →
    due + late + (ringLen + dwellTicks.toNat - 1 + s.phase.advanced) * (tickPeriodNs + late) ≤
      limit + (k + 1) * (tickPeriodNs + late)

/-- The bound from where the ticker stands.  In the middle of a round the next date is not fixed
    yet, but the one before it has come. -/
theorem calming_start (h : s.Clocked clock) :
    Calming hdr late
      (clock + late + (ringLen + dwellTicks.toNat - 1) * (tickPeriodNs + late)) 0 s where
  newest i hi := absurd hi (Nat.not_lt_zero _)
  merging _ _ _ _ _ hk := absurd hk (by decide)
  settling := Or.inr (by
    show 0 < 5 + _ + _
    omega)
  timely due hdue := by
    have hwaits := h.waits due hdue
    have hround : s.phase.advanced = 0 ∨ s.phase.advanced = 1 ∧ due ≤ clock := by
      cases hp : s.phase with
      | merging d w rest merged =>
        rw [hp] at hdue
        obtain ⟨hdw, hwc⟩ := h.woken d w (by rw [hp]; rfl) (by rw [hp]; rfl)
        obtain rfl := Option.some.inj hdue
        exact Or.inr ⟨rfl, Nat.le_trans hdw hwc⟩
      | _ => exact Or.inl rfl
    rw [Nat.zero_add, Nat.one_mul]
    rcases hround with hadv | ⟨hadv, hdc⟩
    · rw [hadv, Nat.add_zero]
      omega
    · rw [hadv, Nat.succ_mul]
      omega

/-- The ticker moves on within its round, or leaves. -/
theorem Calming.move {limit k : Nat} (h : s.Calming hdr late limit k) {t : Ticking n}
    (hcontroller : t.controller = s.controller)
    (hadvanced : t.phase.advanced = s.phase.advanced)
    (hmerging : ∀ due woke rest merged, t.phase = .merging due woke rest merged →
      s.phase = .merging due woke rest merged)
    (hdue : ∀ due, t.phase.due? = some due → s.phase.due? = some due) :
    t.Calming hdr late limit k where
  newest := hcontroller ▸ h.newest
  merging due woke rest merged ht hk :=
    h.merging due woke rest merged (hmerging due woke rest merged ht) hk
  settling := by
    rw [hadvanced, isDegraded, dwelt, hcontroller]
    exact h.settling
  timely due ht := by
    rw [hadvanced]
    exact h.timely due (hdue due ht)

/-- **Step lemma** for `Calming`. -/
theorem Calming.step (hr : hdr.Reports) {limit k : Nat} (h : s.Calming hdr late limit k)
    (hclocked : s.Clocked clock) (hlate : ∀ due, s.phase.due? = some due → clock ≤ due + late)
    (hput : ∀ i j, e = .put i j → sampleOf j ≤ hdr.high → hdr.reported (sampleOf j) < recoverNs)
    (hs : Stepped hdr rt clock s e s') : ∃ k', s'.Calming hdr late limit k' := by
  cases hs with
  | cancel => exact ⟨k, h.move rfl rfl (fun _ _ _ _ hp => hp) fun _ hd => hd⟩
  | pick i => exact ⟨k, h.move rfl rfl (fun _ _ _ _ hp => hp) fun _ hd => hd⟩
  -- a sample is fast whatever bucket it is put into
  | put i j b =>
    refine ⟨k, ?_, h.merging, h.settling, h.timely⟩
    exact h.newest.update fun hf => hf.record (hput i j rfl)
  | wake due phase at_ passed next =>
    refine ⟨k, h.move rfl ?_ (fun _ _ _ _ hp => ?_) fun d hd => ?_⟩
    · rw [at_]
      rcases next with rfl | rfl <;> rfl
    · rcases next with rfl | rfl <;> cases hp
    · rw [at_]
      rcases next with rfl | rfl <;> exact hd
  | look due woke at_ =>
    refine ⟨k, h.move rfl ?_ (fun _ _ _ _ hp => ?_) fun d hd => ?_⟩
    · rw [at_]
      rfl
    · cases hp
    · rw [at_]
      exact hd
  | leave outside set =>
    refine ⟨k, h.move rfl outside.symm (fun _ _ _ _ hp => ?_) fun d hd => ?_⟩
    · cases hp
    · cases hd
  -- one more bucket is clear, and one more round is used up
  | advance due woke at_ =>
    have hempty : Fast hdr .empty := fun v hv => absurd hv List.not_mem_nil
    refine ⟨k + 1, h.newest.rotate hempty, fun d w rest merged hp _ => ?_, ?_, fun d hd => ?_⟩
    · obtain ⟨_, _, _, rfl⟩ := TickerPhase.merging.inj hp
      exact hempty
    · refine h.settling.imp_right fun hlt => ?_
      rw [at_] at hlt
      show k + 1 < ringLen + 1 + s.dwelt
      have hlt : k < ringLen + 0 + s.dwelt := hlt
      omega
    · have htimely := h.timely d (by rw [at_]; exact hd)
      rw [at_] at htimely
      have htimely : d + late + (ringLen + dwellTicks.toNat - 1) * (tickPeriodNs + late) ≤
          limit + (k + 1) * (tickPeriodNs + late) := htimely
      show d + late + (ringLen + dwellTicks.toNat - 1 + 1) * (tickPeriodNs + late) ≤
        limit + (k + 1 + 1) * (tickPeriodNs + late)
      rw [Nat.succ_mul, Nat.succ_mul (k + 1)]
      omega
  -- once all buckets are clear, so is what has been merged of them
  | merge due woke i rest merged at_ =>
    refine ⟨k, h.newest, fun d w r m hp hk => ?_, ?_, fun d hd => ?_⟩
    · obtain ⟨_, _, _, rfl⟩ := TickerPhase.merging.inj hp
      exact (h.merging due woke _ merged at_ hk).add (h.newest.all hk i)
    · have hsettling := h.settling
      rw [at_] at hsettling
      exact hsettling
    · have htimely := h.timely d (by rw [at_]; exact hd)
      rw [at_] at htimely
      exact htimely
  -- the tick itself: with a clear p99 it counts, and the next round is due within a period
  | evaluate due woke merged at_ =>
    have hdue : s.phase.due? = some due := by rw [at_]; rfl
    obtain ⟨hdw, hwc⟩ := hclocked.woken due woke hdue (by rw [at_]; rfl)
    refine ⟨k, h.newest, fun _ _ _ _ hp _ => (by cases hp), ?_, fun d hd => ?_⟩
    · by_cases hk : ringLen ≤ k
      · -- all buckets were clear when the merging began
        have hp99 := (h.merging due woke [] merged at_ hk).p99Of hr
        have hsettling := h.settling
        rw [at_] at hsettling
        rcases s.controller.hysteresis.evaluate_fast hp99 with hoff | ⟨hon, hcount⟩
        · exact Or.inl hoff
        · rcases hsettling with hnormal | hlt
          · exact absurd (hon.symm.trans hnormal) (by decide)
          · refine Or.inr ?_
            have hlt : k < ringLen + 1 + s.controller.hysteresis.dwellCounter.toNat := hlt
            show k < ringLen + 0 + (s.controller.hysteresis.evaluate _).dwellCounter.toNat
            rw [hcount]
            omega
      · refine Or.inr ?_
        show k < ringLen + 0 + _
        omega
    · have htimely := h.timely due hdue
      rw [at_] at htimely
      have htimely : due + late + (ringLen + dwellTicks.toNat - 1 + 1) * (tickPeriodNs + late) ≤
          limit + (k + 1) * (tickPeriodNs + late) := htimely
      have hnext := (rt.nextRound_bounds hdw hwc).2
      have hround := hlate due hdue
      obtain rfl := Option.some.inj hd
      show rt.nextRound due woke clock + late +
          (ringLen + dwellTicks.toNat - 1) * (tickPeriodNs + late) ≤
        limit + (k + 1) * (tickPeriodNs + late)
      rw [Nat.succ_mul (ringLen + dwellTicks.toNat - 1)] at htimely
      omega

/-- **The recovery takes fourteen seconds**: from any state a run has come to, with samples below
    `RECOVER_NS` only and a ticker that is never more than `late` behind, the pipeline is back in
    normal mode after fourteen periods and fifteen such delays, and stays there.  A worker may
    record while a tick is made, also into a bucket that is not current any more.

    `Calming` from the state reached: five advances clear the buckets, and nine more rounds after
    the first clear one fill the counter, each a period and a delay long. -/
theorem recovers_in_time (hdr : Hdr) (hr : hdr.Reports) (rt : Runtime) (n late : Nat)
    (ls : List (TimedEvent (TickerEvent n))) (s : Timed (Ticking n))
    (h : run (Timed.step (act hdr rt)) ⟨0, start rt⟩ ls = some s)
    (ms : List (TimedEvent (TickerEvent n))) (s' : Timed (Ticking n))
    (hms : run (Timed.step (act hdr rt)) s ms = some s')
    (hprompt : Throughout (Timed.step (act hdr rt)) (Punctual late) s ms)
    (hfast : FastPuts hdr ms) (hrunning : s'.state.cancel = false)
    (hlong : s.clock + 14 * tickPeriodNs + 15 * late < s'.clock) :
    s'.state.isDegraded = false := by
  have hreach : Reachable (Timed.step (act hdr rt)) ⟨0, start rt⟩ s := ⟨ls, h⟩
  have hstart := clocked_of_reachable hreach
  -- every step is punctual and records fast samples
  let Q : Timed (Ticking n) → TimedEvent (TickerEvent n) → Prop := fun u l =>
    Punctual late u ∧ ∀ i j, l = .act (.put i j) → sampleOf j ≤ hdr.high →
      hdr.reported (sampleOf j) < recoverNs
  have hsteps : Along (Timed.step (act hdr rt)) Q s ms := by
    intro pre l post hsplit u hu
    refine ⟨hprompt pre (l :: post) hsplit u hu, fun i j hl => hfast i j ?_⟩
    rw [hsplit, ← hl]
    exact List.mem_append_right _ List.mem_cons_self
  obtain ⟨hclocked, k, hcalming⟩ : s'.state.Clocked s'.clock ∧
      ∃ k, s'.state.Calming hdr late
        (s.clock + late + (ringLen + dwellTicks.toNat - 1) * (tickPeriodNs + late)) k := by
    refine run_invariant_along (Q := Q) (I := fun u : Timed (Ticking n) =>
        u.state.Clocked u.clock ∧ ∃ k, u.state.Calming hdr late
          (s.clock + late + (ringLen + dwellTicks.toNat - 1) * (tickPeriodNs + late)) k)
      ?_ ms s s' ⟨hstart, 0, calming_start hstart⟩ hsteps hms
    intro u e u' ⟨hc, k, hk⟩ ⟨hu, hput⟩ he
    cases e with
    | elapse ns =>
      rw [Timed.step_elapse he]
      exact ⟨hc.later (Nat.le_add_right _ _), k, hk⟩
    | act a =>
      obtain ⟨hclock, hact⟩ := Timed.step_act he
      have hstep := stepped_of_act hact
      rw [hclock]
      refine ⟨hc.step hstep, hk.step hr hc (fun due hdue => hu due hdue) (fun i j ha => ?_) hstep⟩
      exact hput i j (congrArg TimedEvent.act ha)
  -- the ticker has a round before it, and it is due after the bound
  have hround : ∃ due, s'.state.phase.due? = some due := by
    cases hp : s'.state.phase with
    | finished => exact absurd ((hclocked.left hp).symm.trans hrunning) (by decide)
    | _ => exact ⟨_, rfl⟩
  obtain ⟨due, hdue⟩ := hround
  have hend : Punctual late s' := hprompt ms [] (List.append_nil _).symm s' hms
  have hpunctual : s'.clock ≤ due + late := hend due hdue
  have htimely := hcalming.timely due hdue
  have hbound : s.clock + late + (ringLen + dwellTicks.toNat - 1) * (tickPeriodNs + late) =
      s.clock + 14 * tickPeriodNs + 15 * late := by
    show s.clock + late + 14 * (tickPeriodNs + late) = _
    omega
  have hk : ringLen + dwellTicks.toNat - 1 + s'.state.phase.advanced < k + 1 := by
    by_contra hle
    have := Nat.mul_le_mul_right (tickPeriodNs + late) (Nat.not_lt.mp hle)
    omega
  rcases hcalming.settling with hnormal | hlt
  · exact hnormal
  · have hcounter : s'.state.dwelt < dwellTicks.toNat := Hysteresis.dwellCounter_lt _
    omega

theorem fewHdr_reports : fewHdr.Reports := by
  intro h q hne
  have : Std.MaxEqOr UInt64 := ⟨fun a b => by
    show (if a ≤ b then b else a) = a ∨ (if a ≤ b then b else a) = b
    split
    · exact Or.inr rfl
    · exact Or.inl rfl⟩
  cases hmax : h.samples.max? with
  | none => exact absurd (List.max?_eq_none_iff.mp hmax) hne
  | some v =>
    refine ⟨v, List.max?_mem hmax, ?_⟩
    show highestEquivalent (h.samples.max?.getD 0) = highestEquivalent v
    rw [hmax, Option.getD_some]

/-- The eleven slow seconds, and fifteen with a sample of a microsecond. -/
theorem recovers_in_time_quiet :
    let step := Timed.step (act (n := 1) fewHdr .async)
    let quiet : List (TimedEvent (TickerEvent 1)) :=
      List.replicate 8 (.act .turn) ++ [.act (.pick 0), .act (.put 0 1000), .elapse tickPeriodNs]
    ∃ s s', run step ⟨0, start .async⟩ (List.replicate 11 slowSecond).flatten = some s ∧
      run step s (List.replicate 15 quiet).flatten = some s' ∧
      s.state.isDegraded = true ∧ s'.state.isDegraded = false := by
  intro step quiet
  obtain ⟨s, hs, hstate⟩ := Option.map_eq_some_iff.mp
    (show (run step ⟨0, start .async⟩ (List.replicate 11 slowSecond).flatten).map
      (fun s => (s.state.isDegraded, decide (s.clock = 11000000000 ∧
        Throughout step (Punctual 0) s (List.replicate 15 quiet).flatten),
        (run step s (List.replicate 15 quiet).flatten).map fun s' =>
          (s'.clock, s'.state.cancel))) = some (true, true, some (26000000000, false)) from by
      decide +kernel)
  obtain ⟨hdegraded, hrest⟩ := Prod.mk.inj hstate
  obtain ⟨hcond, hend⟩ := Prod.mk.inj hrest
  obtain ⟨hclock, hprompt⟩ := of_decide_eq_true hcond
  obtain ⟨s', hs', hstate'⟩ := Option.map_eq_some_iff.mp hend
  obtain ⟨hclock', hrunning⟩ := Prod.mk.inj hstate'
  refine ⟨s, s', hs, hs', hdegraded, ?_⟩
  refine recovers_in_time fewHdr fewHdr_reports .async 1 0 _ s hs _ s' hs' hprompt ?_ hrunning
    (by rw [hclock, hclock']; decide)
  intro i j hj _
  obtain ⟨_, rfl⟩ : i = 0 ∧ j = 1000 := by simpa [quiet] using hj
  decide

end Ticking

end RtsPipeline
