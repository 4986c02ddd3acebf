/-
  `rts-async/src/ingest.rs`: the async ingest, its frame loop and its reconnects.

  The upstream is a list of connection attempts, each failed, refused by its status, or opened with
  the frames that `eventsource_stream` makes of its bytes before they end; `run_sse` consumes them
  one after the other.  Each `select!` is biased towards the cancel token, so it is a load of the
  token: set, the token's branch is taken, and otherwise the other one once it is ready.  Counters
  are `Nat` and the nominal back-off is kept in milliseconds; the random factor applied to it, and
  the log lines, are left out.

  The limit is compared after each call.  From a count below the limit a call can only come to it or
  stay below, so as long as the limit is positive the loop stops at it exactly (`Running`, `Fair`).
  A limit of 0 is passed by the first call already; `limitReached` holds for every count then, and
  the loop stops after one call too many.  So with the limit 0 everything depends on whether the
  token is set before the first payload, and `firstPayload` counts the loads of the token up to
  there: every frame that is no payload, every connection without one, and the loads around the
  attempts.

  1. `readFrames`, `runLoop`, `runSse` — the code.
  2. `Running` — the invariant while a positive limit, or none, is not reached.
  3. `firstPayload` — where the limit 0 goes wrong: it is looked at only after a call.
  4. `runSse_truthful_iff` — both.
-/
import Mathlib.Algebra.GroupWithZero.Nat
import RtsPipeline.Core.Ingest

namespace RtsPipeline.Async

open Lib

/-- `IngestOutcome`. -/
inductive IngestOutcome
  | limitReached (delivered : Nat)
  | cancelled
deriving DecidableEq, Repr

/-- `IngestError`. -/
inductive IngestError
  | invalidUrl
  | clientBuild
deriving DecidableEq, Repr

/-- One item of the frame stream: the data of an event, or a framing or decoding error. -/
inductive Frame
  | event (data : Text)
  | error
deriving DecidableEq, Repr

/-- One connection attempt. -/
inductive Conn
  | sendError
  | badStatus
  | success (frames : List Frame)
deriving DecidableEq, Repr

/-- The variables of `run_sse`, with what the sink was given and the nominal delays slept. -/
structure Ingest where
  cancel : Flag
  delivered : Nat
  backoff : Nat
  consecutiveFailures : Nat
  calls : List Text
  slept : List Nat
deriving DecidableEq, Repr

/-- `INITIAL_BACKOFF`. -/
def initialBackoff : Nat := 200

/-- `MAX_BACKOFF`. -/
def maxBackoff : Nat := 30000

namespace Ingest

/-- The start of `run_sse`. -/
def start (cancel : Flag) : Ingest :=
  { cancel := cancel, delivered := 0, backoff := initialBackoff, consecutiveFailures := 0
    calls := [], slept := [] }

/-- After `k` loads of the cancel token. -/
def loaded (s : Ingest) (k : Nat) : Ingest := { s with cancel := s.cancel.after k }

/-- After one call of the sink. -/
def deliver (s : Ingest) (data : Text) : Ingest :=
  { s with calls := s.calls ++ [data], delivered := s.delivered + 1 }

/-- A success status resets the back-off. -/
def established (s : Ingest) : Ingest :=
  { s with consecutiveFailures := 0, backoff := initialBackoff }

/-- `sleep_with_jitter` after one more failure; its `select!` loads the token once. -/
def failed (s : Ingest) : Ingest :=
  { s with
    consecutiveFailures := min (s.consecutiveFailures + 1) (2 ^ 32 - 1)
    slept := s.slept ++ [s.backoff]
    backoff := min (s.backoff * 2) maxBackoff
    cancel := s.cancel.next }

end Ingest

/-- The loop over `stream.next()`; `none` when the stream has ended. -/
def readFrames (limit : Option Nat) (s : Ingest) (frames : List Frame) :
    Option IngestOutcome × Ingest :=
  if s.cancel.isSet then (some .cancelled, s.loaded 1)
  else
    match frames with
    | [] => (none, s.loaded 1)
    | .error :: frames => readFrames limit (s.loaded 1) frames
    | .event data :: frames =>
      if data = [] then readFrames limit (s.loaded 1) frames      -- a heartbeat
      else
        let t := (s.loaded 1).deliver data
        -- the limit is looked at only after the call
        if limitReached limit t.delivered then (some (.limitReached t.delivered), t)
        else readFrames limit t frames

/-- One connection attempt; `none` when it failed or its stream has ended. -/
def attempt (limit : Option Nat) (s : Ingest) : Conn → Option IngestOutcome × Ingest
  | .sendError => (none, s)
  | .badStatus => (none, s)
  | .success frames => readFrames limit s.established frames

/-- The loop of `run_sse`; `none` while it waits for a connection after the last one listed. -/
def runLoop (limit : Option Nat) (s : Ingest) (conns : List Conn) :
    Option IngestOutcome × Ingest :=
  if s.cancel.isSet then (some .cancelled, s.loaded 1)
  else if (s.loaded 1).cancel.isSet then (some .cancelled, (s.loaded 1).loaded 1)
  else
    -- the `select!` on `req.send()` was the second load
    match conns with
    | [] => (none, s.loaded 2)
    | conn :: conns =>
      match attempt limit (s.loaded 2) conn with
      | (some outcome, t) => (some outcome, t)
      | (none, t) =>
        -- sleep, then look at the token once more
        if t.failed.cancel.isSet then (some .cancelled, t.failed.loaded 1)
        else runLoop limit (t.failed.loaded 1) conns

/-- `run_sse`.  `client` is what the client's builder returns. -/
def runSse (client : Except IngestError Unit) (limit : Option Nat) (s : Ingest)
    (conns : List Conn) : Option (Except IngestError IngestOutcome) × Ingest :=
  match client with
  | .error e => (some (.error e), s)
  | .ok () => (runLoop limit s conns).map (Option.map .ok) id

/-- The reason for an outcome. -/
def IngestOutcome.reason : IngestOutcome → Reason
  | limitReached _ => .limit
  | cancelled => .cancelled

/-- The reason reported. -/
def reported : Option (Except IngestError IngestOutcome) → Option Reason
  | some (.ok outcome) => some outcome.reason
  | _ => none

/-! ## Below a positive limit

As long as the count is below the limit, one call of the sink reaches it exactly or stays below it.
That is the whole reason why a positive limit is kept, and `Running` is the sentence that is handed
from a frame to the next one, from a stream to the attempt and from there to the loop. -/

/-- The count is the number of calls and has not reached the limit.  At the start that asks for a
    positive limit. -/
structure Running (limit : Option Nat) (s : Ingest) : Prop where
  calls : s.delivered = s.calls.length
  below : ∀ n, limit = some n → s.delivered < n

theorem Running.loaded {limit : Option Nat} {s : Ingest} (h : Running limit s) (k : Nat) :
    Running limit (s.loaded k) := ⟨h.calls, h.below⟩

theorem Running.established {limit : Option Nat} {s : Ingest} (h : Running limit s) :
    Running limit s.established := ⟨h.calls, h.below⟩

theorem Running.failed {limit : Option Nat} {s : Ingest} (h : Running limit s) :
    Running limit s.failed := ⟨h.calls, h.below⟩

/-- What `run_sse` has made of the upstream so far: it runs on, or its outcome is so.  A state and
    an outcome at once, so that the lemma about frames, that about an attempt and that about the
    loop have the same conclusion. -/
def Fair (limit : Option Nat) : Option IngestOutcome × Ingest → Prop
  | (none, s) => Running limit s
  | (some .cancelled, s) => Running limit s ∧ s.cancel.isSet = true
  | (some (.limitReached delivered), s) => delivered = s.calls.length ∧ limit = some delivered

theorem fair_cancelled {limit : Option Nat} {s : Ingest} (h : Running limit s)
    (hset : s.cancel.isSet = true) : Fair limit (some .cancelled, s.loaded 1) :=
  ⟨h.loaded 1, Flag.isSet_next hset⟩

/-- **Step lemma**: one call below the limit reaches it exactly, or stays below. -/
theorem Running.deliver {limit : Option Nat} {s : Ingest} (h : Running limit s) (data : Text) :
    if limitReached limit (s.deliver data).delivered then
      Fair limit (some (.limitReached (s.deliver data).delivered), s.deliver data)
    else Running limit (s.deliver data) := by
  have hcalls : (s.deliver data).delivered = (s.deliver data).calls.length := by
    show s.delivered + 1 = (s.calls ++ [data]).length
    rw [List.length_append, h.calls]
    rfl
  split
  · rename_i hlim
    obtain ⟨n, hn, hle⟩ := limitReached_iff.mp hlim
    -- one call at a time: the limit cannot be overshot
    have hlt : s.delivered < n := h.below n hn
    have hn' : (s.deliver data).delivered = n := Nat.le_antisymm hlt hle
    exact ⟨hcalls, by rw [hn, hn']⟩
  · rename_i hlim
    exact ⟨hcalls, limitReached_eq_false.mp (Bool.not_eq_true _ ▸ hlim)⟩

theorem Running.readFrames {limit : Option Nat} :
    ∀ (frames : List Frame) (s : Ingest), Running limit s →
    Fair limit (readFrames limit s frames) := by
  intro frames
  -- induction on the frames; before each, and at the end, the flag is loaded once
  induction frames with
  | nil =>
    intro s h
    rw [Async.readFrames]
    split
    · rename_i hset
      exact fair_cancelled h hset
    · exact h.loaded 1
  | cons frame frames ih =>
    intro s h
    cases frame with
    | error =>
      rw [Async.readFrames]
      split
      · rename_i hset
        exact fair_cancelled h hset
      -- an empty payload and an error are passed over, and the loop goes on as it was
      · exact ih _ (h.loaded 1)
    | event data =>
      rw [Async.readFrames]
      split
      · rename_i hset
        exact fair_cancelled h hset
      · split
        · exact ih _ (h.loaded 1)
        -- a call of the sink, and then the limit is tested
        · have hd := (h.loaded 1).deliver data
          simp only
          split
          · rename_i hlim
            rw [if_pos hlim] at hd
            exact hd
          · rename_i hlim
            rw [if_neg hlim] at hd
            exact ih _ hd

theorem Running.attempt {limit : Option Nat} {s : Ingest} (h : Running limit s) (conn : Conn) :
    Fair limit (attempt limit s conn) := by
  cases conn with
  | sendError => exact h
  | badStatus => exact h
  | success frames => exact h.established.readFrames frames _

/-- **Run lemma**: over all reconnects the outcome is so. -/
theorem Running.runLoop {limit : Option Nat} :
    ∀ (conns : List Conn) (s : Ingest), Running limit s → Fair limit (runLoop limit s conns) := by
  intro conns
  -- induction on the connections: two loads before an attempt, and one after a failed one
  induction conns with
  | nil =>
    intro s h
    rw [Async.runLoop]
    split
    · rename_i hset
      exact fair_cancelled h hset
    · split
      · rename_i hset
        exact fair_cancelled (h.loaded 1) hset
      · exact h.loaded 2
  | cons conn conns ih =>
    intro s h
    have hattempt := (h.loaded 2).attempt conn
    rw [Async.runLoop]
    split
    · rename_i hset
      exact fair_cancelled h hset
    · split
      · rename_i hset
        exact fair_cancelled (h.loaded 1) hset
      · generalize Async.attempt limit (s.loaded 2) conn = r at hattempt
        obtain ⟨outcome, t⟩ := r
        cases outcome with
        | some outcome => exact hattempt
        | none =>
          have hfailed : Running limit t.failed := Running.failed hattempt
          simp only
          split
          · rename_i hset
            exact fair_cancelled hfailed hset
          · exact ih _ (hfailed.loaded 1)

/-- The calls and the outcome are truthful. -/
def Tells (limit : Option Nat) (r : Option IngestOutcome × Ingest) : Prop :=
  Truthful limit r.2.calls r.2.cancel.isSet (r.1.map IngestOutcome.reason)

/-- A fair outcome is a truthful one.  The report says the limit, which is the count, which is the
    number of calls. -/
theorem Fair.tells {limit : Option Nat} {r : Option IngestOutcome × Ingest} (h : Fair limit r) :
    Tells limit r := by
  obtain ⟨outcome, s⟩ := r
  cases outcome with
  | none =>
    have hrun : Running limit s := h
    refine ⟨fun n hn => ?_, fun he => (nomatch he), fun he => (nomatch he)⟩
    rw [← hrun.calls]
    exact Nat.le_of_lt (hrun.below n hn)
  | some outcome =>
    cases outcome with
    | cancelled =>
      obtain ⟨hrun, hset⟩ := h
      refine ⟨fun n hn => ?_, fun he => (nomatch he), fun _ => hset⟩
      show s.calls.length ≤ n
      rw [← hrun.calls]
      exact Nat.le_of_lt (hrun.below n hn)
    | limitReached delivered =>
      obtain ⟨hcalls, hlim⟩ := h
      refine ⟨fun n hn => ?_, fun _ => by rw [hlim, hcalls], fun he => nomatch he⟩
      show s.calls.length ≤ n
      rw [← hcalls]
      exact Nat.le_of_eq (Option.some.inj (hlim.symm.trans hn))

/-! ## What a connection holds

What an upstream would hand over and how often it would load the token, read off the list of its
frames.  The statements are in these terms, so that they can be evaluated without a run of the
loop. -/

/-- What the sink is given for a frame. -/
def Frame.payload? : Frame → Option Text
  | event data => if data = [] then none else some data
  | error => none

/-- The payloads of a connection. -/
def Conn.payloads : Conn → List Text
  | success frames => frames.filterMap Frame.payload?
  | _ => []

/-- How often reading a connection to its end loads the token: once for each item and its end. -/
def Conn.loads : Conn → Nat
  | sendError => 0
  | badStatus => 0
  | success frames => frames.length + 1

/-! ## The limit 0

  A number of loads of the token is a point in time here: the token is set within so many loads, or
  it is not.  The lemmas below go through frames, attempts and the loop once more, and say at each
  level whether the token or a payload comes first. -/

/-- The loads of the token until the first payload of a frame stream is handed over. -/
def firstEvent : List Frame → Option Nat
  | [] => none
  | .error :: frames => (firstEvent frames).map (· + 1)
  | .event data :: frames => if data = [] then (firstEvent frames).map (· + 1) else some 1

/-- The same for one attempt, once it is answered. -/
def Conn.first : Conn → Option Nat
  | sendError => none
  | badStatus => none
  | success frames => firstEvent frames

/-- The loads of the token until the first payload of an upstream is handed over; `none` if it has
    none.  Two loads come before each attempt and two after a connection is lost. -/
def firstPayload : List Conn → Option Nat
  | [] => none
  | conn :: conns =>
    match conn.first with
    | some k => some (k + 2)
    | none => (firstPayload conns).map (· + (conn.loads + 4))

/-- With the limit 0, what becomes of a state without calls when a payload would be handed over
    after `first` loads, or none at all in `loads` loads. -/
inductive ZeroSpec (cancel : Flag) (first : Option Nat) (loads : Nat) :
    Option IngestOutcome × Ingest → Prop
  | cancelled (t : Ingest) (within : cancel.SetWithin (first.getD loads)) (calls : t.calls = [])
      (set : t.cancel.isSet = true) : ZeroSpec cancel first loads (some .cancelled, t)
  | lost (t : Ingest) (silent : first = none) (quiet : ¬ cancel.SetWithin loads)
      (calls : t.calls = []) (after : t.cancel = cancel.after loads) :
      ZeroSpec cancel first loads (none, t)
  | delivered (k : Nat) (outcome : IngestOutcome) (t : Ingest) (payload : first = some k)
      (quiet : ¬ cancel.SetWithin k) (calls : t.calls ≠ []) :
      ZeroSpec cancel first loads (some outcome, t)

/-- One quiet load before.  It shifts every later load by one. -/
theorem ZeroSpec.load {cancel : Flag} {first : Option Nat} {loads : Nat}
    {r : Option IngestOutcome × Ingest} (hset : ¬ cancel.isSet = true)
    (h : ZeroSpec cancel.next first loads r) :
    ZeroSpec cancel (first.map (· + 1)) (loads + 1) r := by
  have hload : ∀ k, cancel.SetWithin (k + 1) ↔ cancel.next.SetWithin k := fun k => by
    rw [Flag.setWithin_succ]
    exact or_iff_right hset
  cases h with
  | cancelled t within calls set =>
    refine .cancelled t ?_ calls set
    cases first with
    | none => exact (hload loads).mpr within
    | some k => exact (hload k).mpr within
  | lost t silent quiet calls after =>
    refine .lost t (by rw [silent]; rfl) (fun hw => quiet ((hload loads).mp hw)) calls ?_
    rw [after, Flag.next_after]
  | delivered k outcome t payload quiet calls =>
    exact .delivered (k + 1) outcome t (by rw [payload]; rfl)
      (fun hw => quiet ((hload k).mp hw)) calls

theorem zeroSpec_cancelled {s : Ingest} {first : Option Nat} {loads : Nat} (hcalls : s.calls = [])
    (hset : s.cancel.isSet = true) (hpos : 0 < first.getD loads) :
    ZeroSpec s.cancel first loads (some .cancelled, s.loaded 1) :=
  .cancelled _ ((Flag.setWithin_one.mpr hset).mono hpos) hcalls (Flag.isSet_next hset)

theorem firstEvent_pos {frames : List Frame} :
    0 < (firstEvent frames).getD (frames.length + 1) := by
  cases frames with
  | nil => exact Nat.one_pos
  | cons frame frames =>
    have hmap : ∀ n, 0 < ((firstEvent frames).map (· + 1)).getD (n + 1) := by
      intro n
      cases firstEvent frames <;> exact Nat.succ_pos _
    cases frame with
    | error => exact hmap _
    | event data =>
      rw [firstEvent]
      split
      · exact hmap _
      · exact Nat.one_pos

/-- A cancelled stream is left before its next frame is read. -/
theorem readFrames_set {limit : Option Nat} {s : Ingest} {frames : List Frame}
    (hset : s.cancel.isSet = true) : readFrames limit s frames = (some .cancelled, s.loaded 1) := by
  unfold readFrames
  rw [if_pos hset]

theorem readFrames_zero :
    ∀ (frames : List Frame) (s : Ingest), s.calls = [] →
    ZeroSpec s.cancel (firstEvent frames) (frames.length + 1) (readFrames (some 0) s frames) := by
  intro frames
  -- induction on the frames: until the first event nothing is handed over, and each frame is one
  -- more load at which the flag may be found set
  induction frames with
  | nil =>
    intro s hcalls
    by_cases hset : s.cancel.isSet = true
    · rw [readFrames_set hset]
      exact zeroSpec_cancelled hcalls hset firstEvent_pos
    · rw [readFrames, if_neg hset]
      exact .lost _ rfl (fun hw => hset (Flag.setWithin_one.mp hw)) hcalls rfl
  | cons frame frames ih =>
    intro s hcalls
    by_cases hset : s.cancel.isSet = true
    · rw [readFrames_set hset]
      exact zeroSpec_cancelled hcalls hset firstEvent_pos
    · cases frame with
      | error =>
        rw [readFrames, if_neg hset]
        exact ZeroSpec.load hset (ih (s.loaded 1) hcalls)
      | event data =>
        rw [readFrames, if_neg hset]
        by_cases hdata : data = []
        · rw [if_pos hdata, firstEvent, if_pos hdata]
          exact ZeroSpec.load hset (ih (s.loaded 1) hcalls)
        · -- the payload is handed over before the limit is looked at
          rw [if_neg hdata, firstEvent, if_neg hdata]
          have hlim : limitReached (some 0) ((s.loaded 1).deliver data).delivered = true :=
            limitReached_iff.mpr ⟨0, rfl, Nat.zero_le _⟩
          simp only [hlim, if_true]
          refine .delivered 1 _ _ rfl (fun hw => hset (Flag.setWithin_one.mp hw)) ?_
          show s.calls ++ [data] ≠ []
          simp

theorem attempt_zero {s : Ingest} (hcalls : s.calls = []) (conn : Conn) :
    ZeroSpec s.cancel conn.first conn.loads (attempt (some 0) s conn) := by
  cases conn with
  | sendError =>
    exact .lost s rfl (Flag.not_setWithin_zero _) hcalls (Flag.after_zero _).symm
  | badStatus =>
    exact .lost s rfl (Flag.not_setWithin_zero _) hcalls (Flag.after_zero _).symm
  | success frames => exact readFrames_zero frames s.established hcalls

theorem firstPayload_ge {conns : List Conn} {k : Nat} (h : firstPayload conns = some k) :
    2 ≤ k := by
  cases conns with
  | nil => exact nomatch h
  | cons conn conns =>
    rw [firstPayload] at h
    split at h
    · obtain rfl := Option.some.inj h
      exact Nat.le_add_left _ _
    · obtain ⟨j, _, rfl⟩ := Option.map_eq_some_iff.mp h
      omega

/-- Without calls the limit 0 is kept, whether ingest runs on or is cancelled. -/
theorem tells_zero {s : Ingest} {outcome : Option IngestOutcome} (h : s.calls = [])
    (ho : outcome = none ∨ outcome = some .cancelled ∧ s.cancel.isSet = true) :
    Tells (some 0) (outcome, s) := by
  have hbound : ∀ n, some 0 = some n → s.calls.length ≤ n := by
    intro n _
    rw [h]
    exact Nat.zero_le n
  rcases ho with rfl | ⟨rfl, hset⟩
  · exact ⟨hbound, fun he => (nomatch he), fun he => (nomatch he)⟩
  · exact ⟨hbound, fun he => (nomatch he), fun _ => hset⟩

theorem not_tells_zero {r : Option IngestOutcome × Ingest} (h : r.2.calls ≠ []) :
    ¬ Tells (some 0) r := by
  intro ht
  exact h (List.length_eq_zero_iff.mp (Nat.le_zero.mp (ht.bounded 0 rfl)))

/-- **The limit 0** is kept exactly when the token is set before the first payload. -/
theorem runLoop_zero_iff :
    ∀ (conns : List Conn) (s : Ingest), s.calls = [] →
    (Tells (some 0) (runLoop (some 0) s conns) ↔
      ∀ loads, firstPayload conns = some loads → s.cancel.SetWithin loads) := by
  intro conns
  induction conns with
  | nil =>
    intro s hcalls
    refine iff_of_true ?_ fun _ h => nomatch h
    rw [runLoop]
    split
    · rename_i hset
      exact tells_zero hcalls (Or.inr ⟨rfl, Flag.isSet_next hset⟩)
    · split
      · rename_i hset
        exact tells_zero hcalls (Or.inr ⟨rfl, Flag.isSet_next hset⟩)
      · exact tells_zero hcalls (Or.inl rfl)
  | cons conn conns ih =>
    intro s hcalls
    rw [runLoop]
    by_cases hset : s.cancel.isSet = true
    · rw [if_pos hset]
      refine iff_of_true (tells_zero hcalls (Or.inr ⟨rfl, Flag.isSet_next hset⟩)) fun loads hl => ?_
      exact (Flag.setWithin_one.mpr hset).mono (Nat.le_of_succ_le (firstPayload_ge hl))
    rw [if_neg hset]
    have htwo : s.cancel.SetWithin 2 ↔ (s.loaded 1).cancel.isSet = true := by
      rw [Flag.setWithin_succ, Flag.setWithin_one]
      exact or_iff_right hset
    by_cases hset1 : (s.loaded 1).cancel.isSet = true
    · rw [if_pos hset1]
      refine iff_of_true (tells_zero hcalls (Or.inr ⟨rfl, Flag.isSet_next hset1⟩)) ?_
      intro loads hl
      exact (htwo.mpr hset1).mono (firstPayload_ge hl)
    rw [if_neg hset1]
    -- the two loads before the attempt were quiet
    have hshift : ∀ k, s.cancel.SetWithin (k + 2) ↔ (s.cancel.after 2).SetWithin k := fun k => by
      rw [Nat.add_comm, Flag.setWithin_add]
      exact or_iff_right fun h => hset1 (htwo.mp h)
    have hattempt := attempt_zero (s := s.loaded 2) hcalls conn
    generalize attempt (some 0) (s.loaded 2) conn = r at hattempt
    rw [firstPayload]
    cases hattempt with
    | cancelled t within calls set =>
      -- cancelled before the payload of this connection, or in a connection without one
      refine iff_of_true (tells_zero calls (Or.inr ⟨rfl, set⟩)) fun loads hl => ?_
      have hwithin : s.cancel.SetWithin (conn.first.getD conn.loads + 2) := (hshift _).mpr within
      cases hfirst : conn.first with
      | some k =>
        rw [hfirst] at hl hwithin
        obtain rfl := Option.some.inj hl
        exact hwithin
      | none =>
        rw [hfirst] at hl hwithin
        obtain ⟨j, _, rfl⟩ := Option.map_eq_some_iff.mp hl
        exact hwithin.mono (by rw [Option.getD_none]; omega)
    | delivered k outcome t payload quiet calls =>
      -- handed over, and no load until then was set
      refine iff_of_false (not_tells_zero calls) fun h => quiet ((hshift k).mp (h _ ?_))
      rw [payload]
    | lost t silent quiet calls after =>
      rw [silent]
      simp only [Option.map_eq_some_iff]
      have hafter : t.failed.cancel = s.cancel.after (conn.loads + 3) := by
        show t.cancel.next = _
        rw [after, Flag.next, Ingest.loaded, Flag.after_after, Flag.after_after]
        congr 1
        omega
      -- the sleep's load and the check after it
      have hlost : s.cancel.SetWithin (conn.loads + 4) ↔ t.failed.cancel.isSet = true := by
        rw [hafter]
        exact Flag.setWithin_two_more fun h => quiet ((hshift _).mp h)
      by_cases hset' : t.failed.cancel.isSet = true
      · simp only [hset', if_true]
        refine iff_of_true (tells_zero calls (Or.inr ⟨rfl, Flag.isSet_next hset'⟩)) ?_
        rintro _ ⟨j, _, rfl⟩
        exact (hlost.mpr hset').mono (Nat.le_add_left _ _)
      · simp only [hset', if_false, Bool.false_eq_true]
        rw [ih (t.failed.loaded 1) calls]
        have hnext : ∀ j, s.cancel.SetWithin (j + (conn.loads + 4)) ↔
            (t.failed.loaded 1).cancel.SetWithin j := fun j => by
          rw [Nat.add_comm, Flag.setWithin_add, Ingest.loaded, hafter, Flag.after_after]
          exact or_iff_right fun h => hset' (hlost.mp h)
        constructor
        · rintro h _ ⟨j, hj, rfl⟩
          exact (hnext j).mpr (h j hj)
        · exact fun h j hj => (hnext j).mp (h _ ⟨j, hj, rfl⟩)

/-- **Truthful, exactly when** the limit is not 0, or no payload comes before the token is set. -/
theorem runLoop_tells_iff (limit : Option Nat) (cancel : Flag) (conns : List Conn) :
    Tells limit (runLoop limit (.start cancel) conns) ↔
      (limit = some 0 → ∀ loads, firstPayload conns = some loads → cancel.SetWithin loads) := by
  by_cases hlimit : limit = some 0
  · subst hlimit
    rw [runLoop_zero_iff conns (.start cancel) rfl]
    exact ⟨fun h _ => h, fun h => h rfl⟩
  · have hrun : Running limit (.start cancel) := by
      refine ⟨rfl, fun n hn => Nat.pos_of_ne_zero fun h0 => hlimit ?_⟩
      rw [hn, h0]
    exact iff_of_true (hrun.runLoop conns _).tells fun h => absurd h hlimit

/-! ## Without limit or cancellation

With neither, a stream is read to its end, and what the sink is given can be written down at once. -/

/-- A stream read to its end hands over every non-empty event. -/
theorem readFrames_never :
    ∀ (frames : List Frame) (s : Ingest), s.cancel = .never →
    ∃ t, readFrames none s frames = (none, t) ∧ t.cancel = .never ∧
      t.calls = s.calls ++ frames.filterMap Frame.payload? := by
  intro frames
  induction frames with
  | nil =>
    intro s hs
    refine ⟨s.loaded 1, ?_, ?_, (List.append_nil _).symm⟩
    · rw [readFrames, hs]
      rfl
    · rw [Ingest.loaded, hs]
      rfl
  | cons frame frames ih =>
    intro s hs
    have hload : (s.loaded 1).cancel = .never := by
      rw [Ingest.loaded, hs]
      rfl
    cases frame with
    | error =>
      rw [readFrames, hs]
      exact ih _ hload
    | event data =>
      rw [readFrames, hs]
      by_cases hd : data = []
      · rw [List.filterMap_cons_none (by rw [Frame.payload?, if_pos hd]), if_pos hd]
        exact ih _ hload
      · rw [List.filterMap_cons_some (by rw [Frame.payload?, if_neg hd]), if_neg hd]
        obtain ⟨t, hread, ht, hcalls⟩ := ih ((s.loaded 1).deliver data) hload
        refine ⟨t, hread, ht, hcalls.trans ?_⟩
        show s.calls ++ [data] ++ _ = _
        rw [List.append_assoc, List.singleton_append]

/-- One connection, and the wait for the next. -/
theorem runLoop_never (frames : List Frame) :
    (runLoop none (.start .never) [.success frames]).2.calls =
      frames.filterMap Frame.payload? := by
  obtain ⟨t, hread, ht, hcalls⟩ :=
    readFrames_never frames ((Ingest.start .never).loaded 2).established rfl
  have hfailed : t.failed.cancel = .never := by
    rw [Ingest.failed, ht]
    rfl
  rw [runLoop]
  show Ingest.calls (match readFrames none ((Ingest.start .never).loaded 2).established frames with
    | (some outcome, t) => (some outcome, t)
    | (none, t) =>
      if t.failed.cancel.isSet then (some .cancelled, t.failed.loaded 1)
      else runLoop none (t.failed.loaded 1) []).2 = _
  rw [hread]
  simp only [hfailed, Flag.isSet_never, Bool.false_eq_true, if_false]
  rw [runLoop, Ingest.loaded, hfailed]
  exact hcalls

end RtsPipeline.Async
