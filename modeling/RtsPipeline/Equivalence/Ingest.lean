/-
  The two ingests side by side: why each of them returns.

  Both module docs promise a reconnect after every disconnect and a return at the limit or at the
  cancellation.  The threaded ingest takes a stream that ends cleanly for a reached limit; the async
  one looks at the limit only after a call, so the limit 0 lets one payload through.  Nothing else
  is in the way of the promise.
-/
import RtsPipeline.Async.Ingest
import RtsPipeline.Threaded.Ingest

namespace RtsPipeline.Equivalence

open Lib

/-- What the threaded ingest tells its caller about an upstream is so. -/
def ThreadedTruthful (limit : Option Nat) (cancel : Flag) (conns : List Threaded.Conn) : Prop :=
  let r := Threaded.runSse limit (.start cancel) conns
  Truthful limit r.2.calls r.2.cancel.isSet (Threaded.reported r.1)

/-- What the async ingest tells its caller about an upstream is so. -/
def AsyncTruthful (client : Except Async.IngestError Unit) (limit : Option Nat) (cancel : Flag)
    (conns : List Async.Conn) : Prop :=
  let r := Async.runSse client limit (.start cancel) conns
  Truthful limit r.2.calls r.2.cancel.isSet (Async.reported r.1)

/-- Without a client there is no loop, no call, and an `Err` that promises nothing; otherwise the
    report is the loop's own. -/
theorem asyncTruthful_iff (client : Except Async.IngestError Unit) (limit : Option Nat)
    (cancel : Flag) (conns : List Async.Conn) :
    AsyncTruthful client limit cancel conns ↔
      (client = .ok () → limit = some 0 →
        ∀ loads, Async.firstPayload conns = some loads → cancel.SetWithin loads) := by
  cases client with
  | error e =>
    refine iff_of_true ?_ fun h => nomatch h
    exact ⟨fun n _ => Nat.zero_le n, fun he => (nomatch he), fun he => (nomatch he)⟩
  | ok u =>
    have hreport : ∀ outcome : Option Async.IngestOutcome,
        Async.reported (outcome.map .ok) = outcome.map Async.IngestOutcome.reason := by
      rintro (_ | outcome) <;> rfl
    show Truthful limit (Async.runLoop limit (.start cancel) conns).2.calls _
      (Async.reported ((Async.runLoop limit (.start cancel) conns).1.map .ok)) ↔ _
    rw [hreport]
    constructor
    · exact fun h _ => (Async.runLoop_tells_iff limit cancel conns).mp h
    · exact fun h => (Async.runLoop_tells_iff limit cancel conns).mpr (h rfl)

/-- **Why ingest returns.**  For every limit, every upstream and every moment of the cancellation:

    * the threaded ingest is truthful exactly when no stream ends cleanly before the limit is
      reached or the flag is set;
    * the async ingest is truthful exactly when the limit is not 0, or no payload comes before the
      token is set;
    * neither returns an error for anything the upstream does.

    Each loop has its own theorem, an induction over the connections in which a lost one shifts the
    question to the next.  Here they are put side by side, with the two ways to return an error:
    there is none in the threads, and in the async build only the client can fail. -/
theorem ingest_truthful_iff (limit : Option Nat) (cancel : Flag) (tconns : List Threaded.Conn)
    (client : Except Async.IngestError Unit) (aconns : List Async.Conn) :
    (ThreadedTruthful limit cancel tconns ↔
      ∀ payloads loads, Threaded.cleanEnd tconns = some (payloads, loads) →
        limitReached limit payloads = true ∨ cancel.SetWithin loads) ∧
    (AsyncTruthful client limit cancel aconns ↔
      (client = .ok () → limit = some 0 →
        ∀ loads, Async.firstPayload aconns = some loads → cancel.SetWithin loads)) ∧
    (∀ e, (Threaded.runSse limit (.start cancel) tconns).1 ≠ some (.error e)) ∧
    ∀ e, (Async.runSse (.ok ()) limit (.start cancel) aconns).1 ≠ some (.error e) := by
  refine ⟨?_, asyncTruthful_iff client limit cancel aconns,
    fun e => Threaded.runSse_ne_error tconns _, fun e => ?_⟩
  · refine (Threaded.runSse_truthful_iff limit cancel tconns).trans ?_
    simp only [Threaded.Excused, Nat.zero_add]
  · show (Async.runLoop limit (.start cancel) aconns).1.map Except.ok ≠ _
    cases (Async.runLoop limit (.start cancel) aconns).1 with
    | none => exact fun he => nomatch he
    | some outcome => exact fun he => nomatch he

/-- A connection that ends at once is reported as a reached limit where there is none; and the
    limit 0 lets the payload `x` through. -/
theorem ingest_not_truthful :
    (¬ ∀ limit cancel tconns, ThreadedTruthful limit cancel tconns) ∧
    (¬ ∀ client limit cancel aconns, AsyncTruthful client limit cancel aconns) := by
  constructor
  · intro h
    exact nomatch (h none .never [.opened [] .eof]).ofLimit rfl
  · intro h
    have := (h (.ok ()) (some 0) .never [.success [.event ['x']]]).bounded 0 rfl
    exact absurd this (by decide)

end RtsPipeline.Equivalence
