/-
  The body of the worker loop, which `rts-async/src/scheduler.rs` and
  `rts-threaded/src/scheduler.rs` share line by line.

  The body has no suspension point: a worker that dequeued a task makes the five calls in this order
  and is back at the top of its loop.  Other workers run in between, so every call is a step of its
  own.
-/
import Mathlib.Data.List.Basic

namespace RtsPipeline

/-- The calls of one iteration that other parties can see. -/
inductive BodyStep
  | recordDrift       -- `metrics.record_drift(priority, drift)`
  | sendUpdate        -- `lb_tx.try_send(LbCmd::Update(server_name))`
  | recordJitter      -- `metrics.record_jitter(total)`
  | feedFailsafe      -- `failsafe.record_jitter(total)`
  | recordMiss        -- `metrics.record_deadline_miss(priority)`, when the deadline was missed
deriving DecidableEq, Repr

/-- The body of the loop. -/
def iteration : List BodyStep :=
  [.recordDrift, .sendUpdate, .recordJitter, .feedFailsafe, .recordMiss]

end RtsPipeline
