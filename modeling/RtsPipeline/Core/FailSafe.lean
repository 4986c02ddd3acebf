/-
  `rts-core/src/failsafe.rs`: the controller of Degraded Mode.

  `tick` advances the rolling window of jitter samples, reads its p99 and moves the hysteresis
  automaton; `evaluate` is the last part.  The dwell counter is a `u8` behind a mutex and starts
  anew at every change of the mode, so it stays below `DWELL_TICKS`: the structure carries that.

  The window is a ring of histograms and the position of the one that is written to.
-/
import Mathlib.Algebra.Group.Fin.Basic
import Mathlib.Logic.Function.Basic
import RtsPipeline.Core.Histogram

namespace RtsPipeline

/-- `ENTER_NS`. -/
def enterNs : UInt64 := 1500000

/-- `RECOVER_NS`. -/
def recoverNs : UInt64 := 800000

/-- `DWELL_TICKS`. -/
def dwellTicks : UInt8 := 10

/-- The automaton of `FailSafeController`: `degraded` and `dwell_counter`. -/
structure Hysteresis where
  degraded : Bool
  dwellCounter : UInt8
  bounded : dwellCounter < dwellTicks

namespace Hysteresis

/-- The automaton of `FailSafeController::new`. -/
def new : Hysteresis := { degraded := false, dwellCounter := 0, bounded := by decide }

/-- `is_degraded`. -/
def isDegraded (h : Hysteresis) : Bool := h.degraded

/-- Start counting anew. -/
def restart (mode : Bool) : Hysteresis :=
  { degraded := mode, dwellCounter := 0, bounded := by decide }

/-- One more tick beyond the threshold: the mode changes when it is the last one needed. -/
def dwell (h : Hysteresis) : Hysteresis :=
  if hd : dwellTicks ≤ h.dwellCounter + 1 then restart (!h.degraded)
  else
    { degraded := h.degraded
      dwellCounter := h.dwellCounter + 1
      bounded := UInt8.not_le.mp hd }

/-- `tick`, after the window gave `p99`. -/
def evaluate (h : Hysteresis) (p99 : UInt64) : Hysteresis :=
  if h.degraded then
    if p99 < recoverNs then h.dwell else restart true
  else if enterNs < p99 then h.dwell
  else restart false

end Hysteresis

/-! ## The rolling window

A ring of buckets, one of which is current.  `advance` clears the bucket it comes to, and that is
the oldest. -/

/-- `RING_LEN`. -/
def ringLen : Nat := 5

instance : NeZero ringLen := ⟨by decide⟩

/-- `RollingHistogram`. -/
structure RollingHistogram where
  buckets : Fin ringLen → Histogram
  idx : Fin ringLen

namespace RollingHistogram

/-- `RollingHistogram::new`. -/
def new : RollingHistogram := { buckets := fun _ => .empty, idx := 0 }

/-- `record`: into the current bucket. -/
def record (high : UInt64) (w : RollingHistogram) (ns : UInt64) : RollingHistogram :=
  { w with buckets := Function.update w.buckets w.idx ((w.buckets w.idx).record high (max ns 1)) }

/-- `advance`: to the next bucket, which is cleared.  `idx + 1` is taken modulo `RING_LEN`. -/
def advance (w : RollingHistogram) : RollingHistogram :=
  { buckets := Function.update w.buckets (w.idx + 1) .empty, idx := w.idx + 1 }

/-- The scratch histogram all buckets are added to. -/
def merged (w : RollingHistogram) : Histogram :=
  (List.finRange ringLen).foldl (fun h i => h.add (w.buckets i)) .empty

/-- The scratch histogram ends up with what all buckets hold. -/
theorem merged_samples (w : RollingHistogram) :
    w.merged.samples = (List.finRange ringLen).flatMap fun i => (w.buckets i).samples := by
  have hfold : ∀ (l : List (Fin ringLen)) (h : Histogram),
      (l.foldl (fun h i => h.add (w.buckets i)) h).samples =
        h.samples ++ l.flatMap fun i => (w.buckets i).samples := by
    intro l
    induction l with
    | nil => intro h; exact (List.append_nil _).symm
    | cons i l ih =>
      intro h
      rw [List.foldl_cons, ih, List.flatMap_cons, ← List.append_assoc]
      rfl
  exact hfold _ .empty

/-- `p99_ns`. -/
def p99Ns (hdr : Hdr) (w : RollingHistogram) : UInt64 :=
  if w.merged.isEmpty then 0 else hdr.valueAtQuantile w.merged .p99

end RollingHistogram

/-! ## The controller

The window and the automaton together, and the two calls that change them. -/

/-- `FailSafeController`. -/
structure FailSafeController where
  rolling : RollingHistogram
  hysteresis : Hysteresis

/-- A call of the controller that changes it. -/
inductive FailSafeOp
  | recordJitter (j : Nat)      -- from the workers
  | tick                        -- from the ticker
deriving DecidableEq, Repr

namespace FailSafeController

/-- `FailSafeController::new`. -/
def new : FailSafeController := { rolling := .new, hysteresis := .new }

/-- `record_jitter`. -/
def recordJitter (hdr : Hdr) (c : FailSafeController) (j : Nat) : FailSafeController :=
  { c with rolling := c.rolling.record hdr.high (nanos j) }

/-- `is_degraded`. -/
def isDegraded (c : FailSafeController) : Bool := c.hysteresis.isDegraded

/-- `tick`. -/
def tick (hdr : Hdr) (c : FailSafeController) : FailSafeController :=
  { rolling := c.rolling.advance
    hysteresis := c.hysteresis.evaluate (c.rolling.advance.p99Ns hdr) }

/-- One call. -/
def perform (hdr : Hdr) (c : FailSafeController) : FailSafeOp → FailSafeController
  | .recordJitter j => c.recordJitter hdr j
  | .tick => c.tick hdr

/-- A sequence of calls. -/
def performAll (hdr : Hdr) (c : FailSafeController) (ops : List FailSafeOp) : FailSafeController :=
  ops.foldl (perform hdr) c

end FailSafeController

end RtsPipeline
