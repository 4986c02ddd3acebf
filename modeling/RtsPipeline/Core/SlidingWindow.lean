/-
  What a tick reads of the past: which intervals are in the window of `rts-core/src/failsafe.rs`.

  `tick` calls `advance` and then `p99_ns`.  `advance` clears the bucket it goes to, so that the p99
  is taken of one empty bucket and the four that were written last: the ring of five buckets gives a
  window of four intervals.

  1. `Holds.merged_perm` — the samples of all buckets are those of the last five intervals, the open
     one among them.
  2. `mergedByTick_perm` — to a tick, the open interval is the one it has just begun.
  3. `sliding_window_iff` — the fifth interval back is missed, unless nothing was recorded there.
-/
import RtsPipeline.Core.DegradedMode

namespace RtsPipeline

open Lib

/-- The samples of the last `n` intervals, the open one included. -/
def samplesOfLast (n : Nat) (past : List Histogram) : List UInt64 :=
  (past.take n).flatMap Histogram.samples

/-- Intervals from before the first one have no samples. -/
theorem flatMap_period (n : Nat) : ∀ past : List Histogram,
    ((List.range n).map (period past)).flatMap Histogram.samples = samplesOfLast n past := by
  induction n with
  | zero => exact fun _ => rfl
  | succ n ih =>
    intro past
    have hrange : (List.range (n + 1)).map (period past) =
        period past 0 :: (List.range n).map (period past.tail) := by
      rw [List.range_succ_eq_map, List.map_cons, List.map_map]
      refine congrArg _ (List.map_congr_left fun k _ => ?_)
      cases past with
      | nil => rfl
      | cons h rest => rfl
    rw [hrange, List.flatMap_cons, ih]
    cases past with
    | nil => simp [samplesOfLast, period, Histogram.empty]
    | cons h rest => rfl

/-- One interval more. -/
theorem samplesOfLast_succ (n : Nat) (past : List Histogram) :
    samplesOfLast (n + 1) past =
      samplesOfLast n past ++ past[n]?.toList.flatMap Histogram.samples := by
  rw [samplesOfLast, List.take_add_one, List.flatMap_append]
  rfl

theorem RollingHistogram.Holds.merged_perm {w : RollingHistogram} {past : List Histogram}
    (h : w.Holds past) : w.merged.samples.Perm (samplesOfLast ringLen past) := by
  have hperm := Recent.perm h
  rw [merged_samples, ← flatMap_period, ← List.flatMap_map]
  exact hperm.flatMap_right _

/-! ## The window of a tick

What the tick merges is the ring after `advance`, in which the oldest interval has been cleared
and the newest is still empty. -/

/-- What a tick after these calls takes the p99 of. -/
def mergedByTick (hdr : Hdr) (ops : List FailSafeOp) : Histogram :=
  (FailSafeController.new.performAll hdr ops).rolling.advance.merged

/-- What the intervals before that tick recorded, as far back as the ring has buckets. -/
def windowSamples (high : UInt64) (ops : List FailSafeOp) : List UInt64 :=
  samplesOfLast ringLen (intervals high ops)

/-- A tick merges four intervals, whatever was recorded before. -/
theorem mergedByTick_perm (hdr : Hdr) (ops : List FailSafeOp) :
    (mergedByTick hdr ops).samples.Perm
      (samplesOfLast (ringLen - 1) (intervals hdr.high ops)) := by
  have hnew : FailSafeController.new.rolling.Holds [.empty] := RollingHistogram.holds_new
  have hholds := holds_run hdr ops (List.cons_ne_nil _ _) hnew
  exact hholds.advance.merged_perm

/-- **The sliding window.**  A tick merges the samples of the last `RING_LEN` intervals exactly when
    the oldest of them, if the run is that old, recorded none.

    A tick merges four intervals, as it clears the oldest bucket before it looks.  So the fifth
    makes no difference exactly if it has no samples. -/
theorem sliding_window_iff (hdr : Hdr) (ops : List FailSafeOp) :
    (mergedByTick hdr ops).samples.Perm (windowSamples hdr.high ops) ↔
      ∀ oldest, (intervals hdr.high ops)[ringLen - 1]? = some oldest → oldest.samples = [] := by
  -- what is merged are four intervals; the claim of the window is about five
  have hfour := mergedByTick_perm hdr ops
  have hfive : windowSamples hdr.high ops =
      samplesOfLast (ringLen - 1) (intervals hdr.high ops) ++
        (intervals hdr.high ops)[ringLen - 1]?.toList.flatMap Histogram.samples :=
    samplesOfLast_succ (ringLen - 1) _
  constructor
  -- the samples can be counted, and the fifth interval adds some if it has any
  · intro hperm oldest hold
    have hlen := (hfour.symm.trans hperm).length_eq
    rw [hfive, List.length_append, hold] at hlen
    have hnone : (Option.toList (some oldest)).flatMap Histogram.samples = oldest.samples :=
      List.flatMap_singleton _ _
    rw [hnone] at hlen
    exact List.length_eq_zero_iff.mp (by omega)
  · intro hempty
    rw [hfive]
    cases hget : (intervals hdr.high ops)[ringLen - 1]? with
    | none =>
      rw [Option.toList_none, List.flatMap_nil, List.append_nil]
      exact hfour
    | some oldest =>
      rw [Option.toList_some, List.flatMap_singleton, hempty oldest hget, List.append_nil]
      exact hfour

/-- Five milliseconds in the first interval: the fifth tick does not see them. -/
theorem sliding_window_misses :
    ¬ (mergedByTick .program (.recordJitter 5000000 :: List.replicate 4 .tick)).samples.Perm
      (windowSamples Hdr.program.high (.recordJitter 5000000 :: List.replicate 4 .tick)) := by
  intro hperm
  have hlen := hperm.length_eq
  exact absurd hlen (by decide)

end RtsPipeline
