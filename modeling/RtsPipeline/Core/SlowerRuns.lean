/-
  Two runs of the fail-safe with the same ticks, one of them slower: `record_jitter` and `tick` of
  `rts-core/src/failsafe.rs`, call by call.

  A longer duration is a greater sample, and a histogram of greater samples has greater quantiles;
  the automaton then enters Degraded Mode no later and leaves it no sooner.  One thing stands in the
  way.  `record_jitter` cuts a duration to `u64::MAX`, but the histogram refuses everything above
  its highest trackable value and the error is dropped: a sample that grows beyond that value is
  lost.

  1. `Slower` — the two runs; `KeptInRange` — no sample is lost in the slower one only.
  2. `RollingHistogram.Below` — the windows, bucket by bucket; hence their p99.
  3. `slower_readings` — what the ticks read and decide.
-/
import RtsPipeline.Core.DegradedMode

namespace RtsPipeline

open Lib

/-! ## Two runs

The same calls with durations that are no shorter.  The windows are compared bucket by bucket and
sample by sample, and the one thing that can go wrong is that a longer duration is out of range and
is not recorded at all. -/

/-- The same call, with a duration that is no shorter. -/
inductive SlowerOp : FailSafeOp → FailSafeOp → Prop
  | recordJitter {j k : Nat} (h : j ≤ k) : SlowerOp (.recordJitter j) (.recordJitter k)
  | tick : SlowerOp .tick .tick

/-- The same ticks and as many samples between them, each at least as long. -/
def Slower (ops ops' : List FailSafeOp) : Prop := List.Forall₂ SlowerOp ops ops'

/-- The second call's sample is in range when the first one's is. -/
def KeptInRange (high : UInt64) : FailSafeOp → FailSafeOp → Prop
  | .recordJitter j, .recordJitter k => sampleOf j ≤ high → sampleOf k ≤ high
  | _, _ => True

instance (high : UInt64) : DecidableRel (KeptInRange high) := fun op op' => by
  cases op <;> cases op' <;> unfold KeptInRange <;> infer_instance

/-- What each tick of a run reads, and the mode it decides on. -/
def readings (hdr : Hdr) (c : FailSafeController) : List FailSafeOp → List (UInt64 × Bool)
  | [] => []
  | .recordJitter j :: ops => readings hdr (c.recordJitter hdr j) ops
  | .tick :: ops =>
    (c.rolling.advance.p99Ns hdr, (c.tick hdr).isDegraded) :: readings hdr (c.tick hdr) ops

/-- A p99 that is no smaller, and Degraded Mode wherever it was on. -/
def NoBetter (r r' : UInt64 × Bool) : Prop := r.1 ≤ r'.1 ∧ (r.2 = true → r'.2 = true)

/-! ## Samples

A duration becomes a sample by a cut at both ends, and a cut keeps order. -/

theorem toNat_max (a b : UInt64) : (max a b).toNat = max a.toNat b.toNat := by
  show (if a ≤ b then b else a).toNat = _
  split
  · rename_i h
    exact (Nat.max_eq_right (UInt64.le_iff_toNat_le.mp h)).symm
  · rename_i h
    exact (Nat.max_eq_left (Nat.le_of_lt (UInt64.lt_iff_toNat_lt.mp (UInt64.not_le.mp h)))).symm

/-- A duration is cut to the range of a `u64`, and never recorded as zero. -/
theorem toNat_sampleOf (d : Nat) : (sampleOf d).toNat = max (min d (UInt64.size - 1)) 1 := by
  have hone : (1 : UInt64).toNat = 1 := rfl
  rw [sampleOf, nanos, toNat_max, hone]
  split
  · rename_i hd
    rw [toNat_max, UInt64.toNat_ofNat_of_lt' hd, hone]
    omega
  · rename_i hd
    have hlast : (UInt64.ofNat (UInt64.size - 1)).toNat = UInt64.size - 1 := rfl
    rw [hlast]
    omega

theorem sampleOf_mono {j k : Nat} (h : j ≤ k) : sampleOf j ≤ sampleOf k := by
  rw [UInt64.le_iff_toNat_le, toNat_sampleOf, toNat_sampleOf]
  omega

/-! ## The windows of the two runs

The samples are compared one by one, in the order they were recorded.  That is more than the
quantiles need, but it is what one more sample, one more tick and the merge of the buckets keep: the
two runs write to the same bucket and clear the same one. -/

/-- Bucket by bucket, the same number of samples, each at least as great. -/
structure RollingHistogram.Below (w w' : RollingHistogram) : Prop where
  idx : w.idx = w'.idx
  buckets : ∀ i, List.Forall₂ (· ≤ ·) (w.buckets i).samples (w'.buckets i).samples

namespace RollingHistogram.Below

variable {w w' : RollingHistogram}

/-- The same bucket is written in both. -/
theorem update (h : w.Below w') (k : Fin ringLen) {b b' : Histogram}
    (hb : List.Forall₂ (· ≤ ·) b.samples b'.samples) (i : Fin ringLen) :
    List.Forall₂ (· ≤ ·) (Function.update w.buckets k b i).samples
      (Function.update w'.buckets k b' i).samples := by
  by_cases hi : i = k
  · subst hi
    rw [Function.update_self, Function.update_self]
    exact hb
  · rw [Function.update_of_ne hi, Function.update_of_ne hi]
    exact h.buckets i

theorem record (h : w.Below w') {high : UInt64} {j k : Nat} (hjk : j ≤ k)
    (hkept : sampleOf j ≤ high → sampleOf k ≤ high) :
    (w.record high (nanos j)).Below (w'.record high (nanos k)) where
  idx := h.idx
  buckets := by
    intro i
    show List.Forall₂ _ (Function.update w.buckets w.idx _ i).samples
      (Function.update w'.buckets w'.idx _ i).samples
    rw [← h.idx]
    refine h.update w.idx ?_ i
    show List.Forall₂ _ (Histogram.record high _ (sampleOf j)).samples
      (Histogram.record high _ (sampleOf k)).samples
    unfold Histogram.record
    by_cases hj : sampleOf j ≤ high
    · -- both are in range
      rw [if_pos hj, if_pos (hkept hj)]
      exact List.rel_append (h.buckets w.idx) (.cons (sampleOf_mono hjk) .nil)
    · -- both are lost
      have hk : ¬ sampleOf k ≤ high := fun hk => hj (UInt64.le_trans (sampleOf_mono hjk) hk)
      rw [if_neg hj, if_neg hk]
      exact h.buckets w.idx

theorem advance (h : w.Below w') : w.advance.Below w'.advance where
  idx := by
    show w.idx + 1 = w'.idx + 1
    rw [h.idx]
  buckets := by
    intro i
    show List.Forall₂ _ (Function.update w.buckets (w.idx + 1) .empty i).samples
      (Function.update w'.buckets (w'.idx + 1) .empty i).samples
    rw [← h.idx]
    exact h.update (w.idx + 1) .nil i

theorem merged (h : w.Below w') :
    List.Forall₂ (· ≤ ·) w.merged.samples w'.merged.samples := by
  rw [merged_samples, merged_samples]
  have hsame : List.Forall₂ (· = ·) (List.finRange ringLen) (List.finRange ringLen) :=
    List.forall₂_eq_eq_eq ▸ rfl
  refine List.rel_flatMap hsame ?_
  rintro i _ rfl
  exact h.buckets i

/-- The p99 is monotone in the window. -/
theorem p99Ns {hdr : Hdr} (hr : hdr.Ranks) (h : w.Below w') : w.p99Ns hdr ≤ w'.p99Ns hdr := by
  have hlen : w.merged.len = w'.merged.len := h.merged.length_eq
  unfold RollingHistogram.p99Ns
  split
  · exact UInt64.zero_le
  · rename_i hne
    have hne' : ¬ w'.merged.isEmpty = true := by
      rw [Histogram.isEmpty, List.isEmpty_iff] at hne ⊢
      exact fun hnil => hne (List.length_eq_zero_iff.mp (by rw [h.merged.length_eq, hnil]; rfl))
    rw [if_neg hne']
    rw [Histogram.isEmpty, List.isEmpty_iff] at hne hne'
    obtain ⟨rank, hrank⟩ := hr.ranked .p99
    obtain ⟨v, hv, heq⟩ := hrank w.merged hne
    obtain ⟨v', hv', heq'⟩ := hrank w'.merged hne'
    rw [heq, heq']
    rw [← hlen] at hv'
    exact hr.reported_mono (hv.mono hv' h.merged)

end RollingHistogram.Below

/-! ## The two controllers

The two need not be in the same mode, nor need their counters agree.  `Dwell.Behind` is the relation
that a pair of such automata keeps, if the second is pushed harder at every tick. -/

/-- A greater p99 pushes harder towards Degraded Mode: `RECOVER_NS` is below `ENTER_NS`. -/
theorem Hysteresis.pushes {p p' : UInt64} (h : p ≤ p') : Dwell.Pushes beyond p p' where
  enter := fun hp => decide_eq_true (UInt64.lt_of_lt_of_le (of_decide_eq_true hp) h)
  leave := fun hp => decide_eq_true (UInt64.lt_of_le_of_lt h (of_decide_eq_true hp))
  apart := by
    intro hp
    have hlow : recoverNs < p' :=
      UInt64.lt_trans (by decide) (UInt64.lt_of_lt_of_le (of_decide_eq_true hp) h)
    exact decide_eq_false (UInt64.not_lt.mpr (UInt64.le_of_lt hlow))

/-- The second controller has seen greater samples and is ahead of the first. -/
structure FailSafeController.Behind (c c' : FailSafeController) : Prop where
  rolling : c.rolling.Below c'.rolling
  hysteresis : Dwell.Behind c.hysteresis.toDwell c'.hysteresis.toDwell

theorem behind_new : FailSafeController.new.Behind .new where
  rolling := ⟨rfl, fun _ => .nil⟩
  hysteresis := Dwell.false_behind _

/-- One tick of both: what they read, and where they stand afterwards. -/
theorem FailSafeController.Behind.tick {hdr : Hdr} (hr : hdr.Ranks) {c c' : FailSafeController}
    (h : c.Behind c') :
    c.rolling.advance.p99Ns hdr ≤ c'.rolling.advance.p99Ns hdr ∧
      (c.tick hdr).Behind (c'.tick hdr) := by
  have hp := h.rolling.advance.p99Ns hr
  refine ⟨hp, h.rolling.advance, ?_⟩
  show Dwell.Behind (c.hysteresis.evaluate _).toDwell (c'.hysteresis.evaluate _).toDwell
  rw [Hysteresis.toDwell_evaluate, Hysteresis.toDwell_evaluate]
  exact h.hysteresis.step (Hysteresis.pushes hp)

/-- **Run lemma** for `Behind`. -/
theorem FailSafeController.Behind.readings {hdr : Hdr} (hr : hdr.Ranks)
    {ops ops' : List FailSafeOp} (hslower : Slower ops ops') :
    ∀ {c c' : FailSafeController}, c.Behind c' → List.Forall₂ (KeptInRange hdr.high) ops ops' →
    List.Forall₂ NoBetter (readings hdr c ops) (readings hdr c' ops') := by
  induction hslower with
  | nil => exact fun _ _ => .nil
  | cons hop _ ih =>
    intro c c' h hkept
    obtain ⟨hhead, htail⟩ := List.forall₂_cons.mp hkept
    cases hop with
    | recordJitter hjk => exact ih ⟨h.rolling.record hjk hhead, h.hysteresis⟩ htail
    | tick =>
      obtain ⟨hp, hnext⟩ := h.tick hr
      exact .cons ⟨hp, hnext.hysteresis.mode⟩ (ih hnext htail)

/-- **Monotonicity.**  The ticks of a slower run that loses no sample of its own read a p99 that is
    at least as great, and are in Degraded Mode wherever the ticks of the faster one are.

    The two runs are compared bucket by bucket and sample by sample (`Below`), so every rank is
    at least as great, and the automaton of the slower run is ahead on its way up
    (`Lib.Dwell.Behind`). -/
theorem slower_readings (hdr : Hdr) (hr : hdr.Ranks) (ops ops' : List FailSafeOp)
    (hslower : Slower ops ops') (hkept : List.Forall₂ (KeptInRange hdr.high) ops ops') :
    List.Forall₂ NoBetter (readings hdr .new ops) (readings hdr .new ops') :=
  FailSafeController.Behind.readings hr hslower behind_new hkept

/-- One millisecond, and five. -/
theorem slower_readings_five :
    List.Forall₂ NoBetter (readings .program .new [.recordJitter 1000000, .tick])
      (readings .program .new [.recordJitter 5000000, .tick]) :=
  slower_readings .program Hdr.program_ranks _ _
    (.cons (.recordJitter (by decide)) (.cons .tick .nil))
    (.cons (by decide) (.cons trivial .nil))

/-- Five milliseconds, and seventy seconds: the longer sample is lost.  The 70 s are above the
    histogram's range, and so there is nothing to read. -/
theorem slower_readings_lost :
    Slower [.recordJitter 5000000, .tick] [.recordJitter 70000000000, .tick] ∧
    ¬ List.Forall₂ NoBetter (readings .program .new [.recordJitter 5000000, .tick])
      (readings .program .new [.recordJitter 70000000000, .tick]) := by
  refine ⟨.cons (.recordJitter (by decide)) (.cons .tick .nil), fun hread => ?_⟩
  obtain ⟨⟨hp, _⟩, _⟩ := List.forall₂_cons.mp hread
  have hlost : (FailSafeController.new.recordJitter .program 70000000000).rolling.advance.p99Ns
      .program = 0 := by rfl
  have hfive : (FailSafeController.new.recordJitter .program 5000000).rolling.advance.p99Ns
      .program = 5001215 := by
    have hmerged : (FailSafeController.new.recordJitter .program 5000000).rolling.advance.merged =
        { samples := [5000000] } := by decide
    rw [RollingHistogram.p99Ns, hmerged]
    show highestEquivalent (([5000000].mergeSort fun a b => decide (a ≤ b)).getD 0 0) = 5001215
    rw [List.mergeSort_singleton]
    decide
  rw [hlost, hfive] at hp
  exact absurd hp (by decide)

end RtsPipeline
