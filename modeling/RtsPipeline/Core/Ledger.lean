/-
  What the calls of the workers leave in the metrics store.

  A worker's call comes with its task and with the two clock readings of its iteration.  The store
  after a list of calls is a function of the list: each histogram holds the values in range, in
  order, and each counter the number of its calls.  Nothing increments `overflow_count`.

  1. `Call`, `Metrics.perform` — one call and its effect on the store.
  2. `Ledger` — the store written by a list of calls, kept by every further call.
  3. `Agrees`, `Ledger.agrees_iff` — the store says what the pipeline did exactly if no value was
     refused and no queue overflowed.
-/
import Mathlib.Data.List.Count
import RtsPipeline.Core.Iteration
import RtsPipeline.Core.Metrics
import RtsPipeline.Lib.Crew

namespace RtsPipeline

open Lib

/-- One call of the body of the loop. -/
structure Call where
  step : BodyStep
  task : Task
  actualStart : Nat
  total : Nat       -- `actual_start.elapsed()`, known once the update is sent
deriving DecidableEq, Repr

namespace Call

/-- `actual_start.saturating_duration_since(task.enqueued_at)`. -/
def drift (c : Call) : Nat := c.actualStart - c.task.enqueuedAt

/-- The call and its task. -/
def made (c : Call) : BodyStep × Task := (c.step, c.task)

/-- A drift of this class. -/
def isDrift (p : Priority) (c : Call) : Bool :=
  decide (c.step = .recordDrift ∧ c.task.priority = p)

/-- A deadline miss of this class. -/
def isMiss (deadline : Nat) (p : Priority) (c : Call) : Bool :=
  decide (c.step = .recordMiss ∧ c.task.priority = p ∧ deadline < c.total)

/-- A jitter sample. -/
def isJitter (c : Call) : Bool := decide (c.step = .recordJitter)

/-- The drift is in the range of the histograms. -/
def driftFits (high : UInt64) (c : Call) : Bool := decide (nanos c.drift ≤ high)

/-- The jitter sample is in the range of the histograms. -/
def totalFits (high : UInt64) (c : Call) : Bool := decide (nanos c.total ≤ high)

/-- A drift of this class that the histogram took. -/
def recorded (high : UInt64) (p : Priority) (c : Call) : Bool := c.isDrift p && c.driftFits high

/-- No histogram refuses the value this call records. -/
def Fits (high : UInt64) (c : Call) : Prop :=
  (c.step = .recordDrift → c.driftFits high = true) ∧
    (c.step = .recordJitter → c.totalFits high = true)

instance (high : UInt64) (c : Call) : Decidable (c.Fits high) := inferInstanceAs (Decidable (_ ∧ _))

end Call

/-- A push of a `dispatch`: whether it found its queue at capacity, and what it returned. -/
structure Pushing where
  full : Bool
  outcome : PushOutcome
deriving DecidableEq, Repr

/-- The `DroppedOldest` outcomes. -/
def dropped (pushings : List Pushing) : Nat :=
  pushings.countP fun p => p.outcome = .droppedOldest

/-- Nothing was dropped exactly if no push found its queue at capacity. -/
theorem dropped_eq_zero {pushings : List Pushing}
    (h : ∀ p ∈ pushings, p.outcome = .droppedOldest ↔ p.full = true) :
    dropped pushings = 0 ↔ ∀ p ∈ pushings, p.full = false := by
  rw [dropped, List.countP_eq_zero]
  refine forall₂_congr fun p hp => ?_
  rw [decide_eq_true_iff, h p hp, Bool.not_eq_true]

namespace Metrics

/-- The effect of one call of a worker on the store. -/
def perform (deadline : Nat) (high : UInt64) (m : Metrics) (c : Call) : Metrics :=
  match c.step with
  | .recordDrift => m.recordDrift high c.task.priority c.drift
  | .sendUpdate => m
  | .recordJitter => m.recordJitter high c.total
  | .feedFailsafe => m
  | .recordMiss => if deadline < c.total then m.recordDeadlineMiss c.task.priority else m

/-- The drift histogram of a class. -/
def drift (m : Metrics) : Priority → Histogram
  | .human => m.driftHuman
  | .bot => m.driftBot

/-- The deadline-miss counter of a class. -/
def deadlineMiss (m : Metrics) : Priority → UInt64
  | .human => m.deadlineMissHuman
  | .bot => m.deadlineMissBot

/-! ## What one call does to each part of the store

Each part is written by one kind of call, and a histogram only if the value is in range. -/

section Parts

variable (deadline : Nat) (high : UInt64) (m : Metrics) (c : Call) (p : Priority)

theorem perform_drift : ((m.perform deadline high c).drift p).samples =
    (m.drift p).samples ++ if c.recorded high p then [nanos c.drift] else [] := by
  unfold perform Call.recorded Call.isDrift
  cases hs : c.step with
  | recordDrift =>
    cases hq : c.task.priority <;> cases p <;>
      simp [recordDrift, drift, Histogram.record, Call.driftFits, apply_ite]
  | recordJitter => cases p <;> simp [recordJitter, drift]
  | recordMiss =>
    simp only [reduceCtorEq, false_and, decide_false, Bool.false_and, Bool.false_eq_true, if_false,
      List.append_nil]
    split
    · cases c.task.priority <;> cases p <;> rfl
    · rfl
  | sendUpdate => simp
  | feedFailsafe => simp

theorem perform_jitter : (m.perform deadline high c).jitter.samples =
    m.jitter.samples ++ if c.isJitter && c.totalFits high then [nanos c.total] else [] := by
  unfold perform Call.isJitter
  cases hs : c.step with
  | recordJitter => simp [recordJitter, Histogram.record, Call.totalFits, apply_ite]
  | recordDrift => cases hq : c.task.priority <;> simp [recordDrift]
  | recordMiss =>
    simp only [reduceCtorEq, decide_false, Bool.false_and, Bool.false_eq_true, if_false,
      List.append_nil]
    split
    · cases c.task.priority <;> rfl
    · rfl
  | sendUpdate => simp
  | feedFailsafe => simp

theorem perform_deadlineMiss : (m.perform deadline high c).deadlineMiss p =
    m.deadlineMiss p + if c.isMiss deadline p then 1 else 0 := by
  unfold perform Call.isMiss
  cases hs : c.step with
  | recordMiss =>
    by_cases hd : deadline < c.total
    · cases hq : c.task.priority <;> cases p <;> simp [hd, recordDeadlineMiss, deadlineMiss]
    · simp [hd]
  | recordDrift => cases hq : c.task.priority <;> cases p <;> simp [recordDrift, deadlineMiss]
  | recordJitter => cases p <;> simp [recordJitter, deadlineMiss]
  | sendUpdate => simp
  | feedFailsafe => simp

/-- No call touches `overflow_count`. -/
theorem perform_overflowCount :
    (m.perform deadline high c).overflowCount = m.overflowCount := by
  unfold perform
  cases c.step with
  | recordDrift => cases hq : c.task.priority <;> rfl
  | recordMiss =>
    simp only
    split
    · cases c.task.priority <;> rfl
    · rfl
  | recordJitter => rfl
  | sendUpdate => rfl
  | feedFailsafe => rfl

end Parts

end Metrics

/-! ## The store written by a list of calls

A field of the store is written by one kind of call at most, so each is a fold over the calls of
that kind.  The histograms keep only what is in range, and this is where a call may leave no
trace. -/

variable {deadline : Nat} {high : UInt64} {m : Metrics} {calls : List Call}

/-- The store holds what these calls wrote.  The order of the calls is the order in which the store
    was written, whatever the interleaving; so one ledger serves both pipelines, and the counters
    and the histograms need no invariant that connects them. -/
structure Ledger (deadline : Nat) (high : UInt64) (m : Metrics) (calls : List Call) : Prop where
  drift : ∀ p, (m.drift p).samples =
    (calls.filter (Call.recorded high p)).map fun c => nanos c.drift
  jitter : m.jitter.samples =
    (calls.filter fun c => c.isJitter && c.totalFits high).map fun c => nanos c.total
  misses : ∀ p, m.deadlineMiss p = UInt64.ofNat (calls.countP (Call.isMiss deadline p))
  overflow : m.overflowCount = 0

theorem ledger_new : Ledger deadline high .new [] where
  drift := fun p => by cases p <;> rfl
  jitter := rfl
  misses := fun p => by cases p <;> rfl
  overflow := rfl

/-- **Step lemma** for `Ledger`: one more call. -/
theorem Ledger.perform (h : Ledger deadline high m calls) (c : Call) :
    Ledger deadline high (m.perform deadline high c) (calls ++ [c]) := by
  refine ⟨fun p => ?_, ?_, fun p => ?_, ?_⟩
  · rw [m.perform_drift, h.drift p, List.filter_append, List.map_append, List.filter_singleton]
    cases c.recorded high p <;> rfl
  · rw [m.perform_jitter, h.jitter, List.filter_append, List.map_append, List.filter_singleton]
    cases c.isJitter && c.totalFits high <;> rfl
  · rw [m.perform_deadlineMiss, h.misses p, List.countP_append, UInt64.ofNat_add,
      List.countP_singleton]
    cases c.isMiss deadline p <;> rfl
  · rw [m.perform_overflowCount]
    exact h.overflow

/-! ## The store against what the pipeline did

Each kind of call is made once for every task that was worked through, by the balance of the crew.
So the counts can be compared: a class has as many samples as tasks exactly if no drift was refused,
and the jitter histogram as many as both classes together exactly if no jitter sample was either.
Misses cannot exceed tasks.  And the counter of overflows stays zero whatever happens, so it is
right only if there were none. -/

/-- What the metrics should say once the tasks `processed` are processed and `dropped` pushes have
    returned `DroppedOldest`. -/
structure Agrees (hdr : Hdr) (m : Metrics) (processed : List Task) (dropped : Nat) : Prop where
  samplesHuman : (m.snapshot hdr).sampleCountHuman =
    processed.countP fun t => t.priority = .human
  samplesBot : (m.snapshot hdr).sampleCountBot = processed.countP fun t => t.priority = .bot
  missesHuman : (m.snapshot hdr).deadlineMissHuman.toNat ≤ (m.snapshot hdr).sampleCountHuman
  missesBot : (m.snapshot hdr).deadlineMissBot.toNat ≤ (m.snapshot hdr).sampleCountBot
  overflow : (m.snapshot hdr).overflowCount.toNat = dropped
  jitterRow : ∀ row ∈ (m.snapshot hdr).rows, row.metric = "jitter" →
    row.sampleCount = m.jitter.len

/-- Every call of a kind was made for one task. -/
theorem countP_madeFor (b : BodyStep) (q : Task → Bool) (calls : List Call) :
    (madeFor b (calls.map Call.made)).countP q =
      calls.countP fun c => decide (c.step = b) && q c.task := by
  rw [madeFor, List.countP_map, List.countP_filter, List.countP_map]
  refine List.countP_congr fun c _ => ?_
  rw [Bool.and_comm]
  rfl

/-- What satisfies `q` satisfies `r` too, or does not. -/
theorem countP_split {α : Type} (q r : α → Bool) (l : List α) :
    l.countP q = l.countP (fun x => q x && r x) + l.countP (fun x => q x && !r x) := by
  rw [List.countP_eq_countP_filter_add l q r, List.countP_filter, List.countP_filter]

/-- Every task is of one class. -/
theorem countP_classes (tasks : List Task) : tasks.length =
    (tasks.countP fun t => t.priority = .human) + tasks.countP fun t => t.priority = .bot := by
  rw [List.length_eq_countP_add_countP fun t : Task => decide (t.priority = .human)]
  congr 1
  refine List.countP_congr fun t _ => ?_
  simp [Priority.ne_human]

section Settled

variable {processed : List Task}

/-- The drifts of a class, once every taken task has been worked through. -/
theorem processed_drifts (hp : ∀ b ∈ iteration, processed.Perm (madeFor b (calls.map Call.made)))
    (p : Priority) :
    (processed.countP fun t => t.priority = p) = calls.countP (Call.isDrift p) := by
  rw [(hp .recordDrift (by decide)).countP_eq, countP_madeFor]
  refine List.countP_congr fun c _ => ?_
  simp [Call.isDrift]

theorem processed_jitters
    (hp : ∀ b ∈ iteration, processed.Perm (madeFor b (calls.map Call.made))) :
    processed.length = calls.countP Call.isJitter := by
  rw [(hp .recordJitter (by decide)).length_eq, madeFor, List.length_map,
    ← List.countP_eq_length_filter, List.countP_map]
  rfl

/-- A task is missed at most once. -/
theorem misses_le (hp : ∀ b ∈ iteration, processed.Perm (madeFor b (calls.map Call.made)))
    (p : Priority) :
    calls.countP (Call.isMiss deadline p) ≤ processed.countP fun t => t.priority = p := by
  rw [(hp .recordMiss (by decide)).countP_eq, countP_madeFor]
  refine List.countP_mono_left fun c _ hc => ?_
  obtain ⟨hs, hq, _⟩ := of_decide_eq_true hc
  simp [hs, hq]

/-- No value was refused exactly if none of these is left. -/
theorem fits_iff : (∀ c ∈ calls, c.Fits high) ↔
    (∀ p, calls.countP (fun c => c.isDrift p && !c.driftFits high) = 0) ∧
      calls.countP (fun c => c.isJitter && !c.totalFits high) = 0 := by
  simp only [List.countP_eq_zero]
  constructor
  · refine fun h => ⟨fun p c hc hbad => ?_, fun c hc hbad => ?_⟩
    · obtain ⟨hd, hf⟩ := Bool.and_eq_true_iff.mp hbad
      rw [(h c hc).1 (of_decide_eq_true hd).1] at hf
      exact nomatch hf
    · obtain ⟨hj, hf⟩ := Bool.and_eq_true_iff.mp hbad
      rw [(h c hc).2 (of_decide_eq_true hj)] at hf
      exact nomatch hf
  · refine fun h c hc => ⟨fun hs => ?_, fun hs => ?_⟩
    · cases hf : c.driftFits high with
      | true => rfl
      | false => exact absurd (by simp [Call.isDrift, hs, hf]) (h.1 c.task.priority c hc)
    · cases hf : c.totalFits high with
      | true => rfl
      | false => exact absurd (by simp [Call.isJitter, hs, hf]) (h.2 c hc)

/-- **The store agrees** with what the pipeline did exactly if no histogram refused a value and no
    push dropped a task. -/
theorem Ledger.agrees_iff {hdr : Hdr} {dropped : Nat} (hl : Ledger deadline hdr.high m calls)
    (hp : ∀ b ∈ iteration, processed.Perm (madeFor b (calls.map Call.made))) :
    Agrees hdr m processed dropped ↔ (∀ c ∈ calls, c.Fits hdr.high) ∧ dropped = 0 := by
  -- the drifts of a class are those recorded and those refused
  have hlen : ∀ p, (m.drift p).len = calls.countP (Call.recorded hdr.high p) := fun p => by
    rw [Histogram.len, hl.drift p, List.length_map, List.countP_eq_length_filter]
  have hsplit : ∀ p, (processed.countP fun t => t.priority = p) = (m.drift p).len +
      calls.countP (fun c => c.isDrift p && !c.driftFits hdr.high) := fun p => by
    rw [processed_drifts hp p, hlen p]
    exact countP_split _ _ _
  have hjitter : processed.length = m.jitter.len +
      calls.countP (fun c => c.isJitter && !c.totalFits hdr.high) := by
    rw [processed_jitters hp, Histogram.len, hl.jitter, List.length_map,
      ← List.countP_eq_length_filter]
    exact countP_split _ _ _
  -- every task has one drift, of its class, and one jitter sample
  have hclasses := countP_classes processed
  have hover : (m.snapshot hdr).overflowCount.toNat = 0 := by
    rw [show (m.snapshot hdr).overflowCount = 0 from hl.overflow]
    rfl
  have hmiss : ∀ p, (m.deadlineMiss p).toNat ≤ processed.countP fun t => t.priority = p :=
    fun p => by
      rw [hl.misses p, UInt64.toNat_ofNat']
      exact Nat.le_trans (Nat.mod_le _ _) (misses_le hp p)
  have hhuman := hsplit .human
  have hbot := hsplit .bot
  rw [fits_iff]
  -- the equations above leave no room for a refused value, and none when nothing was refused
  constructor
  · intro h
    have h1 : (m.drift .human).len = processed.countP fun t => t.priority = .human :=
      h.samplesHuman
    have h2 : (m.drift .bot).len = processed.countP fun t => t.priority = .bot := h.samplesBot
    have h3 : (m.drift .human).len + (m.drift .bot).len = m.jitter.len :=
      (m.snapshot hdr).jitterRow_iff.mp h.jitterRow
    refine ⟨⟨fun p => ?_, ?_⟩, h.overflow.symm.trans hover⟩
    · cases p <;> omega
    · omega
  · rintro ⟨⟨hfits, hjfits⟩, hdrop⟩
    have h1 := hfits .human
    have h2 := hfits .bot
    have hlenH : (m.drift .human).len = processed.countP fun t => t.priority = .human := by omega
    have hlenB : (m.drift .bot).len = processed.countP fun t => t.priority = .bot := by omega
    refine ⟨hlenH, hlenB, ?_, ?_, hover.trans hdrop.symm, ?_⟩
    · exact Nat.le_trans (hmiss .human) (Nat.le_of_eq hlenH.symm)
    · exact Nat.le_trans (hmiss .bot) (Nat.le_of_eq hlenB.symm)
    · apply (m.snapshot hdr).jitterRow_iff.mpr
      show (m.drift .human).len + (m.drift .bot).len = m.jitter.len
      omega

end Settled

end RtsPipeline
