/-
  Degraded Mode over whole runs of `record_jitter` and `tick`: bounded recovery, and short bursts.

  The window and the automaton work together.  A sample is in the p99 of the next four ticks, as the
  fifth one clears its bucket before it reads the window; and the automaton changes its mode only
  after ten values in a row that ask for it.

  The buckets say what is in the window now, and both results are about what was in it at earlier
  ticks.  So a run is seen through its `intervals`: what each stretch between two ticks recorded,
  all of them, the latest first.  The window is the first five of this list (`Holds`), and the
  values of the past ticks can be traced back to it.

  Recovery takes four ticks to get the slow samples out of the window and ten more to be believed,
  and the last of the four is the first of the ten.  For the short bursts it is counted the other
  way: ten high values need a slow interval behind each, one interval is behind four values at most,
  and four and four is less than ten.

  1. `intervals` — what the intervals between the ticks recorded; the buckets are the last five.
  2. `Quiet` — a value below `RECOVER_NS`, and `High`, one above `ENTER_NS`: where each must come
     from.
  3. `Recovering` — the step and run lemma of `recovers_by_thirteen`.
  4. `Traced` — the values the ticks saw and the slow intervals behind the high ones, for
     `short_bursts_harmless`.
-/
import Mathlib.Data.List.GetD
import RtsPipeline.Core.Hysteresis
import RtsPipeline.Lib.Window

namespace RtsPipeline

open Lib

/-! ## The intervals between the ticks

The ring of buckets forgets, the list of the intervals does not.  `Holds` says which interval is in
which bucket, and from there on nobody speaks of positions. -/

/-- One call, seen by the intervals: the latest first, the open one at the head. -/
def recordInterval (high : UInt64) (past : List Histogram) : FailSafeOp → List Histogram
  | .recordJitter j => past.modifyHead fun h => h.record high (max (nanos j) 1)
  | .tick => .empty :: past

/-- What each inter-tick interval of a run recorded, the latest first. -/
def intervals (high : UInt64) (ops : List FailSafeOp) : List Histogram :=
  ops.foldl (recordInterval high) [.empty]

/-- What was recorded `k` ticks ago. -/
def period (past : List Histogram) (k : Nat) : Histogram := past.getD k .empty

/-- The bucket `k` places behind the current one holds the interval `k` ticks ago. -/
def RollingHistogram.Holds (w : RollingHistogram) (past : List Histogram) : Prop :=
  Recent w.buckets w.idx (period past)

theorem period_tick (past : List Histogram) :
    period (.empty :: past) = opened .empty (period past) := by
  funext k
  cases k with
  | zero => rfl
  | succ k => rfl

theorem period_record {past : List Histogram} (hne : past ≠ []) (f : Histogram → Histogram) :
    period (past.modifyHead f) = Function.update (period past) 0 (f (period past 0)) := by
  funext k
  cases past with
  | nil => exact absurd rfl hne
  | cons h rest =>
    cases k with
    | zero => rw [Function.update_self]; rfl
    | succ k => rw [Function.update_of_ne (Nat.succ_ne_zero k)]; rfl

namespace RollingHistogram

theorem holds_new : new.Holds [.empty] := by
  intro k
  show Histogram.empty = period [.empty] k
  cases (k : Nat) with
  | zero => rfl
  | succ k => rfl

theorem Holds.advance {w : RollingHistogram} {past : List Histogram} (h : w.Holds past) :
    w.advance.Holds (.empty :: past) := by
  rw [Holds, period_tick]
  exact h.rotate .empty

theorem Holds.record {w : RollingHistogram} {past : List Histogram} (h : w.Holds past)
    (hne : past ≠ []) (high ns : UInt64) :
    (w.record high ns).Holds (past.modifyHead fun h => h.record high (max ns 1)) := by
  have hcur : w.buckets w.idx = period past 0 := by
    have := h 0
    rwa [sub_zero] at this
  rw [Holds, period_record hne, ← hcur]
  exact h.write _

/-- The merged samples are those of the buckets. -/
theorem mem_merged {w : RollingHistogram} {v : UInt64} :
    v ∈ w.merged.samples ↔ ∃ i, v ∈ (w.buckets i).samples := by
  rw [merged_samples, List.mem_flatMap]
  exact exists_congr fun i => and_iff_right (List.mem_finRange i)

theorem Holds.mem_merged {w : RollingHistogram} {past : List Histogram} (h : w.Holds past)
    {v : UInt64} : v ∈ w.merged.samples ↔ ∃ k < ringLen, v ∈ (period past k).samples :=
  RollingHistogram.mem_merged.trans (h.exists_iff (P := fun b => v ∈ b.samples))

/-- The p99 of a window is `0`, or reported for a sample of one of its intervals. -/
theorem Holds.p99_cases {hdr : Hdr} (hr : hdr.Reports) {w : RollingHistogram}
    {past : List Histogram} (h : w.Holds past) :
    w.p99Ns hdr = 0 ∨
      ∃ k < ringLen, ∃ v ∈ (period past k).samples, w.p99Ns hdr = hdr.reported v := by
  unfold p99Ns
  split
  · exact Or.inl rfl
  · rename_i hne
    obtain ⟨v, hv, heq⟩ := hr w.merged .p99 (fun he => hne (by rw [Histogram.isEmpty, he]; rfl))
    obtain ⟨k, hk, hmem⟩ := h.mem_merged.mp hv
    exact Or.inr ⟨k, hk, v, hmem, heq⟩

end RollingHistogram

theorem recordInterval_ne_nil {high : UInt64} {past : List Histogram} (h : past ≠ [])
    (op : FailSafeOp) : recordInterval high past op ≠ [] := by
  cases op with
  | recordJitter j =>
    cases past with
    | nil => exact absurd rfl h
    | cons x xs => exact List.cons_ne_nil _ _
  | tick => exact List.cons_ne_nil _ _

/-! ## Bounded recovery

Four ticks until the last slow interval has left the window that is merged, and then ten until the
automaton has counted enough of them, the first of which is the last of the four. -/

/-- The value a duration is recorded as. -/
def sampleOf (j : Nat) : UInt64 := max (nanos j) 1

/-- The calls record nothing that is reported at `RECOVER_NS` or above. -/
def AllFast (hdr : Hdr) (ops : List FailSafeOp) : Prop :=
  ∀ j, .recordJitter j ∈ ops → sampleOf j ≤ hdr.high → hdr.reported (sampleOf j) < recoverNs

/-- A value below `RECOVER_NS` moves the automaton towards normal mode. -/
theorem Hysteresis.evaluate_fast (h : Hysteresis) {p99 : UInt64} (hp : p99 < recoverNs) :
    (h.evaluate p99).isDegraded = false ∨
      h.isDegraded = true ∧
        (h.evaluate p99).dwellCounter.toNat = h.dwellCounter.toNat + 1 := by
  have ht : beyond true p99 = true := decide_eq_true hp
  have hf : beyond false p99 = false := by
    refine decide_eq_false (UInt64.not_lt.mpr ?_)
    exact UInt64.le_of_lt (UInt64.lt_trans hp (by decide))
  have hstep := Dwell.step_towards_false (N := dwellTicks.toNat) (s := h.toDwell) ht hf
  rw [← toDwell_evaluate] at hstep
  exact hstep

/-- `n` ticks after a tick, with fast samples only: the last `n` intervals hold nothing else, and
    from the fourth tick on the automaton is on its way.

    `dwell` is a bound on the counter and no equation, as the counter also counts what it had
    before.  When it is full the mode is normal, and a low value does not change that. -/
structure Recovering (hdr : Hdr) (c : FailSafeController) (past : List Histogram) (n : Nat) :
    Prop where
  holds : c.rolling.Holds past
  opened : past ≠ []
  fast : ∀ k ≤ n, ∀ v ∈ (period past k).samples, hdr.reported v < recoverNs
  dwell : 3 < n → c.isDegraded = false ∨ n ≤ c.hysteresis.dwellCounter.toNat + 3

/-- Right after a tick nothing was recorded in the open interval. -/
theorem recovering_start (hdr : Hdr) {c : FailSafeController} {past : List Histogram}
    (h : c.rolling.Holds (.empty :: past)) : Recovering hdr c (.empty :: past) 0 where
  holds := h
  opened := List.cons_ne_nil _ _
  fast := by
    intro k hk v hv
    obtain rfl := Nat.le_zero.mp hk
    exact absurd hv List.not_mem_nil
  dwell := fun h => absurd h (by decide)

/-- A fast sample goes into the current interval, and the others stay as they were. -/
theorem Recovering.record {hdr : Hdr} {c : FailSafeController} {past : List Histogram} {n : Nat}
    (h : Recovering hdr c past n) {j : Nat}
    (hj : sampleOf j ≤ hdr.high → hdr.reported (sampleOf j) < recoverNs) :
    Recovering hdr (c.recordJitter hdr j) (recordInterval hdr.high past (.recordJitter j)) n where
  holds := h.holds.record h.opened hdr.high (nanos j)
  opened := recordInterval_ne_nil h.opened _
  fast := by
    intro k hk v hv
    rw [recordInterval, period_record h.opened] at hv
    by_cases hk0 : k = 0
    · subst hk0
      rw [Function.update_self] at hv
      rcases Histogram.mem_record hv with hv | ⟨rfl, hhigh⟩
      · exact h.fast 0 hk v hv
      · exact hj hhigh
    · rw [Function.update_of_ne hk0] at hv
      exact h.fast k hk v hv
  dwell := h.dwell

theorem Recovering.tick {hdr : Hdr} (hr : hdr.Reports) {c : FailSafeController}
    {past : List Histogram} {n : Nat} (h : Recovering hdr c past n) :
    Recovering hdr (c.tick hdr) (.empty :: past) (n + 1) := by
  have hholds := h.holds.advance
  have hfast : ∀ k ≤ n + 1, ∀ v ∈ (period (.empty :: past) k).samples,
      hdr.reported v < recoverNs := by
    intro k hk v hv
    cases k with
    | zero => exact absurd hv List.not_mem_nil
    | succ k => exact h.fast k (Nat.le_of_succ_le_succ hk) v hv
  refine ⟨hholds, List.cons_ne_nil _ _, hfast, fun hn => ?_⟩
  -- the five buckets hold the last `n + 1` intervals at most, all of them fast
  have hp : c.rolling.advance.p99Ns hdr < recoverNs := by
    rcases hholds.p99_cases hr with h0 | ⟨k, hk, v, hv, heq⟩
    · rw [h0]; decide
    · rw [heq]
      exact hfast k (Nat.le_trans (Nat.le_of_lt_succ hk) hn) v hv
  rcases c.hysteresis.evaluate_fast hp with hoff | ⟨hon, hcount⟩
  · exact Or.inl hoff
  · apply Or.inr
    show n + 1 ≤ (c.hysteresis.evaluate _).dwellCounter.toNat + 3
    rw [hcount]
    by_cases h3 : 3 < n
    · rcases h.dwell h3 with hoff | hle
      · exact absurd (hon.symm.trans hoff) (by decide)
      · omega
    · omega

/-- **Run lemma** for `Recovering`. -/
theorem Recovering.run {hdr : Hdr} (hr : hdr.Reports) {ops : List FailSafeOp} :
    ∀ {c : FailSafeController} {past : List Histogram} {n : Nat}, Recovering hdr c past n →
    AllFast hdr ops →
    Recovering hdr (c.performAll hdr ops) (ops.foldl (recordInterval hdr.high) past)
      (n + ops.count .tick) := by
  induction ops with
  | nil => intro c past n h _; exact h
  | cons op ops ih =>
    intro c past n h hfast
    have hrest : AllFast hdr ops := fun j hj => hfast j (List.mem_cons_of_mem _ hj)
    cases op with
    | recordJitter j =>
      have := ih (h.record (hfast j List.mem_cons_self)) hrest
      rw [List.count_cons_of_ne (by simp)]
      exact this
    | tick =>
      have := ih (h.tick hr) hrest
      rw [List.count_cons_self, show n + (ops.count .tick + 1) = n + 1 + ops.count .tick by omega]
      exact this

/-- The buckets hold the intervals after every run. -/
theorem holds_run (hdr : Hdr) (ops : List FailSafeOp) :
    ∀ {c : FailSafeController} {past : List Histogram}, past ≠ [] → c.rolling.Holds past →
    (c.performAll hdr ops).rolling.Holds (ops.foldl (recordInterval hdr.high) past) := by
  induction ops with
  | nil => intro c past _ h; exact h
  | cons op ops ih =>
    intro c past hne h
    refine ih (recordInterval_ne_nil hne op) ?_
    cases op with
    | recordJitter j => exact h.record hne hdr.high (nanos j)
    | tick => exact h.advance

/-- **Bounded recovery.**  Whatever a run did up to some tick, thirteen ticks with fast samples only
    bring the controller back to normal mode, and it stays there as long as they are fast.  From the
    tick on the history is known, so nothing has to be assumed of what was recorded before it. -/
theorem recovers_by_thirteen (hdr : Hdr) (hr : hdr.Reports) (before after : List FailSafeOp)
    (hfast : AllFast hdr after) (hticks : ringLen - 2 + dwellTicks.toNat ≤ after.count .tick) :
    (FailSafeController.new.performAll hdr (before ++ .tick :: after)).isDegraded = false := by
  have hnew : FailSafeController.new.rolling.Holds [.empty] := RollingHistogram.holds_new
  have hstart := holds_run hdr before (List.cons_ne_nil _ _) hnew
  have hrec := (recovering_start hdr (c := (FailSafeController.new.performAll hdr before).tick hdr)
    hstart.advance).run hr hfast
  have heq : FailSafeController.new.performAll hdr (before ++ .tick :: after) =
      ((FailSafeController.new.performAll hdr before).tick hdr).performAll hdr after := by
    rw [FailSafeController.performAll, List.foldl_append]
    rfl
  rw [heq]
  have h13 : 13 ≤ after.count .tick := hticks
  rcases hrec.dwell (by omega) with hoff | hle
  · exact hoff
  · -- the counter cannot have reached `DWELL_TICKS`
    have hlt : _ < 10 := Hysteresis.dwellCounter_lt
      (((FailSafeController.new.performAll hdr before).tick hdr).performAll hdr after).hysteresis
    omega

/-- Ten slow seconds and the recovery from them. -/
theorem recovers_by_thirteen_slow :
    Hdr.program.Reports ∧
    (FailSafeController.new.performAll .program
      (((List.replicate 10 [.recordJitter 5000000, .tick]).flatten) ++
        .tick :: (.recordJitter 100000 :: List.replicate 13 .tick))).isDegraded = false := by
  refine ⟨Hdr.program_reports, recovers_by_thirteen .program Hdr.program_reports _ _ ?_ (by decide)⟩
  intro j hj _
  obtain rfl : j = 100000 := by simpa using hj
  decide

/-! ## Short bursts

For degraded mode there must be ten high readings in a row.  Each of them has a slow interval among
the four before it, so two slow intervals explain eight readings at most. -/

/-- The interval recorded a sample that is reported above `ENTER_NS`. -/
def Slow (hdr : Hdr) (h : Histogram) : Prop := ∃ v ∈ h.samples, enterNs < hdr.reported v

instance (hdr : Hdr) : DecidablePred (Slow hdr) := fun h =>
  inferInstanceAs (Decidable (∃ v ∈ h.samples, enterNs < hdr.reported v))

/-- The number of slow intervals. -/
def slowCount (hdr : Hdr) (past : List Histogram) : Nat := past.countP fun h => Slow hdr h

/-- A further call never makes a slow interval fast. -/
theorem slowCount_recordInterval (hdr : Hdr) (past : List Histogram) (op : FailSafeOp) :
    slowCount hdr past ≤ slowCount hdr (recordInterval hdr.high past op) := by
  cases op with
  | tick => exact (List.sublist_cons_self _ _).countP_le
  | recordJitter j =>
    cases past with
    | nil => exact Nat.le_refl _
    | cons h rest =>
      -- an interval that is slow stays so when more is recorded in it
      have hmono : Slow hdr h → Slow hdr (h.record hdr.high (max (nanos j) 1)) := by
        rintro ⟨v, hv, hslow⟩
        refine ⟨v, ?_, hslow⟩
        unfold Histogram.record
        split
        · exact List.mem_append_left _ hv
        · exact hv
      show List.countP _ (h :: rest) ≤ List.countP _ (_ :: rest)
      rw [List.countP_cons, List.countP_cons]
      by_cases hs : Slow hdr h
      · simp [hs, hmono hs]
      · simp [hs]

theorem slowCount_foldl (hdr : Hdr) (ops : List FailSafeOp) :
    ∀ past : List Histogram, slowCount hdr past ≤
      slowCount hdr (ops.foldl (recordInterval hdr.high) past) := by
  induction ops with
  | nil => exact fun _ => Nat.le_refl _
  | cons op ops ih => exact fun past => (slowCount_recordInterval hdr past op).trans (ih _)

/-- A slow interval is counted in what comes before it no more. -/
theorem slowCount_drop {hdr : Hdr} {past : List Histogram} {n i : Nat} (hni : n ≤ i)
    (hi : Slow hdr (period past i)) :
    slowCount hdr (past.drop (i + 1)) < slowCount hdr (past.drop n) := by
  have hlt : i < past.length := by
    apply Nat.not_le.mp
    intro hle
    obtain ⟨v, hv, _⟩ := hi
    rw [period, List.getD_eq_default _ _ hle] at hv
    exact absurd hv List.not_mem_nil
  have hget : period past i = past[i] := List.getD_eq_getElem _ _ hlt
  have hdrop : past.drop i = past[i] :: past.drop (i + 1) := List.drop_eq_getElem_cons hlt
  have hsub : (past.drop i).Sublist (past.drop n) := by
    rw [show i = n + (i - n) by omega, ← List.drop_drop]
    exact List.drop_sublist _ _
  have hle : slowCount hdr (past.drop i) ≤ slowCount hdr (past.drop n) := hsub.countP_le
  rw [hdrop, slowCount, List.countP_cons_of_pos (by rw [← hget]; exact decide_eq_true hi)] at hle
  exact hle

/-- What the ticks of a run saw, the latest first: the automaton has followed these values, and
    behind each high one there is a slow interval, ended by that tick or one of the three before.

    The values are not in the code's state any more when they are needed; they are an argument of
    the invariant, and `followed` says that the automaton's state is what they make of it. -/
structure Traced (hdr : Hdr) (c : FailSafeController) (past : List Histogram) (ps : List UInt64) :
    Prop where
  holds : c.rolling.Holds past
  opened : past ≠ []
  followed : c.hysteresis = Hysteresis.after ps
  behind : ∀ k p, ps[k]? = some p → enterNs < p →
    ∃ i, k < i ∧ i ≤ k + 4 ∧ Slow hdr (period past i)

theorem traced_new (hdr : Hdr) : Traced hdr .new [.empty] [] where
  holds := RollingHistogram.holds_new
  opened := List.cons_ne_nil _ _
  followed := rfl
  behind := fun _ _ h => nomatch h

theorem Traced.record {hdr : Hdr} {c : FailSafeController} {past : List Histogram}
    {ps : List UInt64} (h : Traced hdr c past ps) (j : Nat) :
    Traced hdr (c.recordJitter hdr j) (recordInterval hdr.high past (.recordJitter j)) ps where
  holds := h.holds.record h.opened hdr.high (nanos j)
  opened := recordInterval_ne_nil h.opened _
  followed := h.followed
  behind := by
    -- only the open interval changes
    intro k p hk hp
    obtain ⟨i, hki, hik, hslow⟩ := h.behind k p hk hp
    refine ⟨i, hki, hik, ?_⟩
    rw [recordInterval, period_record h.opened, Function.update_of_ne (by omega)]
    exact hslow

/-- The new reading, if it is above zero, is that of a sample in one of the intervals merged; an
    older one has its slow interval one further back. -/
theorem Traced.tick {hdr : Hdr} (hr : hdr.Reports) {c : FailSafeController}
    {past : List Histogram} {ps : List UInt64} (h : Traced hdr c past ps) :
    Traced hdr (c.tick hdr) (.empty :: past) (c.rolling.advance.p99Ns hdr :: ps) := by
  have hholds := h.holds.advance
  refine ⟨hholds, List.cons_ne_nil _ _, ?_, fun k p hk hp => ?_⟩
  · show c.hysteresis.evaluate _ = (Hysteresis.after ps).evaluate _
    rw [h.followed]
  · cases k with
    | zero =>
      obtain rfl := Option.some.inj hk
      rcases hholds.p99_cases hr with h0 | ⟨i, hi, v, hv, heq⟩
      · rw [h0] at hp
        exact absurd hp (by decide)
      · cases i with
        | zero => exact absurd hv List.not_mem_nil
        | succ i =>
          exact ⟨i + 1, Nat.succ_pos i, Nat.le_trans (Nat.le_of_lt_succ hi) (by decide), v, hv,
            heq ▸ hp⟩
    | succ k =>
      obtain ⟨i, hki, hik, hslow⟩ := h.behind k p hk hp
      exact ⟨i + 1, by omega, by omega, hslow⟩

/-- **Run lemma** for `Traced`. -/
theorem Traced.run {hdr : Hdr} (hr : hdr.Reports) (ops : List FailSafeOp) :
    ∀ {c : FailSafeController} {past : List Histogram} {ps : List UInt64},
    Traced hdr c past ps →
    ∃ ps', Traced hdr (c.performAll hdr ops) (ops.foldl (recordInterval hdr.high) past) ps' := by
  induction ops with
  | nil => exact fun h => ⟨_, h⟩
  | cons op ops ih =>
    intro c past ps h
    cases op with
    | recordJitter j => exact ih (h.record j)
    | tick => exact ih (h.tick hr)

/-- Degraded Mode takes three slow intervals: ten high values in a row cannot be had from two, as
    one of them is in four windows at most. -/
theorem Traced.three_slow {hdr : Hdr} {c : FailSafeController} {past : List Histogram}
    {ps : List UInt64} (h : Traced hdr c past ps) (hdeg : c.isDegraded = true) :
    3 ≤ slowCount hdr past := by
  -- the tick that turned it on, and the ten values before it
  have hmode : (Dwell.after Hysteresis.beyond dwellTicks.toNat ps).mode = true := by
    rw [← Hysteresis.isDegraded_after, ← h.followed]
    exact hdeg
  obtain ⟨j, p, rest, hdrop, hch, hoff⟩ := Dwell.exists_change hmode
  obtain ⟨hlen, hhigh, _⟩ :=
    (Hysteresis.changed_cons_iff p rest).mp ((Hysteresis.changed_iff_changes _).mpr hch)
  rw [Hysteresis.isDegraded_after, hoff] at hhigh
  have hslow : ∀ k < 10, ∃ i, j + k < i ∧ i ≤ j + k + 4 ∧ Slow hdr (period past i) := by
    intro k hk
    have hlt : k < (p :: rest).length := Nat.lt_of_lt_of_le hk hlen
    have hget : ps[j + k]? = some (p :: rest)[k] := by
      rw [← List.getElem?_drop, hdrop]
      exact List.getElem?_eq_getElem hlt
    exact h.behind (j + k) _ hget (hhigh k hk _ (List.getElem?_eq_getElem hlt))
  obtain ⟨a, _, ha, hsa⟩ := hslow 0 (by decide)
  obtain ⟨b, hb, hb', hsb⟩ := hslow 4 (by decide)
  obtain ⟨d, hd, _, hsd⟩ := hslow 8 (by decide)
  have h1 := slowCount_drop (Nat.zero_le a) hsa
  have h2 := slowCount_drop (show a + 1 ≤ b by omega) hsb
  have h3 := slowCount_drop (show b + 1 ≤ d by omega) hsd
  rw [List.drop_zero] at h1
  omega

/-- **Short bursts.**  A run with at most two slow intervals is never in Degraded Mode.

    To come into Degraded Mode takes ten high readings in a row, and behind each there is a slow
    interval that is no more than four ticks old.  So two slow intervals are too few. -/
theorem short_bursts_harmless (hdr : Hdr) (hr : hdr.Reports) (ops : List FailSafeOp)
    (hbursts : slowCount hdr (intervals hdr.high ops) ≤ 2) :
    ∀ before, before <+: ops →
      (FailSafeController.new.performAll hdr before).isDegraded = false := by
  rintro before ⟨rest, rfl⟩
  obtain ⟨ps, htraced⟩ := Traced.run hr before (traced_new hdr)
  apply Bool.eq_false_iff.mpr
  intro hdeg
  have h3 := htraced.three_slow hdeg
  have hmono := slowCount_foldl hdr rest (before.foldl (recordInterval hdr.high) [.empty])
  rw [intervals, List.foldl_append] at hbursts
  omega

/-- Two bursts of five milliseconds, ten ticks apart. -/
theorem short_bursts_harmless_two :
    slowCount .program (intervals Hdr.program.high
      (.recordJitter 5000000 :: List.replicate 10 .tick ++
        .recordJitter 5000000 :: List.replicate 10 .tick)) = 2 ∧
    (FailSafeController.new.performAll .program
      (.recordJitter 5000000 :: List.replicate 10 .tick ++
        .recordJitter 5000000 :: List.replicate 10 .tick)).isDegraded = false :=
  ⟨by decide, short_bursts_harmless .program Hdr.program_reports _ (by decide) _
    (List.prefix_refl _)⟩

end RtsPipeline
