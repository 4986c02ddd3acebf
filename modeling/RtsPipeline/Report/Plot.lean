/-
  `plot_bar` and `plot_cdf` of `scripts/plot_latency.py`: what the runs of the pipelines look like.

  The workers record drifts in nanoseconds, `dump_csv` prints four percentiles of them in decimal,
  the script reads these as doubles, divides them by a thousand and leaves out what is zero: a
  histogram without samples.  No drift is recorded as zero, so nothing else is left out.

  1. `plotBar`, `plotCdf` — the code, up to the library that draws.
  2. `Hdr.Dependable` — what is relied on of the histograms.
  3. `Dumped` — the file of a run of either pipeline.
  4. `plots_of_runs` — the plots show the runs.
-/
import RtsPipeline.Async.Run
import RtsPipeline.Report.Load
import RtsPipeline.Threaded.Calls

namespace RtsPipeline.Report

open Lib

/-! ## The plots

The two functions as they are written, over what the loader gives them.  What they draw is a list of
bars and a list of curves. -/

/-- `_ns_to_us`. -/
def nsToUs (val : Binary64) : Binary64 := val.divPos 1000

/-- What is left of the metric of a class without `drift_`. -/
def className : Priority → List Char
  | .human => "human".toList
  | .bot => "bot".toList

/-- The metric of a class. -/
def driftMetric (p : Priority) : List Char := "drift_".toList ++ className p

/-- `("drift_human", "drift_bot")`. -/
def classes : List Priority := [.human, .bot]

/-- `[m[p] for p in ("p50", "p90", "p99", "p999")]`. -/
def Percentiles.values (m : Percentiles) : List Binary64 := [m.p50, m.p90, m.p99, m.p999]

/-- A group of bars: where, of which run, and how high. -/
structure Bars where
  axis : Priority
  label : List Char
  heights : List Binary64
deriving DecidableEq

/-- `plot_bar`, of the runs that have both metrics. -/
def plotBar (data : Loaded) : List Bars :=
  let runs := data.filter fun run =>
    classes.all fun p => (run.2.lookup (some (driftMetric p))).isSome
  classes.flatMap fun p => runs.flatMap fun run =>
    (run.2.lookup (some (driftMetric p))).toList.map fun m =>
      { axis := p, label := run.1, heights := m.values.map nsToUs }

/-- A curve and its points. -/
structure Curve where
  label : List Char
  points : List (Binary64 × Binary64)
deriving DecidableEq

/-- `[0.50, 0.90, 0.99, 0.999]`. -/
def cumulative : List Binary64 :=
  [.ofRat (1 / 2), .ofRat (9 / 10), .ofRat (99 / 100), .ofRat (999 / 1000)]

/-- `f"{stem} / {metric.replace('drift_', '')}"`. -/
def curveLabel (stem : List Char) (p : Priority) : List Char := stem ++ " / ".toList ++ className p

/-- `plot_cdf`. -/
def plotCdf (data : Loaded) : List Curve :=
  data.flatMap fun run => classes.flatMap fun p =>
    match run.2.lookup (some (driftMetric p)) with
    | none => []
    | some m =>
      let pairs := ((m.values.map nsToUs).zip cumulative).filter fun pair => pair.1.isPos
      if pairs.length < 2 then [] else [{ label := curveLabel run.1 p, points := pairs }]

/-! ## What is relied on

Nothing is assumed about how the histograms round, only that they do not invent anything: a quantile
is the reported value of some sample, zero stays zero and what is above zero stays above it.  The
bound of `small` is what makes a double exact. -/

/-- The quantiles of the report, from the lowest to the highest. -/
def quantiles : List Quantile := [.p50, .p90, .p99, .p999]

/-- What `value_at_quantile` does: when nothing was recorded it is zero, else a value reported for
    one of the samples.  What is above zero is reported so, what is in range is reported below
    `2 ^ 53`, and higher quantiles are no lower. -/
structure Dependable (hdr : Hdr) : Prop where
  empty : ∀ q, hdr.valueAtQuantile Histogram.empty q = 0
  reports : hdr.Reports
  positive : ∀ v, 0 < v → 0 < hdr.reported v
  small : ∀ v, v ≤ hdr.high → (hdr.reported v).toNat < 2 ^ 53
  mono : ∀ h, (quantiles.map (hdr.valueAtQuantile h)).Pairwise (· ≤ ·)

/-- The histograms of the program. -/
theorem program_dependable : Dependable Hdr.program where
  empty := fun q => by
    show highestEquivalent (List.getD (List.mergeSort [] _) _ 0) = 0
    rw [List.mergeSort_nil]
    rfl
  reports := Hdr.program_reports
  positive := fun v hv => UInt64.lt_of_lt_of_le hv (le_highestEquivalent v)
  small := fun v hv => by
    have hhigh : v.toNat < 2 ^ 36 :=
      Nat.lt_of_le_of_lt (UInt64.le_iff_toNat_le.mp hv) (by decide)
    show (highestEquivalent v).toNat < 2 ^ 53
    by_cases h : v < 2048
    · rw [highestEquivalent, if_pos h]
      omega
    have hv' : 2048 ≤ v.toNat := UInt64.le_iff_toNat_le.mp (UInt64.not_lt.mp h)
    have hlog : v.toNat.log2 < 36 := (Nat.log2_lt (by omega)).mpr hhigh
    have hlow : 2 ^ (v.toNat.log2 - 10) - 1 < 2 ^ 36 := by
      have := Nat.pow_lt_pow_right (a := 2) (by decide) (show v.toNat.log2 - 10 < 36 by omega)
      omega
    rw [toNat_highestEquivalent hv']
    exact Nat.lt_trans (Nat.or_lt_two_pow hhigh hlow) (by decide)
  mono := fun h => by
    let sorted := h.samples.mergeSort fun a b => decide (a ≤ b)
    have hlength : sorted.length = h.samples.length := List.length_mergeSort _
    have hsorted : sorted.Pairwise (· ≤ ·) := List.pairwise_mergeSort' (· ≤ ·) h.samples
    -- the ranks grow with the quantiles
    have hle : ∀ {i j : Nat}, i ≤ j → j < h.samples.length →
        highestEquivalent (sorted.getD i 0) ≤ highestEquivalent (sorted.getD j 0) := by
      intro i j hij hj
      have hi : i < sorted.length := by omega
      have hj : j < sorted.length := by omega
      refine highestEquivalent_mono ?_
      rw [List.getD_eq_getElem?_getD, List.getD_eq_getElem?_getD, List.getElem?_eq_getElem hi,
        List.getElem?_eq_getElem hj, Option.getD_some, Option.getD_some]
      rcases Nat.lt_or_eq_of_le hij with hlt | rfl
      · exact List.pairwise_iff_getElem.mp hsorted i j hi hj hlt
      · exact UInt64.le_refl _
    by_cases hne : h.samples.length = 0
    · have hempty : h = .empty := congrArg Histogram.mk (List.length_eq_zero_iff.mp hne)
      rw [hempty]
      decide +kernel
    simp only [quantiles, List.map_cons, List.map_nil, List.pairwise_cons, List.mem_cons,
      List.not_mem_nil, or_false, forall_eq_or_imp, forall_eq, IsEmpty.forall_iff, implies_true,
      List.Pairwise.nil, and_true]
    refine ⟨⟨hle ?_ ?_, hle ?_ ?_, hle ?_ ?_⟩, ⟨hle ?_ ?_, hle ?_ ?_⟩, hle ?_ ?_⟩
    all_goals
      simp only [Quantile.fraction]
      omega

/-! ## The runs

A file holds what the metrics held when it was written, and by `Ledger` the metrics hold what the
workers' calls have put there.  From here on it makes no difference which pipeline it was. -/

/-- What one of the pipelines has in its metrics at some point of a run, and the calls that its
    workers have made. -/
inductive Dumped (fromStr : Text → Option Json) (hdr : Hdr) : Metrics → List Call → Prop
  | threaded {n C : Nat} {ls : List (Threaded.SystemEvent n)} {t : Threaded.System n}
      (h : run (Threaded.System.step fromStr hdr.high) (Threaded.System.start n C) ls = some t) :
      Dumped fromStr hdr t.metrics (observe (Threaded.System.step fromStr hdr.high)
        Threaded.System.calls (Threaded.System.start n C) ls)
  | async {m C : Nat} {ls : List (Async.RunEvent m)} {a : Async.Run m}
      (h : run (Async.Run.step fromStr hdr.high) (Async.Run.start m C) ls = some a) :
      Dumped fromStr hdr a.metrics (observe (Async.Run.step fromStr hdr.high) Async.Run.calls
        (Async.Run.start m C) ls)

variable {fromStr : Text → Option Json} {hdr : Hdr} {m : Metrics} {calls : List Call}

/-- The metrics are what the calls wrote. -/
theorem Dumped.ledger (h : Dumped fromStr hdr m calls) :
    ∃ deadline, Ledger deadline hdr.high m calls := by
  cases h with
  | threaded h => exact ⟨_, (Threaded.System.kept_of_run h).ledger⟩
  | async h => exact ⟨_, (Async.Run.kept_of_run h).ledger⟩

/-- A file that `dump_csv` wrote, and what it was made of. -/
structure Dump (fromStr : Text → Option Json) (hdr : Hdr) where
  stem : List Char
  metrics : Metrics
  calls : List Call
  made : Dumped fromStr hdr metrics calls

/-- The drifts of a class that were recorded. -/
def recordedDrifts (high : UInt64) (p : Priority) (calls : List Call) : Histogram :=
  { samples := (calls.filter (Call.recorded high p)).map fun c => nanos c.drift }

theorem Dumped.drift (h : Dumped fromStr hdr m calls) (p : Priority) :
    m.drift p = recordedDrifts hdr.high p calls := by
  obtain ⟨deadline, hledger⟩ := h.ledger
  have hsamples := hledger.drift p
  cases hm : m.drift p
  rw [hm] at hsamples
  exact congrArg Histogram.mk hsamples

/-- No drift is recorded as zero. -/
theorem nanos_pos (d : Nat) : 0 < nanos d := by
  unfold nanos
  split
  · have hmax : ∀ v : UInt64, max v 1 = if v ≤ 1 then 1 else v := fun _ => rfl
    rw [hmax]
    split
    · decide
    · rename_i hbig
      exact UInt64.lt_trans (by decide) (UInt64.not_le.mp hbig)
  · decide

theorem recordedDrifts_mem {high : UInt64} {p : Priority} {v : UInt64}
    (h : v ∈ (recordedDrifts high p calls).samples) : 0 < v ∧ v ≤ high := by
  obtain ⟨c, hc, rfl⟩ := List.mem_map.mp h
  have hrecorded := (List.mem_filter.mp hc).2
  exact ⟨nanos_pos _, of_decide_eq_true (Bool.and_eq_true_iff.mp hrecorded).2⟩

/-! ## What is drawn of a value

The printed integer is below `2 ^ 53`, so it is read exactly, and the one rounding is that of the
division.  Rounding keeps order, so the bars of a class do not go down; and it does not reach zero
from above, so no class of which there is a sample drops out of the curves. -/

/-- A percentile in microseconds. -/
def microseconds (v : UInt64) : ℚ := binary64.round (v.toNat / 1000)

/-- What is read of a value below `2 ^ 53` and divided. -/
theorem nsToUs_ofRat {v : UInt64} (h : v.toNat < 2 ^ 53) :
    nsToUs (.ofRat v.toNat) = .finite (microseconds v) := by
  have hquot : (0 : ℚ) ≤ v.toNat / 1000 := div_nonneg (Nat.cast_nonneg _) (by norm_num)
  have hle : (v.toNat : ℚ) / 1000 ≤ v.toNat := div_le_self (Nat.cast_nonneg _) (by norm_num)
  have hround : binary64.round ((v.toNat : ℚ) / 1000) ≤ v.toNat :=
    (binary64.round_mono hquot hle).trans_eq (binary64.round_natCast h (by decide))
  have hlimit : binary64.round ((v.toNat : ℚ) / 1000) < 2 ^ 1024 := by
    have hsize : (v.toNat : ℚ) < 2 ^ 53 := by exact_mod_cast h
    exact hround.trans_lt (hsize.trans_le (pow_le_pow_right₀ one_le_two (by decide)))
  rw [nsToUs, Binary64.ofRat_natCast h, Binary64.divPos, Binary64.ofRat_of_nonneg hquot hlimit]
  rfl

theorem microseconds_zero : microseconds 0 = 0 := by
  have hround := binary64.round_natCast (K := ℚ) (n := 0) (by decide) (by decide)
  rw [Nat.cast_zero] at hround
  rw [microseconds, show ((0 : UInt64).toNat : ℚ) = 0 from Nat.cast_zero, zero_div, hround]

/-- A nanosecond is not lost. -/
theorem microseconds_pos {v : UInt64} (h : 0 < v) : 0 < microseconds v := by
  have hkept : binary64.round ((1 : Nat) * 2 ^ (-10 : ℤ) : ℚ) = (1 : Nat) * 2 ^ (-10 : ℤ) :=
    binary64.round_exact (by decide) (by decide)
  have hone : (1 : ℚ) ≤ v.toNat := Nat.one_le_cast.mpr (UInt64.lt_iff_toNat_lt.mp h)
  have hbelow : ((1 : Nat) * 2 ^ (-10 : ℤ) : ℚ) ≤ v.toNat / 1000 := by
    norm_num
    linarith
  have hround := binary64.round_mono (by positivity) hbelow
  rw [hkept] at hround
  exact lt_of_lt_of_le (by positivity) hround

theorem microseconds_mono {v w : UInt64} (h : v ≤ w) : microseconds v ≤ microseconds w := by
  refine binary64.round_mono (div_nonneg (Nat.cast_nonneg _) (by norm_num)) ?_
  exact div_le_div_of_nonneg_right (Nat.cast_le.mpr (UInt64.le_iff_toNat_le.mp h)) (by norm_num)

section Values

variable {p : Priority}

/-- What is reported of a class is zero only if nothing was recorded. -/
theorem Dependable.pos_iff (h : Dependable hdr) (q : Quantile) :
    0 < hdr.valueAtQuantile (recordedDrifts hdr.high p calls) q ↔
      (recordedDrifts hdr.high p calls).samples ≠ [] := by
  constructor
  · rintro hpos hempty
    have hdrifts : recordedDrifts hdr.high p calls = .empty := congrArg Histogram.mk hempty
    rw [hdrifts, h.empty] at hpos
    exact absurd hpos (by decide)
  · intro hne
    obtain ⟨v, hv, heq⟩ := h.reports _ q hne
    rw [heq]
    exact h.positive v (recordedDrifts_mem hv).1

/-- It is read exactly. -/
theorem Dependable.exact (h : Dependable hdr) (q : Quantile) :
    (hdr.valueAtQuantile (recordedDrifts hdr.high p calls) q).toNat < 2 ^ 53 := by
  by_cases hne : (recordedDrifts hdr.high p calls).samples = []
  · have hdrifts : recordedDrifts hdr.high p calls = .empty := congrArg Histogram.mk hne
    rw [hdrifts, h.empty]
    decide
  · obtain ⟨v, hv, heq⟩ := h.reports _ q hne
    rw [heq]
    exact h.small v (recordedDrifts_mem hv).2

end Values

/-! ## What is loaded and drawn of the runs

The loader folds over the files and over the rows of each; none of them fails, as every cell is
either empty or the decimal numeral of an integer.  Then the plots are maps over what was loaded. -/

/-- What is loaded of the file of a snapshot. -/
def loadedOf (snap : MetricsSnapshot) : Dict (Option (List Char)) Percentiles :=
  snap.rows.map fun r => (some r.metric.toList, ofRow r)

/-- Steps that do not fail. -/
theorem foldlM_some {α β : Type} {f : β → α → Option β} {g : β → α → β} {l : List α}
    (h : ∀ x ∈ l, ∀ b, f b x = some (g b x)) (b : β) : l.foldlM f b = some (l.foldl g b) := by
  induction l generalizing b with
  | nil => rfl
  | cons x l ih =>
    rw [List.foldlM_cons, h x List.mem_cons_self]
    exact ih (fun y hy => h y (List.mem_cons_of_mem x hy)) (g b x)

/-- **A directory of dumped files** is loaded file by file. -/
theorem load_dumps {dir : List (Dump fromStr hdr)} (names : (dir.map Dump.stem).Nodup)
    (own : "benchmark_summary".toList ∉ dir.map Dump.stem) :
    loadCsvMetrics (dir.map fun file => (file.stem, file.metrics.csvFile hdr)) =
      some (dir.map fun file => (file.stem, loadedOf (file.metrics.snapshot hdr))) := by
  rw [loadCsvMetrics, List.foldlM_map, foldlM_some (g := fun data file =>
    setItem data file.stem (loadedOf (file.metrics.snapshot hdr)))]
  · exact congrArg some (foldl_setItem Dump.stem _ names)
  · intro file hfile data
    have hne : file.stem ≠ "benchmark_summary".toList := fun heq =>
      own (heq ▸ List.mem_map_of_mem hfile)
    rw [if_neg hne, loadFile_dump, Option.map_some]
    exact congrArg some (if_neg (List.cons_ne_nil _ _))

/-- The row of a class. -/
theorem lookup_loadedOf (h : Dumped fromStr hdr m calls) (p : Priority) :
    ∃ row, (loadedOf (m.snapshot hdr)).lookup (some (driftMetric p)) = some row ∧
      row.values = quantiles.map fun q =>
        .ofRat (hdr.valueAtQuantile (recordedDrifts hdr.high p calls) q).toNat := by
  have hhuman : (some (driftMetric .human) == some "drift_human".toList) = true := by decide
  have hbot : (some (driftMetric .bot) == some "drift_bot".toList) = true := by decide
  have hother : (some (driftMetric .bot) == some "drift_human".toList) = false := by decide
  rw [← h.drift p]
  cases p with
  | human =>
    rw [loadedOf, MetricsSnapshot.rows, List.map_cons, List.lookup_cons, hhuman]
    exact ⟨_, rfl, rfl⟩
  | bot =>
    rw [loadedOf, MetricsSnapshot.rows, List.map_cons, List.map_cons, List.lookup_cons, hother,
      List.lookup_cons, hbot]
    exact ⟨_, rfl, rfl⟩

/-- The heights of a class, in microseconds. -/
def heights (hdr : Hdr) (p : Priority) (calls : List Call) : List ℚ :=
  quantiles.map fun q => microseconds (hdr.valueAtQuantile (recordedDrifts hdr.high p calls) q)

/-- A curve for each class of which a drift was recorded. -/
def curvesOf (hdr : Hdr) (stem : List Char) (calls : List Call) : List Curve :=
  classes.flatMap fun p =>
    if (recordedDrifts hdr.high p calls).samples = [] then []
    else [{ label := curveLabel stem p
            points := ((heights hdr p calls).map Binary64.finite).zip cumulative }]

section Heights

variable {p : Priority} (dependable : Dependable hdr)

include dependable

theorem drawn {row : Percentiles} (hvalues : row.values = quantiles.map fun q =>
    .ofRat (hdr.valueAtQuantile (recordedDrifts hdr.high p calls) q).toNat) :
    row.values.map nsToUs = (heights hdr p calls).map Binary64.finite := by
  rw [hvalues, heights, List.map_map, List.map_map]
  exact List.map_congr_left fun q _ => nsToUs_ofRat (dependable.exact q)

theorem heights_sorted : (heights hdr p calls).Pairwise (· ≤ ·) := by
  have hmono := dependable.mono (recordedDrifts hdr.high p calls)
  rw [List.pairwise_map] at hmono
  rw [heights, List.pairwise_map]
  exact hmono.imp microseconds_mono

theorem heights_pos (hne : (recordedDrifts hdr.high p calls).samples ≠ []) :
    ∀ x ∈ heights hdr p calls, 0 < x := by
  intro x hx
  obtain ⟨q, _, rfl⟩ := List.mem_map.mp hx
  exact microseconds_pos ((dependable.pos_iff q).mpr hne)

theorem heights_zero (hempty : (recordedDrifts hdr.high p calls).samples = []) :
    ∀ x ∈ heights hdr p calls, x = 0 := by
  intro x hx
  obtain ⟨q, _, rfl⟩ := List.mem_map.mp hx
  have hdrifts : recordedDrifts hdr.high p calls = .empty := congrArg Histogram.mk hempty
  rw [hdrifts, dependable.empty]
  exact microseconds_zero

end Heights

/-- Points at zero are left out. -/
theorem points_zero {xs : List ℚ} (h : ∀ x ∈ xs, x = 0) (ys : List Binary64) :
    ((xs.map Binary64.finite).zip ys).filter (fun pair => pair.1.isPos) = [] := by
  refine List.filter_eq_nil_iff.mpr fun pair hpair => ?_
  obtain ⟨x, hx, heq⟩ := List.mem_map.mp (List.of_mem_zip hpair).1
  rw [← heq, h x hx]
  decide

/-- All others are kept. -/
theorem points_pos {xs : List ℚ} (h : ∀ x ∈ xs, 0 < x) (ys : List Binary64) :
    ((xs.map Binary64.finite).zip ys).filter (fun pair => pair.1.isPos) =
      (xs.map Binary64.finite).zip ys := by
  refine List.filter_eq_self.mpr fun pair hpair => ?_
  obtain ⟨x, hx, heq⟩ := List.mem_map.mp (List.of_mem_zip hpair).1
  rw [← heq]
  exact decide_eq_true (h x hx)

theorem length_points (p : Priority) :
    (((heights hdr p calls).map Binary64.finite).zip cumulative).length = 4 := by
  rw [List.length_zip, List.length_map, heights, List.length_map]
  rfl

/-- **The plots show the runs.**  Of any files that `dump_csv` wrote of runs of either pipeline, the
    bars are the percentiles of the drifts that were recorded, in microseconds and rounded once; and
    there is a curve for each class of which a drift was recorded, with all its four points, none
    of them at zero and none to the left of the one before.

    A dump is written from the metrics of a run, and these are what its calls wrote
    (`Dumped.ledger`).  It is read back as it was, number by number, and a class without samples is
    the only one at zero. -/
theorem plots_of_runs (dependable : Dependable hdr) (dir : List (Dump fromStr hdr))
    (names : (dir.map Dump.stem).Nodup)
    (own : "benchmark_summary".toList ∉ dir.map Dump.stem) :
    ∃ data,
      loadCsvMetrics (dir.map fun file => (file.stem, file.metrics.csvFile hdr)) = some data ∧
      plotBar data = classes.flatMap (fun p => dir.map fun file =>
        { axis := p
          label := file.stem
          heights := (heights hdr p file.calls).map Binary64.finite }) ∧
      plotCdf data = dir.flatMap (fun file => curvesOf hdr file.stem file.calls) ∧
      ∀ file ∈ dir, ∀ p, (heights hdr p file.calls).Pairwise (· ≤ ·) ∧
        ((recordedDrifts hdr.high p file.calls).samples ≠ [] →
          ∀ x ∈ heights hdr p file.calls, 0 < x) := by
  -- loaded file by file; then the bars, the curves and what they look like
  refine ⟨_, load_dumps names own, ?_, ?_, ?_⟩
  · rw [plotBar, List.filter_eq_self.mpr]
    · refine List.flatMap_congr fun p _ => ?_
      rw [List.flatMap_map, List.map_eq_flatMap]
      refine List.flatMap_congr fun file _ => ?_
      obtain ⟨row, hrow, hvalues⟩ := lookup_loadedOf file.made p
      rw [hrow, Option.toList_some, List.map_singleton, drawn dependable hvalues]
    -- no run is left out of the bars, as each has a row of both classes
    · intro run hrun
      obtain ⟨file, _, rfl⟩ := List.mem_map.mp hrun
      refine List.all_eq_true.mpr fun p _ => ?_
      obtain ⟨row, hrow, _⟩ := lookup_loadedOf file.made p
      rw [hrow]
      rfl
  · rw [plotCdf, List.flatMap_map]
    refine List.flatMap_congr fun file _ => List.flatMap_congr fun p _ => ?_
    obtain ⟨row, hrow, hvalues⟩ := lookup_loadedOf file.made p
    simp only [hrow, drawn dependable hvalues]
    -- without a sample all points are at zero, and no curve is drawn
    by_cases hempty : (recordedDrifts hdr.high p file.calls).samples = []
    · rw [points_zero (heights_zero dependable hempty), if_pos hempty]
      rfl
    · have hlength :
          ¬ (((heights hdr p file.calls).map Binary64.finite).zip cumulative).length < 2 := by
        rw [length_points]
        decide
      rw [points_pos (heights_pos dependable hempty), if_neg hempty, if_neg hlength]
  · intro file _ p
    exact ⟨heights_sorted dependable, heights_pos dependable⟩

/-- One payload of a person, worked through by each pipeline. -/
theorem plots_of_runs_one :
    let raw := "\x7b\"user\":\"u\",\"server_name\":\"w\"\x7d".toList
    let fromStr := fun _ => some (Json.obj [("user", .str "u"), ("server_name", .str "w")])
    let tls : List (Threaded.SystemEvent 1) := [.dispatch raw 1 1, .work 0 1501, .work 0 1501]
    let als : List (Async.RunEvent 1) :=
      [.dispatch raw 1 1, .work 0 2, .work 0 2, .work 0 2, .work 0 2001, .work 0 2001]
    ∃ (t : Threaded.System 1) (a : Async.Run 1) (dir : List (Dump fromStr Hdr.program)),
      run (Threaded.System.step fromStr Hdr.program.high) (Threaded.System.start 1 1) tls =
        some t ∧
      run (Async.Run.step fromStr Hdr.program.high) (Async.Run.start 1 1) als = some a ∧
      dir.map (fun file => (file.stem, file.metrics)) =
        [("t".toList, t.metrics), ("a".toList, a.metrics)] ∧
      ∃ data,
        loadCsvMetrics (dir.map fun file => (file.stem, file.metrics.csvFile Hdr.program)) =
          some data ∧
        plotCdf data = [
          { label := "t / human".toList
            points := (List.replicate 4 (Binary64.finite (3 / 2))).zip cumulative },
          { label := "a / human".toList
            points := (List.replicate 4 (Binary64.finite 2)).zip cumulative }] := by
  intro raw fromStr tls als
  obtain ⟨t, ht⟩ : ∃ t, run (Threaded.System.step fromStr Hdr.program.high)
      (Threaded.System.start 1 1) tls = some t := ⟨_, rfl⟩
  obtain ⟨a, ha⟩ : ∃ a, run (Async.Run.step fromStr Hdr.program.high) (Async.Run.start 1 1) als =
      some a := ⟨_, rfl⟩
  refine ⟨t, a, [⟨"t".toList, _, _, .threaded ht⟩, ⟨"a".toList, _, _, .async ha⟩], ht, ha, rfl, ?_⟩
  obtain ⟨data, hdata, _, hcdf, _⟩ := plots_of_runs program_dependable
    [⟨"t".toList, _, _, .threaded ht⟩, ⟨"a".toList, _, _, .async ha⟩]
    (show ["t".toList, "a".toList].Nodup by decide)
    (show "benchmark_summary".toList ∉ ["t".toList, "a".toList] by decide)
  refine ⟨data, hdata, hcdf.trans ?_⟩
  show curvesOf Hdr.program "t".toList (observe (Threaded.System.step fromStr Hdr.program.high)
      Threaded.System.calls (Threaded.System.start 1 1) tls) ++
    (curvesOf Hdr.program "a".toList (observe (Async.Run.step fromStr Hdr.program.high)
      Async.Run.calls (Async.Run.start 1 1) als) ++ []) = _
  decide +kernel

end RtsPipeline.Report
