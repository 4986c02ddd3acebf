/-
  `rts-core/src/metrics.rs`: the histograms and counters the workers write, and what is read off
  them at the end of a run.

  A snapshot reads one field after the other while workers may still write.  The number of samples
  in the jitter row is not the length of the jitter histogram: `dump_csv` adds up the two drift
  counts there, which comes to the same only if no histogram has refused a value.
-/
import RtsPipeline.Core.Histogram
import RtsPipeline.Core.Task

namespace RtsPipeline

/-- `Metrics`. -/
structure Metrics where
  driftHuman : Histogram
  driftBot : Histogram
  jitter : Histogram
  deadlineMissHuman : UInt64
  deadlineMissBot : UInt64
  overflowCount : UInt64
deriving DecidableEq, Repr

namespace Metrics

/-- `Metrics::new`. -/
def new : Metrics :=
  { driftHuman := ⟨[]⟩
    driftBot := ⟨[]⟩
    jitter := ⟨[]⟩
    deadlineMissHuman := 0
    deadlineMissBot := 0
    overflowCount := 0 }

/-- `record_drift`. -/
def recordDrift (high : UInt64) (m : Metrics) (p : Priority) (d : Nat) : Metrics :=
  match p with
  | .human => { m with driftHuman := m.driftHuman.record high (nanos d) }
  | .bot => { m with driftBot := m.driftBot.record high (nanos d) }

/-- `record_jitter`. -/
def recordJitter (high : UInt64) (m : Metrics) (j : Nat) : Metrics :=
  { m with jitter := m.jitter.record high (nanos j) }

/-- `record_deadline_miss`. -/
def recordDeadlineMiss (m : Metrics) (p : Priority) : Metrics :=
  match p with
  | .human => { m with deadlineMissHuman := m.deadlineMissHuman + 1 }
  | .bot => { m with deadlineMissBot := m.deadlineMissBot + 1 }

end Metrics

/-- `MetricsSnapshot`. -/
structure MetricsSnapshot where
  driftHumanP50 : UInt64
  driftHumanP90 : UInt64
  driftHumanP99 : UInt64
  driftHumanP999 : UInt64
  driftBotP50 : UInt64
  driftBotP90 : UInt64
  driftBotP99 : UInt64
  driftBotP999 : UInt64
  jitterP50 : UInt64
  jitterP90 : UInt64
  jitterP99 : UInt64
  jitterP999 : UInt64
  deadlineMissHuman : UInt64
  deadlineMissBot : UInt64
  overflowCount : UInt64
  sampleCountHuman : Nat
  sampleCountBot : Nat
deriving DecidableEq, Repr

namespace Metrics

/-- `snapshot`. -/
def snapshot (hdr : Hdr) (m : Metrics) : MetricsSnapshot :=
  { driftHumanP50 := hdr.valueAtQuantile m.driftHuman .p50
    driftHumanP90 := hdr.valueAtQuantile m.driftHuman .p90
    driftHumanP99 := hdr.valueAtQuantile m.driftHuman .p99
    driftHumanP999 := hdr.valueAtQuantile m.driftHuman .p999
    driftBotP50 := hdr.valueAtQuantile m.driftBot .p50
    driftBotP90 := hdr.valueAtQuantile m.driftBot .p90
    driftBotP99 := hdr.valueAtQuantile m.driftBot .p99
    driftBotP999 := hdr.valueAtQuantile m.driftBot .p999
    jitterP50 := hdr.valueAtQuantile m.jitter .p50
    jitterP90 := hdr.valueAtQuantile m.jitter .p90
    jitterP99 := hdr.valueAtQuantile m.jitter .p99
    jitterP999 := hdr.valueAtQuantile m.jitter .p999
    deadlineMissHuman := m.deadlineMissHuman
    deadlineMissBot := m.deadlineMissBot
    overflowCount := m.overflowCount
    sampleCountHuman := m.driftHuman.len
    sampleCountBot := m.driftBot.len }

end Metrics

/-- What one row of the CSV file says. -/
structure CsvRow where
  metric : String
  p50 : UInt64
  p90 : UInt64
  p99 : UInt64
  p999 : UInt64
  sampleCount : Nat
deriving DecidableEq, Repr

/-- `writeln!(f, "<metric>,{},{},{},{},{}", ..)`. -/
def CsvRow.line (r : CsvRow) : String :=
  String.intercalate "," [r.metric, toString r.p50, toString r.p90, toString r.p99,
    toString r.p999, toString r.sampleCount]

/-- The rows `dump_csv` writes of a snapshot. -/
def MetricsSnapshot.rows (snap : MetricsSnapshot) : List CsvRow :=
  [{ metric := "drift_human"
     p50 := snap.driftHumanP50
     p90 := snap.driftHumanP90
     p99 := snap.driftHumanP99
     p999 := snap.driftHumanP999
     sampleCount := snap.sampleCountHuman },
   { metric := "drift_bot"
     p50 := snap.driftBotP50
     p90 := snap.driftBotP90
     p99 := snap.driftBotP99
     p999 := snap.driftBotP999
     sampleCount := snap.sampleCountBot },
   { metric := "jitter"
     p50 := snap.jitterP50
     p90 := snap.jitterP90
     p99 := snap.jitterP99
     p999 := snap.jitterP999
     -- the drift samples are counted here, not those of the jitter histogram
     sampleCount := snap.sampleCountHuman + snap.sampleCountBot }]

/-- What the jitter row counts. -/
theorem MetricsSnapshot.jitterRow_iff (snap : MetricsSnapshot) {k : Nat} :
    (∀ row ∈ snap.rows, row.metric = "jitter" → row.sampleCount = k) ↔
      snap.sampleCountHuman + snap.sampleCountBot = k := by
  simp [rows]

/-- `dump_csv`: the lines of the file. -/
def Metrics.dumpCsv (hdr : Hdr) (m : Metrics) : List String :=
  "metric,p50,p90,p99,p99.9,sample_count" :: (m.snapshot hdr).rows.map CsvRow.line

end RtsPipeline
