/-
  The metrics stores of the two pipelines against what the pipelines did.

  Both stores are written by the same calls, so both agree with their pipeline under the same
  condition.  Where it fails, a refused value is missing from a histogram and from its sample count,
  and an overflow is missing from `overflow_count`, which nothing increments.

  "No worker is inside an iteration" is the moment to compare at: between two calls of one iteration
  the store holds a part of a task, and that is no disagreement.  The condition is about what the
  run has done and not about the store, the calls made and the pushes made; each pipeline's own
  account of these is in its ledger, and here they are set side by side.
-/
import RtsPipeline.Async.Run
import RtsPipeline.Threaded.Calls

namespace RtsPipeline.Equivalence

open Lib

/-- **The metrics agree** with what the pipeline did.  In every run of either pipeline, when no
    worker is inside an iteration, the store says what was processed and dropped exactly if every
    recorded drift and jitter is in the range of the histograms and no push found its queue at
    capacity.

    The ledger says what a list of calls leaves in the store, and the balance which calls were made
    for the tasks processed.  The two sides differ by what the histograms refused and by the counter
    that nobody raises. -/
theorem metrics_agree_iff (fromStr : Text → Option Json) (hdr : Hdr) (n C m D : Nat)
    (tls : List (Threaded.SystemEvent n)) (t : Threaded.System n)
    (ht : run (Threaded.System.step fromStr hdr.high) (Threaded.System.start n C) tls = some t)
    (tquiet : t.Quiet) (als : List (Async.RunEvent m)) (a : Async.Run m)
    (ha : run (Async.Run.step fromStr hdr.high) (Async.Run.start m D) als = some a)
    (aquiet : a.Quiet) :
    (Agrees hdr t.metrics t.taken
        (dropped (observe (Threaded.System.step fromStr hdr.high)
          (Threaded.System.pushings fromStr) (Threaded.System.start n C) tls)) ↔
      (∀ c ∈ observe (Threaded.System.step fromStr hdr.high) Threaded.System.calls
        (Threaded.System.start n C) tls, c.Fits hdr.high) ∧
        ∀ p ∈ observe (Threaded.System.step fromStr hdr.high)
          (Threaded.System.pushings fromStr) (Threaded.System.start n C) tls, p.full = false) ∧
    (Agrees hdr a.metrics (a.sys.pool.taken Async.Entry.task)
        (dropped (observe (Async.Run.step fromStr hdr.high) (Async.Run.pushings fromStr)
          (Async.Run.start m D) als)) ↔
      (∀ c ∈ observe (Async.Run.step fromStr hdr.high) Async.Run.calls
        (Async.Run.start m D) als, c.Fits hdr.high) ∧
        ∀ p ∈ observe (Async.Run.step fromStr hdr.high) (Async.Run.pushings fromStr)
          (Async.Run.start m D) als, p.full = false) :=
  ⟨Threaded.System.agrees_iff ht tquiet, Async.Run.agrees_iff ha aquiet⟩

/-- One payload worked through by each pipeline. -/
theorem metrics_agree_iff_one :
    let raw := "\x7b\"user\":\"u\",\"server_name\":\"w\"\x7d".toList
    let fromStr := fun _ => some (Json.obj [("user", .str "u"), ("server_name", .str "w")])
    let tls : List (Threaded.SystemEvent 1) :=
      [.dispatch raw 1 1, .work 0 2, .work 0 3, .work 0 3, .work 0 3, .work 0 3, .work 0 3,
        .work 0 3]
    let als : List (Async.RunEvent 1) :=
      [.dispatch raw 1 1, .work 0 2, .work 0 2, .work 0 2, .work 0 3, .work 0 4, .work 0 5,
        .work 0 6, .work 0 6, .work 0 6, .work 0 6]
    ∃ t a,
      run (Threaded.System.step fromStr Hdr.program.high) (Threaded.System.start 1 1) tls =
        some t ∧
      run (Async.Run.step fromStr Hdr.program.high) (Async.Run.start 1 1) als = some a ∧
      Agrees Hdr.program t.metrics t.taken 0 ∧
      Agrees Hdr.program a.metrics (a.sys.pool.taken Async.Entry.task) 0 := by
  intro raw fromStr tls als
  obtain ⟨t, ht, htw⟩ := Option.map_eq_some_iff.mp
    (show (run (Threaded.System.step fromStr Hdr.program.high) (Threaded.System.start 1 1) tls).map
      (fun t => t.workers 0) = some .popping from rfl)
  obtain ⟨a, ha, haw⟩ := Option.map_eq_some_iff.mp
    (show (run (Async.Run.step fromStr Hdr.program.high) (Async.Run.start 1 1) als).map
      (fun a => a.sys.pool.slots 0) = some none from rfl)
  have tquiet : t.Quiet := fun i => by
    obtain rfl : i = 0 := Subsingleton.elim _ _
    rw [htw]
    rfl
  have aquiet : a.Quiet := fun i => by
    obtain rfl : i = 0 := Subsingleton.elim _ _
    exact haw
  obtain ⟨hthreaded, hasync⟩ :=
    metrics_agree_iff fromStr Hdr.program 1 1 1 1 tls t ht tquiet als a ha aquiet
  exact ⟨t, a, ht, ha, hthreaded.mpr ⟨by decide, by decide⟩, hasync.mpr ⟨by decide, by decide⟩⟩

/-- A queue of capacity one drops a task and `overflow_count` stays zero; a task that waited longer
    than the histograms reach is processed and not counted. -/
theorem metrics_disagree :
    let raw := "\x7b\"user\":\"u\",\"server_name\":\"w\"\x7d".toList
    let fromStr := fun _ => some (Json.obj [("user", .str "u"), ("server_name", .str "w")])
    let tls : List (Threaded.SystemEvent 1) := [.dispatch raw 1 1, .dispatch raw 2 2]
    let als : List (Async.RunEvent 1) :=
      [.dispatch raw 1 1, .work 0 2, .work 0 2, .work 0 2, .work 0 70000000000,
        .work 0 70000000001, .work 0 70000000001, .work 0 70000000001, .work 0 70000000001,
        .work 0 70000000001, .work 0 70000000001]
    ∃ t a,
      run (Threaded.System.step fromStr Hdr.program.high) (Threaded.System.start 1 1) tls =
        some t ∧ t.Quiet ∧
      ¬ Agrees Hdr.program t.metrics t.taken
        (dropped (observe (Threaded.System.step fromStr Hdr.program.high)
          (Threaded.System.pushings fromStr) (Threaded.System.start 1 1) tls)) ∧
      run (Async.Run.step fromStr Hdr.program.high) (Async.Run.start 1 1) als = some a ∧ a.Quiet ∧
      ¬ Agrees Hdr.program a.metrics (a.sys.pool.taken Async.Entry.task)
        (dropped (observe (Async.Run.step fromStr Hdr.program.high) (Async.Run.pushings fromStr)
          (Async.Run.start 1 1) als)) := by
  intro raw fromStr tls als
  obtain ⟨t, ht, hts⟩ := Option.map_eq_some_iff.mp
    (show (run (Threaded.System.step fromStr Hdr.program.high) (Threaded.System.start 1 1) tls).map
      (fun t => (t.workers 0, t.metrics.overflowCount)) = some (.popping, 0) from rfl)
  obtain ⟨a, ha, has⟩ := Option.map_eq_some_iff.mp
    (show (run (Async.Run.step fromStr Hdr.program.high) (Async.Run.start 1 1) als).map
      (fun a => (a.sys.pool.slots 0, a.metrics.driftHuman.len,
        (a.sys.pool.taken Async.Entry.task).countP fun t => t.priority = .human)) =
      some (none, 0, 1) from rfl)
  obtain ⟨htw, hover⟩ := Prod.mk.inj hts
  obtain ⟨haw, hrest⟩ := Prod.mk.inj has
  obtain ⟨hlen, htaken⟩ := Prod.mk.inj hrest
  -- the threads evicted a task that no counter knows; the async drift of 70 s is out of range
  refine ⟨t, a, ht, fun i => ?_, fun h => ?_, ha, fun i => ?_, fun h => ?_⟩
  · obtain rfl : i = 0 := Subsingleton.elim _ _
    rw [htw]
    rfl
  · have hdropped : t.metrics.overflowCount.toNat = 1 := h.overflow
    rw [hover] at hdropped
    exact absurd hdropped (by decide)
  · obtain rfl : i = 0 := Subsingleton.elim _ _
    exact haw
  · have hsamples : a.metrics.driftHuman.len =
      (a.sys.pool.taken Async.Entry.task).countP fun t => t.priority = .human := h.samplesHuman
    rw [hlen, htaken] at hsamples
    exact absurd hsamples (by decide)

end RtsPipeline.Equivalence
