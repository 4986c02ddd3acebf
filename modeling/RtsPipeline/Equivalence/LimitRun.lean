/-
  A run of either pipeline that ends at its limit: what has become of the payloads it accepted.

  When ingest returns, both pipelines raise the cancellation, and a worker that sees it leaves
  whatever is queued.  So a payload is worked through or still queued when the summary is printed,
  and a queue that was empty when ingest returned stays so.

  Both halves are put together from what is known of each pipeline.  The account of the tasks says
  that what was accepted is queued or dequeued, since nothing was shed or evicted; the workers are a
  crew, so what was dequeued has had all its calls once nobody is inside an iteration; and nobody
  is, when the summary is printed: the threaded pipeline has joined its workers, the async one has
  waited until every sender was dropped.  That nothing is queued cannot be had: nobody drains the
  queues, and `limit_run_leaves_task` is a run that leaves a task in either.

  1. `AtLimit` — the payloads a schedule dispatches are those of an ingest that reached its limit.
  2. `Settled` — where every accepted payload is when the summary is printed, for each pipeline.
  3. `limit_run_settles` — both; `limit_run_leaves_task` — a payload that is left behind.
-/
import RtsPipeline.Async.Ingest
import RtsPipeline.Async.Run
import RtsPipeline.Threaded.Calls
import RtsPipeline.Threaded.Ingest

namespace RtsPipeline

open Lib

/-- The accepted payloads of a schedule, whose dispatches `raw?` picks out. -/
theorem filterMap_accepted {ℓ : Type} {fromStr : Text → Option Json} (raw? : ℓ → Option Text)
    (payload : ℓ → Option Event) (h : ∀ l, payload l = (raw? l).bind (accepted? fromStr))
    (ls : List ℓ) : ls.filterMap payload = (ls.filterMap raw?).filterMap (accepted? fromStr) := by
  rw [List.filterMap_filterMap]
  exact List.filterMap_congr fun l _ => h l

namespace Threaded.System

variable {n : Nat} {fromStr : Text → Option Json} {high : UInt64} {C : Nat} {s s' : System n}
  {ls : List (SystemEvent n)}

/-- The payload a step dispatches. -/
def raw? : SystemEvent n → Option Text
  | .dispatch raw _ _ => some raw
  | _ => none

/-- Ingest handed `calls` to its sink and returned `LimitReached`, and these are dispatched. -/
def AtLimit (limit : Nat) (calls : List Text) (ls : List (SystemEvent n)) : Prop :=
  ls.filterMap raw? = calls ∧ ∃ cancel conns g,
    runSse (some limit) (.start cancel) conns = (some (.ok .limitReached), g) ∧ g.calls = calls

/-- Where the accepted payloads are: worked through, which means that every call of the iteration
    was made, or queued; and nothing is queued that was not when ingest returned. -/
structure Settled (fromStr : Text → Option Json) (high : UInt64) (C : Nat) (payloads : List Text)
    (ls : List (SystemEvent n)) (s : System n) : Prop where
  accepted : s.log.accepted.map Task.event =
    (payloads.filterMap (accepted? fromStr)).map Event.intoOwned
  somewhere : ∀ b ∈ iteration, s.log.accepted.Perm (madeFor b
    ((observe (step fromStr high) calls (start n C) ls).map Call.made) ++ s.queue.queued)
  drained : ∀ pre post t, ls = pre ++ .ingestOk :: post →
    run (step fromStr high) (start n C) pre = some t → t.queue.queued = [] → s.queue.queued = []

/-- After ingest has returned an empty queue stays empty. -/
theorem drained_step {e : SystemEvent n} (hm : s.main ≠ .ingesting) (hq : s.queue.queued = [])
    (h : s.step fromStr high e = some s') :
    s'.main ≠ .ingesting ∧ s'.queue.queued = [] := by
  have hdispatch : ∀ raw now nowNs, e ≠ .dispatch raw now nowNs := by
    rintro raw now nowNs rfl
    rw [step, if_neg hm] at h
    cases h
  cases stepped_of_step h with
  | shed raw now nowNs event accepted bot degraded => exact absurd rfl (hdispatch raw now nowNs)
  | pushed raw now nowNs event q o accepted push => exact absurd rfl (hdispatch raw now nowNs)
  | pop i now t q at_ pop =>
    rw [PriorityQueue.pop_eq_none.mpr hq] at pop
    cases pop
  | ingestOk phase => exact absurd phase hm
  | ingestErr phase => exact absurd phase hm
  | request phase exited => exact ⟨fun h => (by cases h), hq⟩
  | release phase => exact ⟨fun h => (by cases h), hq⟩
  | join phase stopped => exact ⟨fun h => (by cases h), hq⟩
  | receive phase => exact ⟨fun h => (by cases h), hq⟩
  | _ => exact ⟨hm, hq⟩

/-- Once the summary is printed no worker is inside an iteration. -/
theorem quiet_of_finished (h : run (step fromStr high) (start n C) ls = some s)
    {entries : Option (List (String × UInt64))} (printed : s.main = .finished entries) :
    s.Quiet := by
  have hd : Delivered s :=
    run_invariant (fun _ _ _ hI hs => hI.step (stepped_of_step hs)) ls _ s (delivered_start C) h
  have hph := hd.phase
  rw [printed] at hph
  intro i
  rw [hph.1.1 i]
  rfl

theorem settled (h : run (step fromStr high) (start n C) ls = some s)
    {entries : Option (List (String × UInt64))} (printed : s.main = .finished entries)
    (noOverflow : s.log.evicted = []) (noShed : s.log.shed = []) :
    Settled fromStr high C (ls.filterMap raw?) ls s where
  accepted := by
    have hpayload := filterMap_accepted raw? (payload (n := n) fromStr)
      (fun e => by cases e <;> rfl) ls
    have hacc := accepted_run ls h
    rw [hpayload] at hacc
    exact hacc
  somewhere := fun b hb => by
    have hstart : Conserved (start n C) := List.Perm.refl []
    have hc : Conserved s :=
      run_invariant (fun _ _ _ hI hs => hI.step (stepped_of_step hs)) ls _ s hstart h
    have hmade := (kept_of_run h).balance.settled (quiet_of_finished h printed) hb
    have hplaces : s.log.accepted.Perm (s.queue.queued ++ s.taken) := by
      have := hc
      rw [Conserved, noShed, noOverflow] at this
      exact this
    exact (hplaces.trans List.perm_append_comm).trans (hmade.append_right _)
  drained := fun pre post t hls ht hq => by
    rw [hls] at h
    refine (run_invariant_after (I := fun s : System n => s.main ≠ .ingesting ∧
      s.queue.queued = []) (fun _ _ _ hI hs => drained_step hI.1 hI.2 hs) h ht ?_).2
    intro t' hok
    rw [step] at hok
    split at hok
    · obtain rfl := Option.some.inj hok
      exact ⟨fun h => (by cases h), hq⟩
    · cases hok

end Threaded.System

namespace Async

namespace Pool

variable {α : Type} {m : Nat}

/-- Only a push puts something into an empty lane. -/
theorem Stepped.stays_empty {s s' : Pool α m} {e : PoolEvent α m} (h : Stepped s e s')
    (he : ∀ lane task, e ≠ .push lane task) (hq : ∀ k, (s.lanes k).queue = []) (k : Lane) :
    (s'.lanes k).queue = [] := by
  cases h with
  -- a push is excluded, and a pop takes from a queue that is empty; the rest is about wake-ups
  | push lane task => exact absurd rfl (he lane task)
  | pop i lane task rest focus pc queue =>
    rw [hq lane] at queue
    exact nomatch queue
  | permit i lane focus pc permit =>
    exact (lane_kept _ k).1.trans (hq k)
  | register i lane focus pc permit =>
    exact (lane_kept _ k).1.trans (hq k)
  | woken i lane focus pc notified =>
    exact (lane_kept _ k).1.trans (hq k)
  | lose i lane task focus =>
    exact (lane_kept _ k).1.trans (hq k)
  | leaveHi i focus =>
    exact (lane_kept _ k).1.trans (hq k)
  | leaveLo i focus =>
    exact (lane_kept _ k).1.trans (hq k)
  | _ => exact hq k

end Pool

namespace Run

variable {m : Nat} {fromStr : Text → Option Json} {high : UInt64} {C : Nat} {s s' : Run m}
  {ls : List (RunEvent m)}

/-- The payload a step dispatches. -/
def raw? : RunEvent m → Option Text
  | .dispatch raw _ _ => some raw
  | _ => none

/-- Ingest handed `calls` to its sink and returned `LimitReached`, and these are dispatched. -/
def AtLimit (limit : Nat) (calls : List Text) (ls : List (RunEvent m)) : Prop :=
  ls.filterMap raw? = calls ∧ ∃ client cancel conns delivered g,
    runSse client (some limit) (.start cancel) conns = (some (.ok (.limitReached delivered)), g) ∧
      g.calls = calls

/-- The tasks in the two lanes, the high one first. -/
def queued (s : Run m) : List Task :=
  ((s.sys.pool.lanes .hi).queue ++ (s.sys.pool.lanes .lo).queue).map Entry.task

/-- Where the accepted payloads are: worked through, which means that every call of the iteration
    was made, or queued; and nothing is queued that was not when ingest returned. -/
structure Settled (fromStr : Text → Option Json) (high : UInt64) (C : Nat) (payloads : List Text)
    (ls : List (RunEvent m)) (s : Run m) : Prop where
  accepted : s.sys.accepted.map (fun e => e.task.event) =
    (payloads.filterMap (accepted? fromStr)).map Event.intoOwned
  somewhere : ∀ b ∈ iteration, (s.sys.accepted.map Entry.task).Perm (madeFor b
    ((observe (step fromStr high) calls (start m C) ls).map Call.made) ++ s.queued)
  drained : ∀ pre post t, ls = pre ++ .ingestOk :: post →
    run (step fromStr high) (start m C) pre = some t → t.queued = [] → s.queued = []

theorem queued_eq_nil : s.queued = [] ↔ ∀ k, (s.sys.pool.lanes k).queue = [] := by
  rw [queued, List.map_eq_nil_iff, List.append_eq_nil_iff]
  constructor
  · rintro ⟨hhi, hlo⟩ k
    cases k with
    | hi => exact hhi
    | lo => exact hlo
  · exact fun h => ⟨h .hi, h .lo⟩

/-- After ingest has returned empty lanes stay empty. -/
theorem drained_step {e : RunEvent m} (hm : s.main ≠ .ingesting) (hq : s.queued = [])
    (h : s.step fromStr high e = some s') : s'.main ≠ .ingesting ∧ s'.queued = [] := by
  have hdispatch : ∀ raw now nowNs, e ≠ .dispatch raw now nowNs := by
    rintro raw now nowNs rfl
    rw [step, if_neg hm] at h
    cases h
  -- whatever the system does now, it is no dispatch
  have hsys : ∀ {l : SystemEvent m} {sys : System m}, e.inner = some l →
      s.sys.step fromStr l = some sys → ∀ k, (sys.pool.lanes k).queue = [] := by
    intro l sys hl hstep
    have hq' := queued_eq_nil.mp hq
    cases System.stepped_of_step hstep with
    | dispatch raw now nowNs _ done =>
      cases e with
      | dispatch raw' now' nowNs' => exact absurd rfl (hdispatch raw' now' nowNs')
      | _ => cases hl
    | tick p99 => exact hq'
    | cancel => exact hq'
    | work i pool moved =>
      exact (Pool.step_eq_some.mp moved).stays_empty (fun _ _ hw => by cases hw) hq'
  cases stepped_of_step h with
  | outside _ l sys inner moved quiet => exact ⟨hm, queued_eq_nil.mpr (hsys inner moved)⟩
  | move i now sys clocks moved next => exact ⟨hm, queued_eq_nil.mpr (hsys rfl moved)⟩
  | call i now sys clocks c moved next => exact ⟨hm, queued_eq_nil.mpr (hsys rfl moved)⟩
  | ingestOk sys moved phase => exact absurd phase hm
  | ingestErr phase => exact absurd phase hm
  | request phase room => exact ⟨fun h => (by cases h), hq⟩
  | release phase => exact ⟨fun h => (by cases h), hq⟩
  | join phase stopped => exact ⟨fun h => (by cases h), hq⟩
  | receive phase => exact ⟨fun h => (by cases h), hq⟩
  | print entries phase => exact ⟨fun h => (by cases h), hq⟩
  | count wiki rest running waiting => exact ⟨hm, hq⟩
  | answer reply rest running waiting sorted => exact ⟨hm, hq⟩
  | stop empty exited dropped => exact ⟨hm, hq⟩

/-- With nothing shed or evicted, an accepted payload is queued or was dequeued. -/
theorem accepted_perm (h : run (step fromStr high) (start m C) ls = some s)
    (noOverflow : ∀ k, s.sys.pool.log.evicted k = []) (noShed : s.sys.shed = []) :
    (s.sys.accepted.map Entry.task).Perm (s.queued ++ s.sys.pool.taken Entry.task) := by
  have hsys := system_run ls h
  have hplaced : System.Placed s.sys :=
    run_invariant (fun _ _ _ hI hs => hI.step hs) _ _ s.sys (System.placed_start C) hsys
  obtain ⟨ps, hps, _⟩ := System.pool_run _ hsys
  have hlaned : Pool.Laned s.sys.pool :=
    run_invariant (fun _ _ _ hI hs => Pool.Laned.step hI (Pool.step_eq_some.mp hs)) ps _ _
      (Pool.laned_start C) hps
  -- entry by entry: nothing shed and nothing evicted leaves two places in each lane
  have hentries : s.sys.accepted.Perm
      ((s.sys.pool.lanes .hi).queue ++ (s.sys.pool.lanes .lo).queue ++
        s.sys.pool.log.dequeued.map fun d => d.2.2) := by
    refine List.perm_iff_count.mpr fun e => ?_
    have hsplit := hplaced.split.count_eq e
    have hhi := (hlaned .hi).count_eq e
    have hlo := (hlaned .lo).count_eq e
    have hd := (System.dequeuedFrom_perm s.sys.pool.log).count_eq e
    rw [noShed] at hsplit
    rw [noOverflow] at hhi hlo
    simp only [List.count_append, List.nil_append] at hsplit hhi hlo hd ⊢
    omega
  have := hentries.map Entry.task
  rw [List.map_append, List.map_map] at this
  exact this

theorem settled (h : run (step fromStr high) (start m C) ls = some s)
    {entries : Option (List (String × UInt64))} {metrics : Metrics}
    (printed : s.main = .finished entries metrics)
    (noOverflow : ∀ k, s.sys.pool.log.evicted k = []) (noShed : s.sys.shed = []) :
    Settled fromStr high C (ls.filterMap raw?) ls s where
  accepted := by
    have hpayload := filterMap_accepted raw?
      (fun e : RunEvent m => e.inner.bind (System.payload fromStr))
      (fun e => by cases e <;> rfl) ls
    have hacc := System.accepted_run _ (system_run ls h)
    rw [List.filterMap_filterMap, hpayload] at hacc
    exact hacc
  somewhere := fun b hb => by
    have hquiet := (closed_of_run h).quiet (by rw [printed]; rfl)
    have hmade := (kept_of_run h).balance.settled hquiet.hands hb
    exact ((accepted_perm h noOverflow noShed).trans List.perm_append_comm).trans
      (hmade.append_right _)
  drained := fun pre post t hls ht hq => by
    rw [hls] at h
    refine (run_invariant_after (I := fun s : Run m => s.main ≠ .ingesting ∧ s.queued = [])
      (fun _ _ _ hI hs => drained_step hI.1 hI.2 hs) h ht ?_).2
    intro t' hok
    rw [step] at hok
    split at hok
    · obtain ⟨sys, hsys, rfl⟩ := Option.map_eq_some_iff.mp hok
      obtain rfl := Option.some.inj hsys
      exact ⟨fun h => (by cases h), hq⟩
    · cases hok

end Run

end Async

namespace Equivalence

/-- **A limit run** of either pipeline in which no task was evicted and no payload shed: when the
    summary is printed, each payload that ingest handed over and `parse_one` accepted was worked
    through or is still queued, and a queue that was empty when ingest returned is empty.

    For each pipeline, the account of the tasks and the crew of the workers, read at the moment at
    which the summary is printed and nobody is inside an iteration. -/
theorem limit_run_settles (fromStr : Text → Option Json) (high : UInt64)
    (n C tlimit : Nat) (tcalls : List Text) (tls : List (Threaded.SystemEvent n))
    (t : Threaded.System n)
    (ht : run (Threaded.System.step fromStr high) (Threaded.System.start n C) tls = some t)
    (tingest : Threaded.System.AtLimit tlimit tcalls tls)
    (tentries : Option (List (String × UInt64))) (tprinted : t.main = .finished tentries)
    (tover : t.log.evicted = []) (tshed : t.log.shed = [])
    (m D alimit : Nat) (acalls : List Text) (als : List (Async.RunEvent m)) (a : Async.Run m)
    (ha : run (Async.Run.step fromStr high) (Async.Run.start m D) als = some a)
    (aingest : Async.Run.AtLimit alimit acalls als)
    (aentries : Option (List (String × UInt64))) (ametrics : Metrics)
    (aprinted : a.main = .finished aentries ametrics)
    (aover : ∀ k, a.sys.pool.log.evicted k = []) (ashed : a.sys.shed = []) :
    Threaded.System.Settled fromStr high C tcalls tls t ∧
      Async.Run.Settled fromStr high D acalls als a := by
  constructor
  · rw [← tingest.1]
    exact Threaded.System.settled ht tprinted tover tshed
  · rw [← aingest.1]
    exact Async.Run.settled ha aprinted aover ashed

/-- The limit is one; each pipeline has worked through its payload when ingest returns. -/
theorem limit_run_settles_one :
    let raw := "\x7b\"user\":\"u\",\"server_name\":\"w\"\x7d".toList
    let fromStr := fun _ => some (Json.obj [("user", .str "u"), ("server_name", .str "w")])
    let tls : List (Threaded.SystemEvent 1) :=
      [.dispatch raw 1 1, .work 0 2, .work 0 3, .work 0 3, .work 0 3, .work 0 3, .work 0 3,
        .work 0 3, .ingestOk, .work 0 4, .count 0, .main, .answer [("w", 1)], .main, .stop, .main,
        .main]
    let als : List (Async.RunEvent 1) :=
      [.dispatch raw 1 1, .work 0 2, .work 0 2, .work 0 2, .work 0 3, .work 0 4, .work 0 5,
        .work 0 6, .work 0 6, .work 0 6, .work 0 6, .ingestOk, .work 0 7, .work 0 7, .work 0 7,
        .main, .main, .count, .answer [("w", 1)], .stop, .main, .main, .main]
    ∃ t a, Threaded.System.Settled fromStr Hdr.program.high 1 [raw] tls t ∧
      Async.Run.Settled fromStr Hdr.program.high 1 [raw] als a := by
  intro raw fromStr tls als
  obtain ⟨t, ht, hts⟩ := Option.map_eq_some_iff.mp
    (show (run (Threaded.System.step fromStr Hdr.program.high) (Threaded.System.start 1 1) tls).map
      (fun t => (t.main, t.log.evicted, t.log.shed)) =
      some (.finished (some [("w", 1)]), [], []) from rfl)
  obtain ⟨a, ha, has⟩ := Option.map_eq_some_iff.mp
    (show (run (Async.Run.step fromStr Hdr.program.high) (Async.Run.start 1 1) als).map
      (fun a => (a.main, a.sys.pool.log.evicted .hi, a.sys.pool.log.evicted .lo, a.sys.shed)) =
      some (.finished (some [("w", 1)]) ⟨⟨[2]⟩, ⟨[]⟩, ⟨[2]⟩, 0, 0, 0⟩, [], [], []) from rfl)
  obtain ⟨htm, htrest⟩ := Prod.mk.inj hts
  obtain ⟨hte, htshed⟩ := Prod.mk.inj htrest
  obtain ⟨ham, harest⟩ := Prod.mk.inj has
  obtain ⟨hhi, harest⟩ := Prod.mk.inj harest
  obtain ⟨hlo, hashed⟩ := Prod.mk.inj harest
  have tingest : Threaded.System.AtLimit 1 [raw] tls :=
    ⟨rfl, .never, [.opened ["data: ".toList ++ raw, [], []] .eof], _, rfl, rfl⟩
  have aingest : Async.Run.AtLimit 1 [raw] als :=
    ⟨rfl, .ok (), .never, [.success [.event raw]], 1, _, rfl, rfl⟩
  have haover : ∀ k, a.sys.pool.log.evicted k = [] := fun k => by
    cases k with
    | hi => exact hhi
    | lo => exact hlo
  exact ⟨t, a, limit_run_settles fromStr Hdr.program.high 1 1 1 [raw] tls t ht tingest _ htm hte
    htshed 1 1 1 [raw] als a ha aingest _ _ ham haover hashed⟩

/-- The limit is one, and the only worker has not looked at the queue when ingest returns: it sees
    the cancellation first, and the payload is still queued when the summary is printed. -/
theorem limit_run_leaves_task :
    let raw := "\x7b\"user\":\"u\",\"server_name\":\"w\"\x7d".toList
    let fromStr := fun _ => some (Json.obj [("user", .str "u"), ("server_name", .str "w")])
    let tls : List (Threaded.SystemEvent 1) :=
      [.dispatch raw 1 1, .ingestOk, .work 0 2, .main, .answer [], .main, .stop, .main, .main]
    let als : List (Async.RunEvent 1) :=
      [.dispatch raw 1 1, .ingestOk, .work 0 2, .work 0 2, .work 0 2, .main, .main, .answer [],
        .stop, .main, .main, .main]
    (∃ t, run (Threaded.System.step fromStr Hdr.program.high) (Threaded.System.start 1 1) tls =
        some t ∧ Threaded.System.AtLimit 1 [raw] tls ∧ t.main = .finished (some []) ∧
      t.log.evicted = [] ∧ t.log.shed = [] ∧ ¬ t.log.accepted.Perm t.taken) ∧
    ∃ a, run (Async.Run.step fromStr Hdr.program.high) (Async.Run.start 1 1) als = some a ∧
      Async.Run.AtLimit 1 [raw] als ∧ a.main = .finished (some []) .new ∧
      (∀ k, a.sys.pool.log.evicted k = []) ∧ a.sys.shed = [] ∧
      ¬ (a.sys.accepted.map Async.Entry.task).Perm (a.sys.pool.taken Async.Entry.task) := by
  intro raw fromStr tls als
  refine ⟨⟨_, rfl, ⟨rfl, .never, [.opened ["data: ".toList ++ raw, [], []] .eof], _, rfl, rfl⟩,
    rfl, rfl, rfl, fun h => ?_⟩, ⟨_, rfl, ⟨rfl, .ok (), .never, [.success [.event raw]], 1, _, rfl,
    rfl⟩, rfl, fun k => ?_, rfl, fun h => ?_⟩⟩
  · exact absurd h.length_eq (by decide)
  · cases k <;> rfl
  · exact absurd h.length_eq (by decide)

end Equivalence

end RtsPipeline
