/-
  The shutdown of the async pipeline: what the printed leaderboard says of the printed metrics.

  A worker records a drift and sends an update for every task, so the two printed results should
  count the same tasks.  Three things come between: a drift beyond the range of the histograms is
  dropped, a `try_send` that finds the channel full gives up, and one that comes after the
  `Snapshot` is not counted any more.  The last is no matter of chance: the workers are detached,
  and the main task sends the `Snapshot` without waiting for them.  The result is about the runs in
  which none of the three happens, and `leaderboard_misses_late` is one in which the last does.

  When the entries are printed, the actor has come to its end, and it does so only when every sender
  is dropped.  So every worker has left, each dequeued task has had all of its calls, and the
  updates and the drifts are two countings of one list of calls.

  1. `Relayed` — while no update comes after the `Snapshot`, the channel hands the updates on.
  2. `final_leaderboard` — with that and what the workers recorded, the leaderboard and the metrics
     say the same.
-/
import RtsPipeline.Async.Run

namespace RtsPipeline.Async

open Lib

namespace Run

variable {m : Nat} {fromStr : Text → Option Json} {high : UInt64} {s s' : Run m} {e : RunEvent m}

/-! ## The updates on their way

An update goes from a worker through the channel to the actor, and it can be lost in two places: at
a full channel, and behind the `Snapshot`.  `Relayed` is what holds when neither happens.  It is a
balance of lists, and every step of the worker, the main task or the actor moves one entry of it. -/

/-- The wikis of the updates sent. -/
def sent (cs : List Call) : List String :=
  (madeFor .sendUpdate (cs.map Call.made)).map fun t => t.event.serverName

theorem sent_append (cs : List Call) (c : Call) : sent (cs ++ [c]) =
    sent cs ++ if c.step = .sendUpdate then [c.task.event.serverName] else [] := by
  rw [sent, List.map_append, madeFor_append, List.map_append, List.map_singleton, Call.made,
    madeFor_single]
  split <;> rfl

/-- No `Snapshot` was sent yet. -/
def Early (s : Run m) : Prop := .snapshot ∉ s.channel ∧ s.reply = none

/-- The `Snapshot` is the last message there will ever be, or it has been answered. -/
def Asked (s : Run m) : Prop :=
  (∃ updates, s.channel = updates ++ [.snapshot] ∧ .snapshot ∉ updates ∧ s.reply = none) ∨
    (s.channel = [] ∧ ∃ reply, s.reply = some reply ∧ s.leaderboard.Snapshot reply)

/-- The channel is in order: every update sent was counted or is waiting, and none comes after the
    `Snapshot`.

    `updates` is an equation of lists, as the channel keeps its order: what was sent is what was
    counted, followed by what waits.  `early` and `asked` are the two sides of the request,
    `answered` and `finished` what the main task was given and printed. -/
structure Relayed (s : Run m) (cs : List Call) : Prop where
  updates : ∃ counted, s.leaderboard.Tallies counted ∧
    sent cs = counted ++ s.channel.filterMap LbCmd.wiki?
  closed : Closed s
  early : s.main.asked = false → Early s
  asked : s.main.asked = true → Asked s
  answered : ∀ entries, s.main = .answered entries → entries = s.reply
  finished : ∀ entries metrics, s.main = .finished entries metrics →
    entries = s.reply ∧ metrics = s.metrics

theorem relayed_start (C : Nat) : Relayed (start m C) [] where
  updates := ⟨[], Leaderboard.tallies_new, rfl⟩
  closed := closed_start C
  early := fun _ => ⟨List.not_mem_nil, rfl⟩
  asked := fun h => nomatch h
  answered := fun _ h => nomatch h
  finished := fun _ _ h => nomatch h

/-- A step that does not move the main task, while the actor runs. -/
theorem Relayed.running {cs cs' : List Call} (h : Relayed s cs) (hrun : s.stopped = false)
    (hst : s'.stopped = false) (hmain : s'.main = s.main)
    (updates : ∃ counted, s'.leaderboard.Tallies counted ∧
      sent cs' = counted ++ s'.channel.filterMap LbCmd.wiki?)
    (early : s.main.asked = false → Early s → Early s')
    (asked : s.main.asked = true → Asked s → Asked s') : Relayed s' cs' := by
  -- the actor has not been awaited, so nothing was received or printed
  have hawaited := h.closed.not_awaited hrun
  refine ⟨updates, closed_of_running hst (hmain ▸ hawaited), fun ha => ?_, fun ha => ?_,
    fun entries hm => ?_, fun entries metrics hm => ?_⟩
  · rw [hmain] at ha
    exact early ha (h.early ha)
  · rw [hmain] at ha
    exact asked ha (h.asked ha)
  · rw [hmain] at hm
    rw [hm] at hawaited
    exact nomatch hawaited
  · rw [hmain] at hm
    rw [hm] at hawaited
    exact nomatch hawaited

/-- The updates before the `Snapshot` are taken first. -/
theorem Asked.take (h : Asked s) {wiki : String} {rest : List LbCmd}
    (hc : s.channel = .update wiki :: rest) (hc' : s'.channel = rest) (hr : s'.reply = s.reply) :
    Asked s' := by
  rcases h with ⟨updates, hch, hno, hreply⟩ | ⟨hnil, _⟩
  · rw [hc] at hch
    cases updates with
    | nil => exact nomatch (List.cons.inj hch).1
    | cons u us =>
      obtain ⟨_, hrest⟩ := List.cons.inj hch
      exact Or.inl ⟨us, hc'.trans hrest, fun hm => hno (List.mem_cons_of_mem _ hm),
        hr.trans hreply⟩
  · rw [hc] at hnil
    exact nomatch hnil

/-- Nothing waits behind the `Snapshot`. -/
theorem Asked.last (h : Asked s) {rest : List LbCmd} (hc : s.channel = .snapshot :: rest) :
    rest = [] := by
  rcases h with ⟨updates, hch, hno, _⟩ | ⟨hnil, _⟩
  · rw [hc] at hch
    cases updates with
    | nil => exact (List.cons.inj hch).2
    | cons u us => exact absurd ((List.cons.inj hch).1 ▸ List.mem_cons_self) hno
  · rw [hc] at hnil
    exact nomatch hnil

/-- Every `try_send` of the step finds room, and none comes after the `Snapshot`. -/
def Timely (s : Run m) (e : RunEvent m) : Prop :=
  ∀ t ∈ s.sendings e, t.waiting < lbCapacity ∧ t.late = false

/-- A call of a worker, made in time. -/
theorem Relayed.call {cs : List Call} (h : Relayed s cs) {i : Fin m} {now : Nat} {sys : System m}
    {clocks : Fin m → Clock} {c : Call} (moved : s.sys.step fromStr (.work i) = some sys)
    (next : s.nextCall i = some c) (timely : s.Timely (.work i now)) :
    Relayed { s.call high c with sys := sys, clocks := clocks } (cs ++ [c]) := by
  have hrun := h.closed.running_of_work moved
  obtain ⟨counted, htally, hsent⟩ := h.updates
  by_cases hc : c.step = .sendUpdate
  · -- the update goes to the end of the channel, behind other updates only
    have hsending : ⟨s.channel.length, s.main.asked⟩ ∈ s.sendings (.work i now) := by
      simp [sendings, calls, next, hc]
    obtain ⟨hroom, hlate⟩ := timely _ hsending
    have hch : (s.call high c).channel = s.channel ++ [.update c.task.event.serverName] := by
      simp only [Run.call, if_pos hc, trySend, if_pos (And.intro hrun hroom)]
    refine h.running hrun hrun rfl ⟨counted, htally, ?_⟩ (fun _ he => ⟨?_, he.2⟩) fun ha => ?_
    · show sent (cs ++ [c]) = counted ++ (s.call high c).channel.filterMap LbCmd.wiki?
      rw [hch, sent_append, if_pos hc, hsent, List.filterMap_append, List.append_assoc]
      rfl
    · show LbCmd.snapshot ∉ (s.call high c).channel
      rw [hch, List.mem_append, not_or]
      exact ⟨he.1, by simp⟩
    · exact absurd (hlate.symm.trans ha) (by decide)
  · have hch : (s.call high c).channel = s.channel := by
      simp only [Run.call, if_neg hc]
    refine h.running hrun hrun rfl ⟨counted, htally, ?_⟩ (fun _ he => ?_) fun _ ha => ?_
    · show sent (cs ++ [c]) = counted ++ (s.call high c).channel.filterMap LbCmd.wiki?
      rw [hch, sent_append, if_neg hc, List.append_nil]
      exact hsent
    · unfold Early
      exact hch.symm ▸ he
    · unfold Asked
      exact hch.symm ▸ ha

/-- A step of the main task that leaves the channel and the actor alone. -/
theorem Relayed.advance {cs : List Call} (h : Relayed s cs) (p : MainPhase) (sys : System m)
    (closed : Closed { s with sys := sys, main := p }) (hasked : p.asked = s.main.asked)
    (answered : ∀ entries, p = .answered entries → entries = s.reply)
    (finished : ∀ entries metrics, p = .finished entries metrics →
      entries = s.reply ∧ metrics = s.metrics) : Relayed { s with sys := sys, main := p } cs where
  updates := h.updates
  closed := closed
  early := fun he => h.early (hasked.symm.trans he)
  asked := fun ha => h.asked (hasked.symm.trans ha)
  answered := answered
  finished := finished

/-- The `Snapshot` goes to the end of the channel. -/
theorem Relayed.request {cs : List Call} (h : Relayed s cs) (phase : s.main = .signalled)
    (closed : Closed { s with main := .requested, channel := s.channel ++ [.snapshot] }) :
    Relayed { s with main := .requested, channel := s.channel ++ [.snapshot] } cs := by
  obtain ⟨hno, hreply⟩ := h.early (by rw [phase]; rfl)
  obtain ⟨counted, htally, hsent⟩ := h.updates
  have hwait : (s.channel ++ [LbCmd.snapshot]).filterMap LbCmd.wiki? =
      s.channel.filterMap LbCmd.wiki? := by
    rw [List.filterMap_append]
    exact List.append_nil _
  exact
    { updates := ⟨counted, htally, hsent.trans (congrArg _ hwait.symm)⟩
      closed := closed
      early := fun he => nomatch he
      asked := fun _ => Or.inl ⟨s.channel, rfl, hno, hreply⟩
      answered := fun _ hm => nomatch hm
      finished := fun _ _ hm => nomatch hm }

/-- A step that makes no call. -/
theorem Relayed.silent {cs : List Call} (h : Relayed s cs) (hs : Stepped fromStr high s e s')
    (silent : s.calls e = []) : Relayed s' cs := by
  have hclosed := h.closed.step hs
  cases hs with
  | outside _ l sys inner moved quiet =>
    exact ⟨h.updates, hclosed, h.early, h.asked, h.answered, h.finished⟩
  | move i now sys clocks moved next =>
    have hrun := h.closed.running_of_work moved
    exact h.running hrun hrun rfl h.updates (fun _ he => he) fun _ ha => ha
  | call i now sys clocks c moved next =>
    rw [calls, next] at silent
    cases silent
  | ingestOk sys moved phase =>
    exact h.advance .signalled sys hclosed (by rw [phase]; rfl) (fun _ hm => by cases hm)
      fun _ _ hm => by cases hm
  | ingestErr phase =>
    exact h.advance .failed s.sys hclosed (by rw [phase]; rfl) (fun _ hm => by cases hm)
      fun _ _ hm => by cases hm
  | request phase room => exact h.request phase hclosed
  | release phase =>
    exact h.advance .released s.sys hclosed (by rw [phase]; rfl) (fun _ hm => by cases hm)
      fun _ _ hm => by cases hm
  | join phase stopped =>
    exact h.advance .joined s.sys hclosed (by rw [phase]; rfl) (fun _ hm => by cases hm)
      fun _ _ hm => by cases hm
  | receive phase =>
    exact h.advance (.answered s.reply) s.sys hclosed (by rw [phase]; rfl)
      (fun _ hm => (MainPhase.answered.inj hm).symm) fun _ _ hm => by cases hm
  | print entries phase =>
    refine h.advance (.finished entries s.metrics) s.sys hclosed (by rw [phase]; rfl)
      (fun _ hm => by cases hm) fun _ _ hm => ?_
    obtain ⟨rfl, rfl⟩ := MainPhase.finished.inj hm
    exact ⟨h.answered entries phase, rfl⟩
  -- the update goes from the front of the channel to the end of the counted
  | count wiki rest running waiting =>
    obtain ⟨counted, htally, hsent⟩ := h.updates
    refine h.running running running rfl ⟨counted ++ [wiki], htally.update wiki, ?_⟩
      (fun _ he => ⟨?_, he.2⟩) fun _ ha => ha.take waiting rfl rfl
    · rw [hsent, waiting, List.append_assoc]
      rfl
    · intro hm
      apply he.1
      rw [waiting]
      exact List.mem_cons_of_mem _ hm
  -- the `Snapshot` came behind all updates, so all of them are counted
  | answer reply rest running waiting sorted =>
    obtain ⟨counted, htally, hsent⟩ := h.updates
    refine h.running running running rfl ⟨counted, htally, ?_⟩ (fun _ he => ?_) fun _ ha => ?_
    · rw [hsent, waiting]
      rfl
    · exact absurd (by rw [waiting]; exact List.mem_cons_self) he.1
    · exact Or.inr ⟨ha.last waiting, reply, rfl, sorted⟩
  | stop empty exited dropped =>
    exact ⟨h.updates, hclosed, h.early, h.asked, h.answered, h.finished⟩

/-- **Step lemma** for `Relayed`. -/
theorem Relayed.step {cs : List Call} (h : Relayed s cs) (timely : s.Timely e)
    (hs : Stepped fromStr high s e s') : Relayed s' (cs ++ s.calls e) := by
  by_cases silent : s.calls e = []
  · rw [silent, List.append_nil]
    exact h.silent hs silent
  · cases hs with
    | outside _ l sys inner moved quiet => exact absurd (calls_silent inner quiet) silent
    | move i now sys clocks moved next => exact absurd (by rw [calls, next]; rfl) silent
    | call i now sys clocks c moved next =>
      have hcalls : s.calls (.work i now) = [c] := by rw [calls, next]; rfl
      rw [hcalls]
      exact h.call moved next timely
    | _ => exact absurd rfl silent

/-! ## The printed leaderboard and metrics

  The crew says of every call of the body that it was made once for every task that is done,
  whatever the interleaving.  So the tasks an update was sent for are those whose drift was
  recorded, in some other order, and counting does not see the order. -/

/-- The tasks whose drift the histograms took. -/
def recordedTasks (high : UInt64) (cs : List Call) : List Task :=
  (cs.filter fun c => c.step = .recordDrift && c.driftFits high).map Call.task

/-- The entries count, wiki by wiki, the tasks whose drift is in the metrics: each wiki once, by
    non-increasing count. -/
def CountsRecorded (high : UInt64) (cs : List Call)
    (entries : Option (List (String × UInt64))) : Prop :=
  ∃ reply, entries = some reply ∧
    (reply.map Prod.fst).Nodup ∧
    (∀ wiki k, (wiki, k) ∈ reply ↔
      wiki ∈ (recordedTasks high cs).map (fun t => t.event.serverName) ∧
        k = UInt64.ofNat (((recordedTasks high cs).map fun t => t.event.serverName).count wiki)) ∧
    reply.Pairwise fun a b => b.2 ≤ a.2

/-- With every drift in range, the recorded tasks are those for which the call was made. -/
theorem recordedTasks_eq {cs : List Call}
    (fits : ∀ c ∈ cs, c.step = .recordDrift → c.driftFits high = true) :
    recordedTasks high cs = madeFor .recordDrift (cs.map Call.made) := by
  rw [recordedTasks, madeFor, List.filter_map, List.map_map]
  have hfilter : (cs.filter fun c => c.step = .recordDrift && c.driftFits high) =
      cs.filter ((fun c : BodyStep × Task => decide (c.1 = .recordDrift)) ∘ Call.made) := by
    refine List.filter_congr fun c hc => ?_
    by_cases hs : c.step = .recordDrift
    · simp [Call.made, hs, fits c hc hs]
    · simp [Call.made, hs]
  rw [hfilter]
  rfl

/-- **The final leaderboard.**  In every run in which no `try_send` of an update finds the channel
    full or comes after the `Snapshot`, and no drift is beyond the range of the histograms, the
    printed entries count the tasks whose drift is in the printed metrics.

    Every update sent was counted when the `Snapshot` is answered, by `Relayed`, and a task whose
    drift was recorded has been sent or will be; that it was sent in time is what the hypotheses
    ask. -/
theorem final_leaderboard (fromStr : Text → Option Json) (high : UInt64) (m C : Nat)
    (ls : List (RunEvent m)) (s : Run m)
    (h : run (step fromStr high) (start m C) ls = some s)
    (room : ∀ t ∈ observe (step fromStr high) sendings (start m C) ls, t.waiting < lbCapacity)
    (timely : ∀ t ∈ observe (step fromStr high) sendings (start m C) ls, t.late = false)
    (fits : ∀ c ∈ observe (step fromStr high) calls (start m C) ls,
      c.step = .recordDrift → c.driftFits high = true)
    (entries : Option (List (String × UInt64))) (metrics : Metrics)
    (printed : s.main = .finished entries metrics) :
    let cs := observe (step fromStr high) calls (start m C) ls
    CountsRecorded high cs entries ∧
      ∀ p, (metrics.drift p).samples =
        (cs.filter (Call.recorded high p)).map fun c => nanos c.drift := by
  intro cs
  have hkept : Kept high s cs := kept_of_run h
  have halong : Along (step fromStr high) Timely (start m C) ls :=
    (along_observe ls _ s h).mpr fun t ht => ⟨room t ht, timely t ht⟩
  have hrel : Relayed s cs :=
    run_observe_along (R := Relayed) (fun _ _ _ _ hR hQ hs => hR.step hQ (stepped_of_step hs))
      ls _ s [] (relayed_start C) halong h
  obtain ⟨heq, rfl⟩ := hrel.finished entries metrics printed
  have hawaited : s.main.awaited = true := by
    rw [printed]
    rfl
  have hquiet := hrel.closed.quiet hawaited
  refine ⟨?_, hkept.ledger.drift⟩
  -- every worker has exited, so each call was made for every dequeued task
  have hperm : (sent cs).Perm ((recordedTasks high cs).map fun t => t.event.serverName) := by
    rw [recordedTasks_eq fits]
    exact ((hkept.balance.settled hquiet.hands (by decide)).symm.trans
      (hkept.balance.settled hquiet.hands (by decide))).map _
  -- and the channel is empty, so each update was counted before the `Snapshot` was answered
  obtain ⟨counted, htally, hsent⟩ := hrel.updates
  have hnil := (hrel.closed.stopped (hrel.closed.awaited hawaited)).1
  rw [hnil, List.filterMap_nil, List.append_nil] at hsent
  rcases hrel.asked (by rw [printed]; rfl) with ⟨updates, hch, _, _⟩ | ⟨_, reply, hreply, hsnap⟩
  · rw [hnil] at hch
    exact absurd hch.symm (by simp)
  · obtain ⟨hnodup, hmem, hsorted⟩ := hsnap.exact htally
    refine ⟨reply, heq.trans hreply, hnodup, fun wiki k => ?_, hsorted⟩
    rw [hmem wiki k, ← hsent, hperm.mem_iff, hperm.count_eq]

/-- One payload, worked through before ingest returns. -/
theorem final_leaderboard_one :
    let raw := "\x7b\"user\":\"u\",\"server_name\":\"w\"\x7d".toList
    let fromStr := fun _ => some (Json.obj [("user", .str "u"), ("server_name", .str "w")])
    let ls : List (RunEvent 1) :=
      [.dispatch raw 1 1, .work 0 2, .work 0 2, .work 0 2, .work 0 3, .work 0 4, .work 0 5,
        .work 0 6, .work 0 6, .work 0 6, .work 0 6, .ingestOk, .work 0 7, .work 0 7, .work 0 7,
        .main, .main, .count, .answer [("w", 1)], .stop, .main, .main, .main]
    ∃ s metrics, run (step fromStr Hdr.program.high) (start 1 1) ls = some s ∧
      s.main = .finished (some [("w", 1)]) metrics ∧
      CountsRecorded Hdr.program.high
        (observe (step fromStr Hdr.program.high) calls (start 1 1) ls) (some [("w", 1)]) := by
  intro raw fromStr ls
  obtain ⟨s, hs, hm⟩ := Option.map_eq_some_iff.mp
    (show (run (step fromStr Hdr.program.high) (start 1 1) ls).map Run.main =
      some (.finished (some [("w", 1)]) ⟨⟨[2]⟩, ⟨[]⟩, ⟨[2]⟩, 0, 0, 0⟩) from rfl)
  exact ⟨s, _, hs, hm, (final_leaderboard fromStr Hdr.program.high 1 1 ls s hs (by decide)
    (by decide) (by decide) _ _ hm).1⟩

/-- A worker that has recorded its drift when the `Snapshot` is sent, and sends its update
    afterwards: the metrics hold the task, the entries do not. -/
theorem leaderboard_misses_late :
    let raw := "\x7b\"user\":\"u\",\"server_name\":\"w\"\x7d".toList
    let fromStr := fun _ => some (Json.obj [("user", .str "u"), ("server_name", .str "w")])
    let ls : List (RunEvent 1) :=
      [.dispatch raw 1 1, .work 0 2, .work 0 2, .work 0 2, .work 0 3, .work 0 4, .ingestOk, .main,
        .work 0 5, .work 0 6, .work 0 6, .work 0 6, .work 0 6, .work 0 7, .work 0 7, .work 0 7,
        .main, .answer [], .count, .stop, .main, .main, .main]
    ∃ s metrics, run (step fromStr Hdr.program.high) (start 1 1) ls = some s ∧
      s.main = .finished (some []) metrics ∧ metrics.driftHuman.len = 1 ∧
      (∀ t ∈ observe (step fromStr Hdr.program.high) sendings (start 1 1) ls,
        t.waiting < lbCapacity) ∧
      ¬ CountsRecorded Hdr.program.high
        (observe (step fromStr Hdr.program.high) calls (start 1 1) ls) (some []) := by
  intro raw fromStr ls
  obtain ⟨s, hs, hm⟩ := Option.map_eq_some_iff.mp
    (show (run (step fromStr Hdr.program.high) (start 1 1) ls).map Run.main =
      some (.finished (some []) ⟨⟨[2]⟩, ⟨[]⟩, ⟨[2]⟩, 0, 0, 0⟩) from rfl)
  refine ⟨s, _, hs, hm, rfl, by decide, ?_⟩
  rintro ⟨reply, heq, _, hmem, _⟩
  obtain rfl := Option.some.inj heq
  have hin : ("w", 1) ∈ ([] : List (String × UInt64)) := (hmem "w" 1).mpr (by decide)
  exact List.not_mem_nil hin

end Run

end RtsPipeline.Async