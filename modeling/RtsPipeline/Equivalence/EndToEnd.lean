/-
  A fixture replayed to both pipelines, from the server to the printed leaderboards.

  Each stage has its own module; here they are put together.  A run may lose payloads in three
  places: a full queue evicts, the Degraded Mode sheds, and the shutdown leaves behind what is
  queued; and the async leaderboard misses what comes late or finds its channel full.  Where none of
  this happens, nothing depends on the interleaving any more.

  1. `lasting_calls` — the ingest: the first `limit` payloads of the replay are dispatched.
  2. `board_of_run`, of either pipeline — from the dispatches to the printed leaderboard.
  3. `same_board` — both pipelines print what one actor would that counts the payloads in order.
-/
import RtsPipeline.Async.Shutdown
import RtsPipeline.Equivalence.Leaderboards
import RtsPipeline.Equivalence.LimitRun
import RtsPipeline.Replay.Cut

namespace RtsPipeline

open Lib

/-! ## The ingest stage

A replay sends the fixture in a cycle, so what a connection carries is a prefix of one endless list.
If the first connection carries the first `k` payloads whole, it does not matter what the later ones
carry: the ingest has reached its limit before. -/

namespace Replay

/-- The first connection lasts until `k` payloads have arrived. -/
def Lasting (events : List RecordedEvent) (k : Nat) (links : List Link) : Prop :=
  ∃ link rest, links = link :: rest ∧ k ≤ (link.arrived events).length

/-- What an ingest hands over of its connections, if it is as much as `sent` and the first begins
    with this. -/
theorem lasting_calls {sent first rest calls : List Text} (hfirst : sent <+: first)
    (hle : calls <+: first ++ rest) (hlength : calls.length = sent.length) : calls = sent := by
  have hsent : sent <+: first ++ rest := hfirst.trans (List.prefix_append _ _)
  exact (List.prefix_of_prefix_length_le hle hsent (Nat.le_of_eq hlength)).eq_of_length hlength

end Replay

namespace Threaded

/-- An ingest that reports its limit has reached it, if the first connection holds enough. -/
theorem limit_calls {k : Nat} {cancel : Flag} {conn : Conn} {conns : List Conn} {g : Ingest}
    (h : runSse (some k) (.start cancel) (conn :: conns) = (some (.ok .limitReached), g))
    (hlong : k ≤ conn.payloads.length) : g.calls.length = k := by
  have hexcused : Excused (some k) 0 cancel (conn :: conns) :=
    excused_of_first (Or.inl (limitReached_iff.mpr ⟨k, rfl, by omega⟩))
  have htrue := (runSse_truthful_iff (some k) cancel (conn :: conns)).mpr hexcused
  rw [h] at htrue
  exact (Option.some.inj (htrue.ofLimit rfl)).symm

end Threaded

namespace Async

/-- An ingest that reports its limit has reached it, if it is positive. -/
theorem limit_calls {k delivered : Nat} {cancel : Flag} {conns : List Conn} {g : Ingest}
    (h : runSse (.ok ()) (some k) (.start cancel) conns =
      (some (.ok (.limitReached delivered)), g)) (hk : 0 < k) : g.calls.length = k := by
  have hrunning : Running (some k) (.start cancel) :=
    ⟨rfl, fun n hn => Option.some.inj hn ▸ hk⟩
  have hfair := hrunning.runLoop conns
  obtain ⟨houtcome, hstate⟩ := Prod.mk.inj h
  obtain ⟨outcome, hloop, hok⟩ := Option.map_eq_some_iff.mp houtcome
  obtain rfl := Except.ok.inj hok
  rw [show runLoop (some k) (.start cancel) conns = (some (.limitReached delivered), g) from
    Prod.ext hloop hstate] at hfair
  rw [← hfair.1]
  exact (Option.some.inj hfair.2).symm

end Async

/-! ## What a leaderboard counts

A leaderboard counts, so the order in which the updates come to it makes no difference to the
counts: this is where the interleavings drop out.  It does make a difference to entries that tie,
as the order of a hash map decides those; so equal counts is all that can be said of them. -/

namespace Leaderboard

variable {κ : Type} [LeaderboardCmd κ]

/-- Entries that count these wikis are an answer to their updates, in any order. -/
theorem answers_of_counts {seen : List String} {cmds : List κ} {reply : List (String × UInt64)}
    (hperm : seen.Perm (updates cmds)) (hnodup : (reply.map Prod.fst).Nodup)
    (hcounts : ∀ wiki n, (wiki, n) ∈ reply ↔ wiki ∈ seen ∧ n = UInt64.ofNat (seen.count wiki))
    (hsorted : reply.Pairwise fun a b => b.2 ≤ a.2) : Answers cmds reply := by
  have htallies : (new.run cmds).Tallies (updates cmds) := tallies_run cmds tallies_new
  refine ⟨?_, hsorted⟩
  rw [List.perm_ext_iff_of_nodup hnodup.of_map (nodup_entries htallies)]
  rintro ⟨wiki, n⟩
  rw [hcounts, mem_entries htallies, hperm.mem_iff, hperm.count_eq]

/-- The updates of a list of wikis. -/
theorem updates_map {update : String → κ} (h : ∀ wiki, LeaderboardCmd.wiki? (update wiki) = some wiki)
    (wikis : List String) : updates (wikis.map update) = wikis := by
  rw [updates, List.filterMap_map]
  exact (List.filterMap_congr fun wiki _ => h wiki).trans List.filterMap_some

end Leaderboard

/-- The wikis of the payloads that `parse_one` accepts. -/
def wikisOf (fromStr : Text → Option Json) (payloads : List Text) : List String :=
  (payloads.filterMap (accepted? fromStr)).map Event.serverName

/-! ## The threaded pipeline

From the dispatches to the board: the accepted payloads are worked through, as nothing was
evicted, shed or left over, and each of them is counted once. -/

namespace Threaded.System

variable {n : Nat} {fromStr : Text → Option Json} {high : UInt64} {C : Nat} {s : System n}
  {ls : List (SystemEvent n)}

/-- Nothing was evicted or shed, and nothing is left in the queue.  Of the queue only the end is
    asked: a task may well wait there while the run is cancelled, if a worker still comes by. -/
structure Calm (s : System n) : Prop where
  evicted : s.log.evicted = []
  shed : s.log.shed = []
  left : s.queue.queued = []

/-- **The threaded pipeline**, from the dispatches to the printed leaderboard. -/
theorem board_of_run (h : run (step fromStr high) (start n C) ls = some s)
    {entries : Option (List (String × UInt64))} (printed : s.main = .finished entries)
    (calm : Calm s) :
    ∃ board, entries = some board ∧ Leaderboard.Answers
      ((wikisOf fromStr (ls.filterMap raw?)).map LbCmd.update) board := by
  have hsettled := settled h printed calm.evicted calm.shed
  -- every accepted payload was dequeued
  have htaken : s.log.accepted.Perm s.taken := by
    have hstart : Conserved (start n C) := List.Perm.refl []
    have hplaces : Conserved s :=
      run_invariant (fun _ _ _ hI hs => hI.step (stepped_of_step hs)) ls _ s hstart h
    rw [Conserved, calm.shed, calm.evicted, calm.left] at hplaces
    exact hplaces
  have hwikis : s.wikis.Perm (wikisOf fromStr (ls.filterMap raw?)) := by
    have hnames := (htaken.map fun t => t.event.serverName).symm
    have haccepted := congrArg (List.map OwnedEvent.serverName) hsettled.accepted
    rw [List.map_map, List.map_map] at haccepted
    rw [show s.log.accepted.map (fun t => t.event.serverName) =
      wikisOf fromStr (ls.filterMap raw?) from haccepted, taken, List.map_map] at hnames
    exact hnames
  have hdelivered : Delivered s :=
    run_invariant (fun _ _ _ hI hs => hI.step (stepped_of_step hs)) ls _ s (delivered_start C) h
  obtain ⟨board, hboard, hnodup, hcounts, hsorted⟩ := hdelivered.exact printed
  refine ⟨board, hboard, Leaderboard.answers_of_counts ?_ hnodup hcounts hsorted⟩
  rw [Leaderboard.updates_map fun _ => rfl]
  exact hwikis

end Threaded.System

/-! ## The async pipeline

The workers are detached, so a printed leaderboard says less than that of the threaded pipeline: an
update is counted only if it found room in the channel and came before the `Snapshot`. -/

namespace Async.Run

variable {m : Nat} {fromStr : Text → Option Json} {high : UInt64} {C : Nat} {s : Run m}
  {ls : List (RunEvent m)}

/-- Nothing was evicted or shed, nothing is left in the lanes, and every update found room in the
    channel and came before the `Snapshot`. -/
structure Calm (fromStr : Text → Option Json) (high : UInt64) (C : Nat) (ls : List (RunEvent m))
    (s : Run m) : Prop where
  evicted : ∀ k, s.sys.pool.log.evicted k = []
  shed : s.sys.shed = []
  left : s.queued = []
  timely : ∀ t ∈ observe (step fromStr high) sendings (start m C) ls,
    t.waiting < lbCapacity ∧ t.late = false

/-- **The async pipeline**, from the dispatches to the printed leaderboard. -/
theorem board_of_run (h : run (step fromStr high) (start m C) ls = some s)
    {entries : Option (List (String × UInt64))} {metrics : Metrics}
    (printed : s.main = .finished entries metrics) (calm : Calm fromStr high C ls s) :
    ∃ board, entries = some board ∧ Leaderboard.Answers
      ((wikisOf fromStr (ls.filterMap raw?)).map LbCmd.update) board := by
  have hsettled := settled h printed calm.evicted calm.shed
  have hkept : Kept high s (observe (step fromStr high) calls (start m C) ls) := kept_of_run h
  have hrel : Relayed s (observe (step fromStr high) calls (start m C) ls) :=
    run_observe_along (R := Relayed) (fun _ _ _ _ hR hQ hs => hR.step hQ (stepped_of_step hs))
      ls _ s [] (relayed_start C) ((along_observe ls _ s h).mpr calm.timely) h
  obtain ⟨heq, rfl⟩ := hrel.finished entries metrics printed
  have hawaited : s.main.awaited = true := by
    rw [printed]
    rfl
  -- every accepted payload was dequeued, and its update sent
  have hsent : (sent (observe (step fromStr high) calls (start m C) ls)).Perm
      (wikisOf fromStr (ls.filterMap raw?)) := by
    have hperm := accepted_perm h calm.evicted calm.shed
    rw [calm.left, List.nil_append] at hperm
    have hnames := (hperm.trans (hkept.balance.settled (hrel.closed.quiet hawaited).hands
      (by decide : BodyStep.sendUpdate ∈ iteration))).map fun t => t.event.serverName
    have haccepted := congrArg (List.map OwnedEvent.serverName) hsettled.accepted
    rw [List.map_map, List.map_map] at haccepted
    rw [List.map_map, show s.sys.accepted.map ((fun t => t.event.serverName) ∘ Entry.task) =
      wikisOf fromStr (ls.filterMap raw?) from haccepted] at hnames
    exact hnames.symm
  -- the channel is empty, so each update was counted before the `Snapshot` was answered
  obtain ⟨counted, htallies, hcounted⟩ := hrel.updates
  have hnil := (hrel.closed.stopped (hrel.closed.awaited hawaited)).1
  rw [hnil, List.filterMap_nil, List.append_nil] at hcounted
  rw [hcounted] at hsent
  rcases hrel.asked (by rw [printed]; rfl) with ⟨updates, hch, _, _⟩ | ⟨_, board, hboard, hsnap⟩
  · rw [hnil] at hch
    exact absurd hch.symm (by simp)
  · obtain ⟨hnodup, hcounts, hsorted⟩ := hsnap.exact htallies
    refine ⟨board, heq.trans hboard, Leaderboard.answers_of_counts ?_ hnodup hcounts hsorted⟩
    rw [Leaderboard.updates_map fun _ => rfl]
    exact hsent

end Async.Run

/-! ## Both pipelines

Both ends are now the answer to one list of updates, those of the first `limit` payloads of the
replay.  Two answers to the same updates count the same, and are sorted by count; so they differ at
most in the order of wikis that tie. -/

namespace Equivalence

open Replay

/-- The dispatches of a threaded run are the calls of an ingest over these connections that has
    reported its limit. -/
def ThreadedFed {n : Nat} (limit : Nat) (conns : List Threaded.Conn)
    (ls : List (Threaded.SystemEvent n)) : Prop :=
  ∃ cancel g, Threaded.runSse (some limit) (.start cancel) conns = (some (.ok .limitReached), g) ∧
    ls.filterMap Threaded.System.raw? = g.calls

/-- The same of an async run. -/
def AsyncFed {m : Nat} (limit : Nat) (conns : List Async.Conn) (ls : List (Async.RunEvent m)) :
    Prop :=
  ∃ cancel delivered g, Async.runSse (.ok ()) (some limit) (.start cancel) conns =
    (some (.ok (.limitReached delivered)), g) ∧ ls.filterMap Async.Run.raw? = g.calls

/-- A payload that both decoders give back. -/
def Whole (data : Text) : Prop := data ≠ [] ∧ ThreadedWhole data ∧ StandardWhole data

instance : DecidablePred Whole := fun _ => inferInstanceAs (Decidable (_ ∧ _ ∧ _))

/-- The first link lasts for `limit` payloads, and the loop stops at the last of them. -/
theorem threaded_dispatches {n : Nat} {events : List RecordedEvent} (hne : events ≠ []) {limit : Nat}
    (plain : ∀ data ∈ looped events limit, Whole data) {links : List Link}
    (lasting : Lasting events limit links) {ls : List (Threaded.SystemEvent n)}
    (fed : ThreadedFed limit (links.map (Link.threaded events)) ls) :
    ls.filterMap Threaded.System.raw? = looped events limit := by
  obtain ⟨cancel, g, hrun, hraw⟩ := fed
  obtain ⟨out, hcalls, hle, _⟩ := Threaded.runSse_calls (some limit)
    (links.map (Link.threaded events)) (.start cancel)
  rw [hrun] at hcalls
  obtain rfl : g.calls = out := hcalls
  obtain ⟨link, rest, rfl, hlong⟩ := lasting
  have hbegins := Link.threaded_begins hne (fun data hd => (plain data hd).2.1) hlong
  have hholds := hbegins.length_le
  rw [length_looped] at hholds
  rw [List.map_cons, List.flatMap_cons] at hle
  rw [hraw]
  refine lasting_calls hbegins hle ?_
  rw [length_looped]
  exact Threaded.limit_calls hrun hholds

/-- As for the threads; the limit has to be positive for the loop to stop in time. -/
theorem async_dispatches {m : Nat} {eventsource : Text → List Async.Frame}
    {events : List RecordedEvent} (hsse : ImplementsSse eventsource (Set.range (served events)))
    (hne : events ≠ []) {limit : Nat} (plain : ∀ data ∈ looped events limit, Whole data)
    (positive : 0 < limit) {links : List Link} (lasting : Lasting events limit links)
    {ls : List (Async.RunEvent m)}
    (fed : AsyncFed limit (links.map (Link.async eventsource events)) ls) :
    ls.filterMap Async.Run.raw? = looped events limit := by
  obtain ⟨cancel, delivered, g, hrun, hraw⟩ := fed
  obtain ⟨out, hcalls, hle, _⟩ := Async.runLoop_calls (some limit)
    (links.map (Link.async eventsource events)) (.start cancel)
  have hg : (Async.runLoop (some limit) (.start cancel)
    (links.map (Link.async eventsource events))).2 = g := congrArg Prod.snd hrun
  rw [hg] at hcalls
  obtain rfl : g.calls = out := hcalls
  obtain ⟨link, rest, rfl, hlong⟩ := lasting
  have hbegins :=
    Link.async_begins hsse hne (fun data hd => ⟨(plain data hd).1, (plain data hd).2.2⟩) hlong
  rw [List.map_cons, List.flatMap_cons] at hle
  rw [hraw]
  refine lasting_calls hbegins hle ?_
  rw [length_looped]
  exact Async.limit_calls hrun positive

/-- **One replay, one leaderboard.**  A fixture is replayed to both pipelines with the same positive
    limit, each over a first connection that lasts for so many payloads, and these survive both
    decoders; nothing is asked of the rest of the fixture.  Whatever the numbers of workers, the
    capacities, the times and the two interleavings: if both runs are calm, each prints what one
    actor might answer that counted the wikis of the first `limit` payloads of the replay in their
    order.  So the counts are the same, and if no two wikis have the same count, so are the
    leaderboards.

    The dispatches of both runs are the first `limit` payloads of the replay, and in a calm run
    every accepted one is counted once.  From there it is `leaderboards_agree`. -/
theorem same_board (fromStr : Text → Option Json) (high : UInt64)
    (events : List RecordedEvent) (hne : events ≠ []) (eventsource : Text → List Async.Frame)
    (hsse : ImplementsSse eventsource (Set.range (served events))) (limit : Nat)
    (positive : 0 < limit) (plain : ∀ data ∈ looped events limit, Whole data)
    (tlinks alinks : List Link)
    (tlasting : Lasting events limit tlinks) (alasting : Lasting events limit alinks)
    (n C : Nat) (tls : List (Threaded.SystemEvent n)) (t : Threaded.System n)
    (ht : run (Threaded.System.step fromStr high) (Threaded.System.start n C) tls = some t)
    (tfed : ThreadedFed limit (tlinks.map (Link.threaded events)) tls)
    (tcalm : Threaded.System.Calm t)
    (tentries : Option (List (String × UInt64))) (tprinted : t.main = .finished tentries)
    (m D : Nat) (als : List (Async.RunEvent m)) (a : Async.Run m)
    (ha : run (Async.Run.step fromStr high) (Async.Run.start m D) als = some a)
    (afed : AsyncFed limit (alinks.map (Link.async eventsource events)) als)
    (acalm : Async.Run.Calm fromStr high D als a)
    (aentries : Option (List (String × UInt64))) (ametrics : Metrics)
    (aprinted : a.main = .finished aentries ametrics) :
    let wikis := wikisOf fromStr (looped events limit)
    ∃ tboard aboard, tentries = some tboard ∧ aentries = some aboard ∧
      Leaderboard.Answers (wikis.map Threaded.LbCmd.update) tboard ∧
      Leaderboard.Answers (wikis.map Async.LbCmd.update) aboard ∧
      tboard.map Prod.snd = aboard.map Prod.snd ∧
      (Leaderboard.Distinct wikis → tboard = aboard) := by
  intro wikis
  obtain ⟨tboard, htboard, hthreaded⟩ := Threaded.System.board_of_run ht tprinted tcalm
  obtain ⟨aboard, haboard, hasync⟩ := Async.Run.board_of_run ha aprinted acalm
  rw [threaded_dispatches hne plain tlasting tfed] at hthreaded
  rw [async_dispatches hsse hne plain positive alasting afed] at hasync
  -- both arrange the entries of one leaderboard
  have htupdates : Leaderboard.updates (wikis.map Threaded.LbCmd.update) = wikis :=
    Leaderboard.updates_map (fun _ => rfl) wikis
  have haupdates : Leaderboard.updates (wikis.map Async.LbCmd.update) = wikis :=
    Leaderboard.updates_map (fun _ => rfl) wikis
  have hupdates : (Leaderboard.updates (wikis.map Threaded.LbCmd.update)).Perm
      (Leaderboard.updates (wikis.map Async.LbCmd.update)) := by rw [htupdates, haupdates]
  have hentries := Leaderboard.entries_perm hupdates
  have hsame : Arranges Prod.snd
      (Leaderboard.new.run (wikis.map Threaded.LbCmd.update)).entries aboard :=
    Arranges.perm hasync hentries
  refine ⟨tboard, aboard, htboard, haboard, hthreaded, hasync, Arranges.keys_eq hthreaded hsame,
    fun hdistinct => ?_⟩
  have htallies := Leaderboard.tallies_run (wikis.map Threaded.LbCmd.update) Leaderboard.tallies_new
  rw [List.nil_append, htupdates] at htallies
  exact (arranges_unique_iff (Leaderboard.nodup_entries htallies)).mpr
    ((Leaderboard.distinct_iff htallies).mpr hdistinct) tboard aboard hthreaded hsame

/-- The first of two events, replayed over a connection that fails and over one that ends.  The
    second would not survive the decoders. -/
theorem same_board_one :
    let raw := "\x7b\"user\":\"u\",\"server_name\":\"w\"\x7d".toList
    let fromStr := fun _ => some (Json.obj [("user", .str "u"), ("server_name", .str "w")])
    let tls : List (Threaded.SystemEvent 1) :=
      [.dispatch raw 1 1, .work 0 2, .work 0 3, .work 0 3, .work 0 3, .work 0 3, .work 0 3,
        .work 0 3, .ingestOk, .work 0 4, .count 0, .main, .answer [("w", 1)], .main, .stop, .main,
        .main]
    let als : List (Async.RunEvent 1) :=
      [.dispatch raw 1 1, .work 0 2, .work 0 2, .work 0 2, .work 0 3, .work 0 4, .work 0 5,
        .work 0 6, .work 0 6, .work 0 6, .work 0 6, .ingestOk, .work 0 7, .work 0 7, .work 0 7,
        .main, .main, .count, .answer [("w", 1)], .stop, .main, .main, .main]
    ∃ t a board metrics,
      run (Threaded.System.step fromStr Hdr.program.high) (Threaded.System.start 1 1) tls = some t ∧
      run (Async.Run.step fromStr Hdr.program.high) (Async.Run.start 1 1) als = some a ∧
      t.main = .finished (some board) ∧ a.main = .finished (some board) metrics ∧
      Leaderboard.Answers (["w"].map Threaded.LbCmd.update) board := by
  intro raw fromStr tls als
  obtain ⟨t, ht, hts⟩ := Option.map_eq_some_iff.mp
    (show (run (Threaded.System.step fromStr Hdr.program.high) (Threaded.System.start 1 1) tls).map
      (fun t => (t.main, t.log.evicted, t.log.shed, t.queue.queued)) =
      some (.finished (some [("w", 1)]), [], [], []) from rfl)
  obtain ⟨a, ha, has⟩ := Option.map_eq_some_iff.mp
    (show (run (Async.Run.step fromStr Hdr.program.high) (Async.Run.start 1 1) als).map
      (fun a => (a.main, a.sys.pool.log.evicted .hi, a.sys.pool.log.evicted .lo, a.sys.shed,
        a.queued)) =
      some (.finished (some [("w", 1)]) ⟨⟨[2]⟩, ⟨[]⟩, ⟨[2]⟩, 0, 0, 0⟩, [], [], [], []) from rfl)
  obtain ⟨htm, htrest⟩ := Prod.mk.inj hts
  obtain ⟨hte, htrest⟩ := Prod.mk.inj htrest
  obtain ⟨htshed, htleft⟩ := Prod.mk.inj htrest
  obtain ⟨ham, harest⟩ := Prod.mk.inj has
  obtain ⟨hhi, harest⟩ := Prod.mk.inj harest
  obtain ⟨hlo, harest⟩ := Prod.mk.inj harest
  obtain ⟨hashed, haleft⟩ := Prod.mk.inj harest
  have acalm : Async.Run.Calm fromStr Hdr.program.high 1 als a :=
    ⟨fun k => by cases k <;> assumption, hashed, haleft, by decide +kernel⟩
  obtain ⟨tboard, aboard, htb, hab, hanswers, _, _, hsame⟩ := same_board fromStr Hdr.program.high
    [⟨0, raw⟩, ⟨5, "a\nb".toList⟩] (by simp) (fun text => (Sse.decode text).map .event)
    (fun _ _ => rfl) 1 (by decide) (by decide) [.up 60 true] [.up 60 false]
    ⟨_, [], rfl, by decide +kernel⟩
    ⟨_, [], rfl, by decide +kernel⟩ 1 1 tls t ht ⟨.never, _, rfl, by decide +kernel⟩
    ⟨hte, htshed, htleft⟩ _ htm
    1 1 als a ha ⟨.never, 1, _, rfl, by decide +kernel⟩ acalm _ _ ham
  obtain rfl := hsame (by decide)
  exact ⟨t, a, tboard, _, ht, ha, by rw [htm, htb], by rw [ham, hab], hanswers⟩

end Equivalence

end RtsPipeline
