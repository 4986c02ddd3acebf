/-
  From the recorder's clock to the player's.

  The recorder stamps a payload with the time since its start, the file keeps the stamp, and the
  player divides what lies between two stamps by its rate and sleeps that long.  So the payloads of
  a replay follow each other as they came in, that much faster.

  Three results are put together: what a recording holds (`Kept`), what its stamps say (`Stamped`),
  and the cadence of a fixture that is in order.  Nothing is lost between them because the stamps
  are whole nanoseconds from end to end: the recorder cuts none off within 584 years, the file has
  them as digits, and a division by a whole number rounds down once.  The start of the recording
  drops out, as only differences to the first stamp are used.

  1. `arrived` — when the sink was called.
  2. `Stamped` — what every run keeps: the stamps of a recording are these times.
  3. `recorded_cadence` — the times at which the player sends, by the times at which they arrived.
-/
import RtsPipeline.Replay.Copy
import RtsPipeline.Replay.Rate

namespace RtsPipeline.Replay

open Lib

namespace Recording

variable {ε ι : Type} {serde : SerdeJson ε} {duration : Option Nat}

/-- When the sink is called. -/
def arrived (s : Recording ι) : RecordEvent ι → List Nat
  | .sink _ => [s.now]
  | _ => []

/-- And with what it sends then. -/
def seen (s : Recording ι) : RecordEvent ι → List (Nat × Envelope)
  | .sink data => [(s.now, { recvNs := s.stamp, data := data })]
  | _ => []

theorem seen_arrived (s : Recording ι) (e : RecordEvent ι) :
    (s.seen e).map Prod.fst = s.arrived e := by
  cases e <;> rfl

theorem seen_sent (s : Recording ι) (e : RecordEvent ι) : (s.seen e).map Prod.snd = s.sent e := by
  cases e <;> rfl

/-- The envelopes are stamped with the times at which they were sent, counted from the start.  The
    start is set once, before the first of them, and the clock does not go back (`started`,
    `since`), so the differences are never negative and the cut at `u64::MAX` is the only one. -/
structure Stamped (s : Recording ι) (pairs : List (Nat × Envelope)) : Prop where
  opening : s.main = .opening → pairs = []
  started : s.start ≤ s.now
  since : ∀ p ∈ pairs, s.start ≤ p.1 ∧ p.1 ≤ s.now
  stamp : ∀ p ∈ pairs, p.2.recvNs = .ofNat (min (p.1 - s.start) u64Max)

/-- A step that neither sends nor starts the recording. -/
theorem Stamped.keep {s s' : Recording ι} {pairs : List (Nat × Envelope)} (h : s.Stamped pairs)
    (phase : s'.main = .opening → s.main = .opening) (start : s'.start = s.start)
    (later : s.now ≤ s'.now) : s'.Stamped pairs where
  opening hm := h.opening (phase hm)
  started := by
    rw [start]
    exact Nat.le_trans h.started later
  since p hp := by
    rw [start]
    exact ⟨(h.since p hp).1, Nat.le_trans (h.since p hp).2 later⟩
  stamp p hp := by
    rw [start]
    exact h.stamp p hp

/-- **Step lemma** for `Stamped`. -/
theorem Stamped.step {s s' : Recording ι} {e : RecordEvent ι} {pairs : List (Nat × Envelope)}
    (h : s.Stamped pairs) (hs : Stepped serde duration s e s') :
    s'.Stamped (pairs ++ s.seen e) := by
  -- only a call of the sink is seen, and it stamps what it sends with the time it reads
  by_cases silent : s.seen e = []
  · rw [silent, List.append_nil]
    cases hs with
    | sink data phase => cases silent
    | created phase =>
      obtain rfl := h.opening phase
      exact ⟨fun hm => (by cases hm), Nat.le_refl _, fun p hp => absurd hp List.not_mem_nil,
        fun p hp => absurd hp List.not_mem_nil⟩
    | elapse ns => exact h.keep (fun hm => hm) rfl (Nat.le_add_right _ _)
    | refused source phase => exact h.keep (fun hm => (by cases hm)) rfl (Nat.le_refl _)
    | ended outcome phase => exact h.keep (fun hm => (by cases hm)) rfl (Nat.le_refl _)
    | join outcome result phase joined => exact h.keep (fun hm => (by cases hm)) rfl (Nat.le_refl _)
    | _ => exact h.keep (fun hm => hm) rfl (Nat.le_refl _)
  · cases hs with
    | sink data phase =>
      refine ⟨fun hm => ?_, h.started, fun p hp => ?_, fun p hp => ?_⟩
      · change s.main = .opening at hm
        rw [phase] at hm
        cases hm
      · rcases List.mem_append.mp hp with hp | hp
        · exact h.since p hp
        · rw [List.mem_singleton.mp hp]
          exact ⟨h.started, Nat.le_refl _⟩
      · rcases List.mem_append.mp hp with hp | hp
        · exact h.stamp p hp
        · rw [List.mem_singleton.mp hp]
          rfl
    | _ => exact absurd rfl silent

/-- **Run lemma** for `Stamped`. -/
theorem stamped_of_run {old : Text} {ls : List (RecordEvent ι)} {s : Recording ι}
    (h : run (step serde duration) (init old) ls = some s) :
    s.Stamped (observe (step serde duration) seen (init old) ls) := by
  have hinit : (init old : Recording ι).Stamped [] :=
    ⟨fun _ => rfl, Nat.le_refl _, fun p hp => absurd hp List.not_mem_nil,
      fun p hp => absurd hp List.not_mem_nil⟩
  have hstamped := run_observe (R := fun s pairs => s.Stamped pairs)
    (fun _ _ _ _ hR hs => hR.step (stepped_of_step hs)) ls _ s [] hinit h
  rwa [List.nil_append] at hstamped

/-- What lies between two stamps of a recording lies between two calls of the sink, and is short. -/
theorem gap_recorded {old : Text} {ls : List (RecordEvent ι)} {s : Recording ι}
    (h : run (step serde duration) (init old) ls = some s) (brief : s.now < s.start + 2 ^ 53)
    (i : Nat) :
    let events := (observe (step serde duration) sent (init old) ls).map Envelope.event
    let times := observe (step serde duration) arrived (init old) ls
    i < events.length → Player.gap events i = times.getD i 0 - times.getD 0 0 ∧
      Player.gap events i < 2 ^ 53 := by
  intro events times hi
  have hstamped := stamped_of_run h
  generalize hpairs : observe (step serde duration) seen (init old) ls = pairs at hstamped
  have hevents : events = pairs.map fun p => p.2.event := by
    have hsent : (fun (t : Recording ι) e => (t.seen e).map Prod.snd) = sent :=
      funext fun t => funext (seen_sent t)
    show (observe (step serde duration) sent (init old) ls).map Envelope.event = _
    rw [← hsent, ← observe_part, hpairs, List.map_map]
    rfl
  have htimes : times = pairs.map Prod.fst := by
    have harrived : (fun (t : Recording ι) e => (t.seen e).map Prod.fst) = arrived :=
      funext fun t => funext (seen_arrived t)
    show observe (step serde duration) arrived (init old) ls = _
    rw [← harrived, ← observe_part, hpairs]
  -- a stamp that is not cut off says the time
  have hstamp : ∀ p ∈ pairs, p.2.event.recvNs = p.1 - s.start := by
    intro p hp
    have hlast := (hstamped.since p hp).2
    have hmax : u64Max = 2 ^ 64 - 1 := rfl
    show p.2.recvNs.toNat = _
    rw [hstamped.stamp p hp, UInt64.toNat_ofNat_of_lt' (by
      show min _ _ < 2 ^ 64
      omega)]
    omega
  have hlength : events.length = pairs.length := by rw [hevents, List.length_map]
  have hat : ∀ j < pairs.length, (events[j]?.map RecordedEvent.recvNs).getD 0 =
      times.getD j 0 - s.start ∧ s.start ≤ times.getD j 0 ∧ times.getD j 0 ≤ s.now := by
    intro j hj
    have hmem : pairs[j] ∈ pairs := List.getElem_mem hj
    rw [hevents, htimes, List.getD_eq_getElem?_getD, List.getElem?_map, List.getElem?_map,
      List.getElem?_eq_getElem hj]
    exact ⟨hstamp _ hmem, hstamped.since _ hmem⟩
  rw [hlength] at hi
  obtain ⟨hitem, _, hlast⟩ := hat i hi
  obtain ⟨hfirst, hstart, _⟩ := hat 0 (Nat.lt_of_le_of_lt (Nat.zero_le i) hi)
  rw [Player.gap, List.head?_eq_getElem?, hitem, hfirst]
  omega

/-- **The cadence of a recording.**  A recording of less than 104 days is replayed at `nx`, as the
    command line reads it, for a whole number `n` below `2 ^ 53`: the payloads are sent as they came
    in, over and over, the time between the first and any of them divided by `n`, and the time of
    each pass before; none earlier, whatever the consumer does, and in a prompt run none later than
    the consumer and one late sleep for each pass make it.

    The recording loads with the times of the sink's calls, by `Stamped`; a whole rate below `2 ^
    53` is read and divides exactly, and then it is the cadence of the replay. -/
theorem recorded_cadence {serde : SerdeJson ε} (lawful : serde.Lawful) (path : Text)
    (duration : Option Nat) (old : Text) (ls : List (RecordEvent ι)) (s : Recording ι) (c : Nat)
    (h : run (step serde duration) (init old) ls = some s) (ok : s.main = .returned (.ok c))
    (positive : 1 ≤ c) (brief : s.now < s.start + 2 ^ 53) (n : Nat) (hn : 0 < n)
    (small : n < 2 ^ 53) :
    let times := observe (step serde duration) arrived (init old) ls
    let payloads := ls.filterMap RecordEvent.payload?
    let since := fun i => times.getD i 0 - times.getD 0 0
    ∃ events rate, loadFixture (ι := ι) serde path (.ok (textLines s.file)) = .ok events ∧
      parseRate (Nat.toDigits 10 n ++ ['x']) = .ok rate ∧
      ∀ late think ps t,
        run (Timed.step (Player.act rate.scaledNs)) ⟨0, .start events⟩ ps = some t →
        ∀ k x, t.state.sent[k]? = some x →
          x.2 = frame (payloads.getD (k % c) []) ∧
          k / c * (since (c - 1) / n) + since (k % c) / n ≤ x.1 ∧
          (Throughout (Timed.step (Player.act rate.scaledNs)) (Player.Punctual late think)
              ⟨0, .start events⟩ ps →
            x.1 ≤ k / c * (since (c - 1) / n + late + (c + 1) * think) +
              since (k % c) / n + late + (k % c + 1) * think) := by
  intro times payloads since
  -- the recording loads; its times are in order and as far apart as the payloads came
  obtain ⟨hload, hdata, hlength⟩ := loaded_of_run lawful path h ok positive
  have hgap := gap_recorded h brief
  have hordered : ((observe (step serde duration) sent (init old) ls).map Envelope.event).Pairwise
      fun a b => a.recvNs ≤ b.recvNs := List.pairwise_map.mpr (kept_of_run h).ordered
  generalize (observe (step serde duration) sent (init old) ls).map Envelope.event = events
    at hload hdata hlength hgap hordered
  have hne : events ≠ [] := List.ne_nil_of_length_pos (by omega)
  refine ⟨events, .multiplier ⟨n, Rat.natCast_pos.mpr hn⟩, hload, parseRate_whole hn small, ?_⟩
  intro late think ps t ht k x hk
  -- a fixture in order that is played at a whole rate, and its gaps are those of the recording
  have hlast : events.length - 1 < events.length := by omega
  have hspan := (hgap _ hlast).2
  obtain ⟨hframe, hearly, hlate⟩ :=
    Player.sent_at_whole_rate (n := n) rfl hne hordered hspan late think ht hk
  have hitem : k % events.length < events.length := Nat.mod_lt k (by omega)
  rw [(hgap _ hlast).1, (hgap _ hitem).1, hlength] at hearly hlate
  have hpayloads : payloads = events.map RecordedEvent.data := hdata.symm
  refine ⟨?_, hearly, hlate⟩
  rw [hframe, Player.frameAt, hlength, hpayloads, List.getD_eq_getElem?_getD, List.getElem?_map]

/-- Two payloads twenty apart, the first seven after the start, replayed at `10x`. -/
theorem recorded_cadence_ten :
    let ls : List (RecordEvent Unit) :=
      [.elapse 5, .create (.ok ()), .elapse 7, .sink "x".toList, .elapse 20, .sink "y".toList,
        .recv, .write, .recv, .write, .cancel, .ended (.ok .cancelled), .recv, .flush, .join]
    let ps : List (TimedEvent PlayEvent) := [.act .poll, .act .poll, .elapse 2, .act .wake]
    ∃ s events rate t, run (step compact none) (init []) ls = some s ∧
      loadFixture (ι := Unit) compact "out".toList (.ok (textLines s.file)) = .ok events ∧
      parseRate "10x".toList = .ok rate ∧
      run (Timed.step (Player.act rate.scaledNs)) ⟨0, .start events⟩ ps = some t ∧
      t.state.sent = [(0, frame "x".toList), (2, frame "y".toList)] ∧
      ∀ x, t.state.sent[1]? = some x → x.2 = frame "y".toList ∧ 2 ≤ x.1 := by
  intro ls ps
  have hrun : ∃ s, run (step compact none) (init []) ls = some s ∧
      s.main = .returned (.ok 2) ∧ s.now < s.start + 2 ^ 53 ∧
      loadFixture (ι := Unit) compact "out".toList (.ok (textLines s.file)) =
        .ok [⟨7, "x".toList⟩, ⟨27, "y".toList⟩] :=
    ⟨_, rfl, rfl, by decide, by decide +kernel⟩
  obtain ⟨s, hs, hok, hbrief, hfixture⟩ := hrun
  obtain ⟨events, rate, hload, hparse, hcadence⟩ := recorded_cadence compact_lawful "out".toList
    none [] ls s 2 hs hok (by decide) hbrief 10 (by decide) (by decide)
  obtain rfl := Except.ok.inj (hfixture.symm.trans hload)
  have hten : parseRate "10x".toList = .ok (.multiplier ⟨10, by norm_num⟩) := by decide +kernel
  obtain rfl := Except.ok.inj (hten.symm.trans hparse)
  obtain ⟨t, ht, hsent⟩ := Option.map_eq_some_iff.mp
    (show (run (Timed.step (Player.act (Rate.multiplier ⟨10, by norm_num⟩).scaledNs))
      ⟨0, .start [⟨7, "x".toList⟩, ⟨27, "y".toList⟩]⟩ ps).map (fun t => t.state.sent) =
      some [(0, frame "x".toList), (2, frame "y".toList)] from by decide +kernel)
  refine ⟨s, _, _, t, hs, hload, hten, ht, hsent, fun x hx => ?_⟩
  obtain ⟨hframe, hearly, _⟩ := hcadence 0 0 ps t ht 1 x hx
  refine ⟨hframe, Nat.le_trans ?_ hearly⟩
  decide +kernel

end Recording

end RtsPipeline.Replay
