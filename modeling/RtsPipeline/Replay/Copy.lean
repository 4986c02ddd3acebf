/-
  A recording of a replay.

  The recorder's upstream is the async ingest, and the replay server is an upstream like any other.
  So a recording can be copied: recorded, loaded, served, decoded and recorded again.  The copy's
  connections may break anywhere, and it may stop at any time.

  1. `looped_first`, `length_le_wholeFrames` — after one pass of the stream the fixture has arrived.
  2. `loaded_of_run` — what a recording loads as.
  3. `copied_recording` — a copy holds payloads of the recording, and begins with all of them.
-/
import RtsPipeline.Replay.Cut
import RtsPipeline.Replay.Record

namespace RtsPipeline.Replay

open Lib

/-! ## One pass of the stream

How many payloads have arrived of a connection depends on how many characters it carried.  The
stream of one pass is as long as its frames together, so a connection that carried so many has
carried each of them. -/

/-- What is served begins with the fixture. -/
theorem looped_first {events : List RecordedEvent} {k : Nat} (h : events.length ≤ k) :
    events.map RecordedEvent.data <+: looped events k := by
  obtain ⟨j, rfl⟩ := Nat.exists_eq_add_of_le h
  rw [looped, List.range_add, List.map_append]
  have hpass : events.map RecordedEvent.data = (List.range events.length).map fun i =>
      (events[i % events.length]?.map RecordedEvent.data).getD [] := by
    refine List.ext_getElem (by rw [List.length_map, List.length_map, List.length_range]) ?_
    intro i hi _
    rw [List.length_map] at hi
    rw [List.getElem_map, List.getElem_map, List.getElem_range, Nat.mod_eq_of_lt hi,
      List.getElem?_eq_getElem hi]
    rfl
  rw [← hpass]
  exact List.prefix_append _ _

/-- Frames that are within the first `b` characters have arrived. -/
theorem length_le_wholeFrames {datas : List Text} (more : List Text) :
    ∀ {b : Nat}, (datas.flatMap frame).length ≤ b →
      datas.length ≤ wholeFrames b (datas ++ more) := by
  induction datas with
  | nil => exact fun _ => Nat.zero_le _
  | cons data datas ih =>
    intro b h
    rw [List.flatMap_cons, List.length_append] at h
    rw [List.cons_append, wholeFrames, if_pos (by omega), List.length_cons]
    exact Nat.succ_le_succ (ih (by omega))

/-- A fixture has no more events than its stream has characters. -/
theorem length_le_onePass (events : List RecordedEvent) :
    events.length ≤ (onePass events).length := by
  rw [onePass_frames]
  induction events with
  | nil => exact Nat.zero_le _
  | cons e events ih =>
    rw [List.map_cons, List.flatMap_cons, List.length_append, List.length_cons, frame_eq_front,
      List.length_append, List.length_singleton]
    omega

/-- A connection that lasts for one pass: all of the fixture has arrived. -/
theorem Link.arrived_pass {events : List RecordedEvent} {chars : Nat}
    (h : (onePass events).length ≤ chars) (failed : Bool) :
    events.map RecordedEvent.data <+: (Link.up chars failed).arrived events := by
  obtain ⟨more, hmore⟩ := looped_first (Nat.le_trans (length_le_onePass events) h)
  rw [onePass_frames] at h
  have hcount := length_le_wholeFrames more h
  rw [hmore] at hcount
  rw [Link.arrived, List.prefix_take_iff]
  exact ⟨⟨more, hmore⟩, hcount⟩

/-! ## The copy

What a recorder writes is a prefix of what its ingest handed to it: the rest is what was still in
its channel or came too late.  What the ingest handed over is, connection by connection, what
arrived of each.  And what is loaded is what was written. -/

namespace Recording

variable {ε ι : Type} {serde : SerdeJson ε}

/-- What a recording loads as: the envelopes sent, whose payloads are those handed to the sink. -/
theorem loaded_of_run (lawful : serde.Lawful) {duration : Option Nat} {old : Text} (path : Text)
    {ls : List (RecordEvent ι)} {s : Recording ι} {c : Nat}
    (h : run (step serde duration) (init old) ls = some s) (ok : s.main = .returned (.ok c))
    (positive : 1 ≤ c) :
    let events := (observe (step serde duration) sent (init old) ls).map Envelope.event
    loadFixture (ι := ι) serde path (.ok (textLines s.file)) = .ok events ∧
      events.map RecordedEvent.data = ls.filterMap RecordEvent.payload? ∧ events.length = c := by
  have hkept := kept_of_run h
  obtain ⟨hfile, _, hcount⟩ := hkept.finished c (hkept.returned c ok)
  rw [hcount] at positive
  refine ⟨?_, ?_, by rw [hcount, List.length_map]⟩
  · rw [hfile]
    exact loadFixture_written lawful path (List.ne_nil_of_length_pos positive)
  · rw [← data_sent h, List.map_map]
    rfl

/-- **A copy of a recording.**  A recording of plain payloads is served, and recorded again over any
    connections, each broken off anywhere.  A copy of at least one event loads, and its payloads are
    those of the frames that arrived, in order, up to some point; and if its first connection lasted
    for one pass of the stream, a copy of no fewer events begins with the payloads that the first
    recorder was handed.

    Three results in a row: the first recording loads back, its replay is handed over by
    `broken_replay`, and the second recording loads back. -/
theorem copied_recording {serde : SerdeJson ε} (lawful : serde.Lawful)
    (path : Text) (duration duration' : Option Nat) (old old' : Text) (cancel : Flag)
    (ls ls' : List (RecordEvent ι)) (s s' : Recording ι) (c c' : Nat)
    (h : run (step serde duration) (init old) ls = some s) (ok : s.main = .returned (.ok c))
    (positive : 1 ≤ c)
    (plain : ∀ data ∈ ls.filterMap RecordEvent.payload?, data ≠ [] ∧ StandardWhole data)
    (events : List RecordedEvent)
    (loaded : loadFixture (ι := ι) serde path (.ok (textLines s.file)) = .ok events)
    (eventsource : Text → List Async.Frame)
    (hsse : Equivalence.ImplementsSse eventsource (Set.range (served events))) (links : List Link)
    (h' : run (step serde duration') (init old') ls' = some s') (ok' : s'.main = .returned (.ok c'))
    (positive' : 1 ≤ c')
    (upstream : ls'.filterMap RecordEvent.payload? = (Async.runSse (.ok ()) none (.start cancel)
      (links.map (Link.async eventsource events))).2.calls) :
    ∃ events', loadFixture (ι := ι) serde path (.ok (textLines s'.file)) = .ok events' ∧
      events'.length = c' ∧
      events'.map RecordedEvent.data <+: links.flatMap (Link.arrived events) ∧
      ∀ chars failed rest, links = .up chars failed :: rest → (onePass events).length ≤ chars →
        c ≤ c' → ls.filterMap RecordEvent.payload? <+: events'.map RecordedEvent.data := by
  obtain ⟨hfound, hdata, hlength⟩ := loaded_of_run lawful path h ok positive
  rw [← Except.ok.inj (loaded.symm.trans hfound)] at hdata hlength
  obtain ⟨hload', hdata', hlength'⟩ := loaded_of_run lawful path h' ok' positive'
  generalize (observe (step serde duration') sent (init old') ls').map Envelope.event = events'
    at hload' hdata' hlength'
  have hne : events ≠ [] := List.ne_nil_of_length_pos (by omega)
  have hplain : ∀ e ∈ events, e.data ≠ [] ∧ StandardWhole e.data := by
    intro e he
    refine plain e.data ?_
    rw [← hdata]
    exact List.mem_map_of_mem he
  -- what the ingest hands to the second recorder's sink
  obtain ⟨out, hcalls, hout, _⟩ := Async.runLoop_calls none
    (links.map (Link.async eventsource events)) (.start cancel)
  have hpay : (links.map (Link.async eventsource events)).flatMap Async.Conn.payloads =
      links.flatMap (Link.arrived events) := by
    rw [List.flatMap_map]
    exact List.flatMap_congr fun link _ => Link.async_payloads hsse hne hplain link
  have hcopied : events'.map RecordedEvent.data = out := (hdata'.trans upstream).trans hcalls
  rw [hpay, ← hcopied] at hout
  refine ⟨events', hload', hlength', hout, ?_⟩
  intro chars failed rest hlinks hpass hle
  have hfirst : events.map RecordedEvent.data <+: links.flatMap (Link.arrived events) := by
    rw [hlinks, List.flatMap_cons]
    exact (Link.arrived_pass hpass failed).trans (List.prefix_append _ _)
  rw [← hdata]
  refine List.prefix_of_prefix_length_le hfirst hout ?_
  rw [List.length_map, List.length_map, hlength, hlength']
  exact hle

/-- The copy's first connection breaks in its third frame, and the second ends after one. -/
theorem copied_recording_twice :
    let ls : List (RecordEvent Unit) :=
      [.create (.ok ()), .sink "x".toList, .elapse 7, .sink "y".toList, .recv, .write, .recv,
        .write, .cancel, .ended (.ok .cancelled), .recv, .flush, .join]
    let ls' : List (RecordEvent Unit) :=
      [.create (.ok ()), .sink "x".toList, .sink "y".toList, .elapse 250, .sink "x".toList, .recv,
        .write, .recv, .write, .recv, .write, .timer, .ended (.ok .cancelled), .recv, .flush, .join]
    ∃ s s' events events', run (step compact none) (init []) ls = some s ∧
      loadFixture (ι := Unit) compact "a".toList (.ok (textLines s.file)) = .ok events ∧
      run (step compact (some 250)) (init []) ls' = some s' ∧
      loadFixture (ι := Unit) compact "a".toList (.ok (textLines s'.file)) = .ok events' ∧
      ["x".toList, "y".toList] <+: events'.map RecordedEvent.data := by
  intro ls ls'
  let events : List RecordedEvent := [⟨0, "x".toList⟩, ⟨7, "y".toList⟩]
  let links : List Link := [.up 60 true, .up 30 false]
  have hload : ∃ s, run (step compact none) (init []) ls = some s ∧
      s.main = .returned (.ok 2) ∧
      loadFixture (ι := Unit) compact "a".toList (.ok (textLines s.file)) = .ok events :=
    ⟨_, rfl, rfl, by decide +kernel⟩
  obtain ⟨s, hrun, hok, hload⟩ := hload
  obtain ⟨events', hload', _, _, hfirst⟩ := copied_recording compact_lawful "a".toList none
    (some 250) [] [] .never ls ls' s _ 2 3 hrun hok (by decide) (by decide) events hload
    (fun text => (Sse.decode text).map .event) (fun _ _ => rfl) links rfl rfl (by decide)
    (by decide +kernel)
  exact ⟨s, _, events, events', hrun, hload, rfl, hload',
    hfirst 60 true [.up 30 false] rfl (by decide +kernel) (by decide)⟩

end Recording

end RtsPipeline.Replay
