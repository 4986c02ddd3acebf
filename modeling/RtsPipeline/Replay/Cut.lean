/-
  A replay over connections that break.

  The replay server starts its fixture anew for every connection, and serves it over and over as
  long as the connection lasts.  A connection may break after any number of characters, in the
  middle of a frame too, and each ingest then connects again.

  1. `looped` — what the server serves.
  2. `wholeFrames`, `decode_cut` — what a decoder makes of a stream that stops anywhere: the
     payloads whose frames have arrived, whole and in order.  Both decoders qualify:
     `threaded_first` and `threaded_front`, `standard_first` and `standard_front`.
  3. `runSse_calls`, `runLoop_calls` — what the ingests hand to their sinks over any connections.
  4. `broken_replay` — both together.

  The two halves meet at the payloads of a connection.  On the side of the server a connection is a
  stream cut off at some character, and what has to be shown is that a decoder gives back the frames
  before the cut and makes nothing of the piece behind them: a frame counts from its blank line on,
  and a piece of one has none.  On the side of the ingest a connection is a list of payloads, and
  what has to be shown is that `run_sse` hands over a first part of them and goes on to the next
  connection only when it handed over all.
-/
import RtsPipeline.Replay.Pace
import RtsPipeline.Replay.RoundTrip

namespace RtsPipeline

open Lib

/-! ## What the ingests hand over

Before anything is said about a server: an ingest hands over some of the payloads of its
connections, in order, and if it goes on it has handed over all of them.  Both loops stop in the
middle of a connection only to return. -/

namespace Threaded

/-- A connection that is read hands over payloads of its lines, in order, and all of them if it is
    lost. -/
theorem readLoop_calls {limit : Option Nat} {ending : Ending} :
    ∀ (lines : List Text) (s : Ingest) (dataBuf : List Text),
    ∃ out, (readLoop limit s dataBuf (lines.map .ok ++ ending.items)).2.calls = s.calls ++ out ∧
      out <+: Sse.payloads dataLine dataBuf lines ∧
      ((readLoop limit s dataBuf (lines.map .ok ++ ending.items)).1 ≠ .ok () →
        out = Sse.payloads dataLine dataBuf lines) := by
  intro lines
  -- induction on the lines: what a line completes is handed over before the next is read
  induction lines with
  | nil =>
    intro s dataBuf
    refine ⟨[], ?_, List.nil_prefix, fun _ => rfl⟩
    rw [List.append_nil]
    cases ending with
    | eof => rfl
    | error =>
      show (readLoop limit s dataBuf [.error .io]).2.calls = s.calls
      rw [readLoop]
      split
      · rfl
      · split <;> rfl
  | cons line lines ih =>
    intro s dataBuf
    rw [List.map_cons, List.cons_append, readLoop]
    split
    · exact ⟨[], (List.append_nil _).symm, List.nil_prefix, fun hne => absurd rfl hne⟩
    · split
      · exact ⟨[], (List.append_nil _).symm, List.nil_prefix, fun hne => absurd rfl hne⟩
      · obtain ⟨out, dataBuf', hline, _, hpay⟩ := onLine_spec (s.loaded 1) dataBuf line
        obtain ⟨out', hcalls, hle, hall⟩ := ih ((s.loaded 1).deliver out) dataBuf'
        simp only [hline]
        refine ⟨out ++ out', ?_, ?_, fun hne => ?_⟩
        · rw [hcalls, Ingest.deliver_calls, Ingest.loaded_calls, List.append_assoc]
        · rw [hpay]
          exact (List.prefix_append_right_inj out).mpr hle
        · rw [hpay, hall hne]

theorem readStream_calls (limit : Option Nat) (s : Ingest) (conn : Conn) :
    ∃ out, (readStream limit s conn).2.calls = s.calls ++ out ∧ out <+: conn.payloads ∧
      ((readStream limit s conn).1 ≠ .ok () → out = conn.payloads) := by
  cases conn with
  | refused => exact ⟨[], (List.append_nil _).symm, List.nil_prefix, fun _ => rfl⟩
  | opened lines ending => exact readLoop_calls lines s []

/-- **The threaded ingest** hands over the payloads of its connections, in order, up to some point,
    and all of them as long as it goes on. -/
theorem runSse_calls (limit : Option Nat) :
    ∀ (conns : List Conn) (s : Ingest),
    ∃ out, (runSse limit s conns).2.calls = s.calls ++ out ∧
      out <+: conns.flatMap Conn.payloads ∧
      ((runSse limit s conns).1 = none → out = conns.flatMap Conn.payloads) := by
  intro conns
  -- induction on the connections: only a lost one leads to the next
  induction conns with
  | nil =>
    intro s
    refine ⟨[], ?_, List.nil_prefix, fun _ => rfl⟩
    rw [List.append_nil, runSse]
    split
    · rfl
    · split <;> rfl
  | cons conn conns ih =>
    intro s
    rw [runSse]
    split
    · exact ⟨[], (List.append_nil _).symm, List.nil_prefix, fun h => by cases h⟩
    · split
      · exact ⟨[], (List.append_nil _).symm, List.nil_prefix, fun h => by cases h⟩
      · obtain ⟨out, hcalls, hle, hall⟩ := readStream_calls limit (s.loaded 1) conn
        have hfirst : out <+: (conn :: conns).flatMap Conn.payloads := by
          rw [List.flatMap_cons]
          exact hle.trans (List.prefix_append _ _)
        generalize readStream limit (s.loaded 1) conn = r at hcalls hall
        obtain ⟨result, t⟩ := r
        have ht : t.calls = s.calls ++ out := hcalls
        cases result with
        | ok u =>
          simp only
          split
          · exact ⟨out, ht, hfirst, fun h => by cases h⟩
          · exact ⟨out, ht, hfirst, fun h => by cases h⟩
        | error e =>
          simp only
          split
          · exact ⟨out, ht, hfirst, fun h => by cases h⟩
          · -- the connection was lost, and the next one goes on behind its payloads
            have hlost := hall fun h => by cases h
            obtain ⟨out', hcalls', hle', hall'⟩ := ih (t.loaded 1).backOff
            refine ⟨out ++ out', ?_, ?_, fun h => ?_⟩
            · rw [hcalls', Ingest.backOff_calls, Ingest.loaded_calls, ht, List.append_assoc]
            · rw [List.flatMap_cons, hlost]
              exact (List.prefix_append_right_inj _).mpr hle'
            · rw [List.flatMap_cons, hlost, hall' h]

end Threaded

namespace Async

/-- A stream that is read hands over events in order, and all of them if it ends. -/
theorem readFrames_calls {limit : Option Nat} :
    ∀ (frames : List Frame) (s : Ingest),
    ∃ out, (readFrames limit s frames).2.calls = s.calls ++ out ∧
      out <+: frames.filterMap Frame.payload? ∧
      ((readFrames limit s frames).1 = none → out = frames.filterMap Frame.payload?) := by
  intro frames
  -- induction on the frames: the loop ends early only if it has an outcome
  induction frames with
  | nil =>
    intro s
    refine ⟨[], ?_, List.nil_prefix, fun _ => rfl⟩
    rw [readFrames, List.append_nil]
    split <;> rfl
  | cons frame frames ih =>
    intro s
    cases frame with
    | error =>
      rw [readFrames]
      split
      · exact ⟨[], (List.append_nil _).symm, List.nil_prefix, fun h => by cases h⟩
      · exact ih (s.loaded 1)
    | event data =>
      rw [readFrames]
      split
      · exact ⟨[], (List.append_nil _).symm, List.nil_prefix, fun h => by cases h⟩
      · by_cases hd : data = []
        · rw [if_pos hd, List.filterMap_cons_none (by rw [Frame.payload?, if_pos hd])]
          exact ih (s.loaded 1)
        · rw [if_neg hd, List.filterMap_cons_some (by rw [Frame.payload?, if_neg hd])]
          simp only
          split
          · exact ⟨[data], rfl, List.prefix_append [data] _, fun h => by cases h⟩
          · obtain ⟨out, hcalls, hle, hall⟩ := ih ((s.loaded 1).deliver data)
            refine ⟨data :: out, ?_, ?_, fun h => by rw [hall h]⟩
            · rw [hcalls]
              show s.calls ++ [data] ++ out = _
              rw [List.append_assoc, List.singleton_append]
            · exact (List.prefix_cons_inj data).mpr hle

theorem attempt_calls (limit : Option Nat) (s : Ingest) (conn : Conn) :
    ∃ out, (attempt limit s conn).2.calls = s.calls ++ out ∧ out <+: conn.payloads ∧
      ((attempt limit s conn).1 = none → out = conn.payloads) := by
  cases conn with
  | sendError => exact ⟨[], (List.append_nil _).symm, List.nil_prefix, fun _ => rfl⟩
  | badStatus => exact ⟨[], (List.append_nil _).symm, List.nil_prefix, fun _ => rfl⟩
  | success frames => exact readFrames_calls frames s.established

/-- **The async ingest** hands over the payloads of its connections, in order, up to some point, and
    all of them as long as it goes on. -/
theorem runLoop_calls (limit : Option Nat) :
    ∀ (conns : List Conn) (s : Ingest),
    ∃ out, (runLoop limit s conns).2.calls = s.calls ++ out ∧
      out <+: conns.flatMap Conn.payloads ∧
      ((runLoop limit s conns).1 = none → out = conns.flatMap Conn.payloads) := by
  intro conns
  induction conns with
  | nil =>
    intro s
    refine ⟨[], ?_, List.nil_prefix, fun _ => rfl⟩
    rw [List.append_nil, runLoop]
    split
    · rfl
    · split <;> rfl
  | cons conn conns ih =>
    intro s
    rw [runLoop]
    split
    · exact ⟨[], (List.append_nil _).symm, List.nil_prefix, fun h => by cases h⟩
    · split
      · exact ⟨[], (List.append_nil _).symm, List.nil_prefix, fun h => by cases h⟩
      · obtain ⟨out, hcalls, hle, hall⟩ := attempt_calls limit (s.loaded 2) conn
        have hfirst : out <+: (conn :: conns).flatMap Conn.payloads := by
          rw [List.flatMap_cons]
          exact hle.trans (List.prefix_append _ _)
        generalize attempt limit (s.loaded 2) conn = r at hcalls hall
        obtain ⟨outcome, t⟩ := r
        have ht : t.calls = s.calls ++ out := hcalls
        cases outcome with
        | some outcome => exact ⟨out, ht, hfirst, fun h => by cases h⟩
        | none =>
          simp only
          split
          · exact ⟨out, ht, hfirst, fun h => by cases h⟩
          -- the stream was read to its end, and the next one goes on behind its payloads
          · have hended := hall rfl
            obtain ⟨out', hcalls', hle', hall'⟩ := ih (t.failed.loaded 1)
            refine ⟨out ++ out', ?_, ?_, fun h => ?_⟩
            · rw [hcalls']
              show t.calls ++ out' = _
              rw [ht, List.append_assoc]
            · rw [List.flatMap_cons, hended]
              exact (List.prefix_append_right_inj _).mpr hle'
            · rw [List.flatMap_cons, hended, hall' h]

end Async

namespace Replay

/-! ## What the server serves

The stream of `replay_stream` without its times: the fixture again and again, without an end. -/

/-- The first `k` payloads of the fixture, over and over. -/
def looped (events : List RecordedEvent) (k : Nat) : List Text :=
  (List.range k).map fun i => (events[i % events.length]?.map RecordedEvent.data).getD []

/-- The items of the stream from anywhere in the fixture. -/
theorem items_from {events : List RecordedEvent} (hne : events ≠ []) :
    ∀ (k : Nat) (s : ReplayState), s.events = events → s.idx ≤ events.length →
    (ReplayState.items k s).map Chunk.bytes =
      (List.range k).map fun i => Player.frameAt events ((s.idx + i) % events.length) := by
  have hpos := List.length_pos_of_ne_nil hne
  intro k
  induction k with
  | zero => exact fun _ _ _ => rfl
  | succ k ih =>
    intro s hevents hle
    -- rewound, the index is that of the next item modulo the length of the fixture
    have hidx : s.rewind.idx = s.idx % events.length ∧ s.rewind.events = events := by
      unfold ReplayState.rewind
      rw [hevents]
      split
      · rename_i hend
        rw [Nat.le_antisymm hle hend, Nat.mod_self]
        exact ⟨rfl, rfl⟩
      · rename_i hend
        exact ⟨(Nat.mod_eq_of_lt (Nat.not_le.mp hend)).symm, hevents⟩
    have hlt := Nat.mod_lt s.idx hpos
    have hnext : ∃ chunk, s.next = some (chunk, { s.rewind with idx := s.rewind.idx + 1 }) ∧
        chunk.bytes = Player.frameAt events (s.idx % events.length) := by
      rw [ReplayState.next, hidx.1, hidx.2, List.getElem?_eq_getElem hlt]
      refine ⟨_, rfl, ?_⟩
      rw [Player.frameAt, List.getElem?_eq_getElem hlt]
      rfl
    obtain ⟨chunk, hnext, hbytes⟩ := hnext
    rw [ReplayState.items, hnext, List.map_cons, List.range_succ_eq_map, List.map_cons,
      List.map_map]
    rw [ih { s.rewind with idx := s.rewind.idx + 1 } hidx.2 (by
      show s.rewind.idx + 1 ≤ events.length
      rw [hidx.1]
      exact hlt), hbytes]
    refine congrArg (_ :: ·) (List.map_congr_left fun i _ => ?_)
    show Player.frameAt events ((s.rewind.idx + 1 + i) % events.length) =
      Player.frameAt events ((s.idx + (i + 1)) % events.length)
    rw [hidx.1, Nat.add_assoc, Nat.mod_add_mod, Nat.add_comm 1 i]

/-- **What the server serves**: the frames of the fixture, over and over. -/
theorem items_looped {events : List RecordedEvent} (hne : events ≠ []) (k : Nat) :
    (ReplayState.items k (.init events)).flatMap Chunk.bytes =
      (looped events k).flatMap frame := by
  rw [List.flatMap_def, items_from hne k (.init events) rfl (Nat.zero_le _), looped,
    List.flatMap_def, List.map_map]
  refine congrArg List.flatten (List.map_congr_left fun i _ => ?_)
  show Player.frameAt events ((0 + i) % events.length) = _
  rw [Nat.zero_add]
  rfl

/-! ## A stream that stops anywhere

A frame is closed by its last LF. If that has arrived, the payload has; if not, a decoder makes
nothing of the piece.  Between the two there is nothing, and so the payloads of a broken stream are
those of its whole frames. -/

/-- How many of the frames are within the first `b` characters. -/
def wholeFrames : Nat → List Text → Nat
  | _, [] => 0
  | b, data :: datas =>
    if (frame data).length ≤ b then wholeFrames (b - (frame data).length) datas + 1 else 0

/-- A frame without its last LF. -/
def front (data : Text) : Text :=
  "event: message".toList ++ '\n' :: ("data: ".toList ++ data ++ ['\n'])

theorem frame_eq_front (data : Text) : frame data = front data ++ ['\n'] := by
  have hsplit : ∀ event dataLine : Text, event ++ '\n' :: (dataLine ++ '\n' :: '\n' :: []) =
      (event ++ '\n' :: (dataLine ++ ['\n'])) ++ ['\n'] := by
    intro event dataLine
    simp only [List.append_assoc, List.cons_append, List.nil_append]
  exact (List.append_nil _).symm.trans ((frame_append data []).trans (hsplit _ _))

/-- A stream that stops within its first frame. -/
theorem take_frame {data rest : Text} {b : Nat} (h : b < (frame data).length) :
    (frame data ++ rest).take b <+: front data := by
  rw [List.take_append_of_le_length (Nat.le_of_lt h), frame_eq_front]
  rw [frame_eq_front, List.length_append, List.length_singleton] at h
  rw [List.take_append_of_le_length (Nat.le_of_lt_succ h)]
  exact List.take_prefix _ _

theorem take_frames {data rest : Text} {b : Nat} (h : (frame data).length ≤ b) :
    (frame data ++ rest).take b = frame data ++ rest.take (b - (frame data).length) := by
  rw [List.take_append, List.take_of_length_le h]

/-- The threaded ingest makes nothing of a frame that has not arrived. -/
theorem threaded_front {data text : Text} (h : '\n' ∉ data) (hle : text <+: front data) :
    Sse.payloads Threaded.dataLine [] (bufLines text) = [] := by
  have hlines : bufLines (front data) =
      [stripCr "event: message".toList, stripCr ("data: ".toList ++ data)] :=
    (bufLines_line (by decide)).trans (congrArg (_ :: ·)
      (bufLines_line (not_mem_dataLine (Or.inl rfl) h)))
  have hnone : Sse.payloads Threaded.dataLine [] (bufLines (front data)) = [] := by
    rw [hlines]
    refine Sse.payloads_unblank _ ?_ _
    rw [stripCr_of_not_mem (by decide), stripCr_append (by decide)]
    simp
  rw [Sse.payloads_bufLines] at hnone ⊢
  have hpre := Sse.payloads_mono Threaded.dataLine (endedLines_mono hle)
  rw [hnone] at hpre
  exact List.prefix_nil.mp hpre

/-- Nor does a standard decoder. -/
theorem standard_front {data text : Text} (h : StandardWhole data) (hle : text <+: front data) :
    Sse.payloads Sse.dataValue [] (eventLines text) = [] := by
  have hlines : eventLines (front data) = ["event: message".toList, "data: ".toList ++ data] :=
    (eventLinesFrom_lf (by decide) (by decide)).trans (congrArg (_ :: ·)
      (eventLinesFrom_lf (not_mem_dataLine (Or.inl rfl) h.1) (not_mem_dataLine (Or.inr rfl) h.2)))
  have hnone : Sse.payloads Sse.dataValue [] (eventLines (front data)) = [] := by
    rw [hlines]
    exact Sse.payloads_unblank _ (by simp) _
  have hpre := Sse.payloads_mono Sse.dataValue (eventLines_mono hle)
  rw [hnone] at hpre
  exact List.prefix_nil.mp hpre

/-- A whole payload comes first, whatever follows its frame. -/
theorem threaded_first {data : Text} (h : ThreadedWhole data) (text : Text) :
    Sse.payloads Threaded.dataLine [] (bufLines (frame data ++ text)) =
      data :: Sse.payloads Threaded.dataLine [] (bufLines text) := by
  rw [bufLines_frame, Sse.payloads, if_neg (by decide),
    show Threaded.dataLine "event: message".toList = none from rfl, Option.toList_none,
    List.append_nil, Sse.payloads_append]
  show threadedFrame data ++ _ = _
  rw [threadedFrame_whole h]
  rfl

theorem standard_first {data : Text} (h : StandardWhole data) (text : Text) :
    Sse.payloads Sse.dataValue [] (eventLines (frame data ++ text)) =
      data :: Sse.payloads Sse.dataValue [] (eventLines text) := by
  rw [eventLines_frame, Sse.payloads, if_neg (by decide),
    show Sse.dataValue "event: message".toList = none from rfl, Option.toList_none,
    List.append_nil, Sse.payloads_append]
  show standardFrame data ++ _ = _
  rw [standardFrame_whole h]
  rfl

section Decoder

/- A decoder that gives a payload back in front of whatever follows its frame, if the payload is of
   the kind `P`. -/
variable (decode : Text → List Text) {P : Text → Prop}
  (first : ∀ {data}, P data → ∀ text, decode (frame data ++ text) = data :: decode text)

include first

/-- **Cut anywhere**: a decoder that makes nothing of a frame that has not arrived has the payloads
    whose frames have.  Either the first frame is whole and the cut lies behind it, or the cut lies
    in it. -/
theorem decode_cut (front : ∀ {data text}, P data → text <+: front data → decode text = [])
    (nothing : decode [] = []) {datas : List Text} (h : ∀ data ∈ datas, P data) :
    ∀ b, decode ((datas.flatMap frame).take b) = datas.take (wholeFrames b datas) := by
  induction datas with
  | nil =>
    intro b
    rw [List.flatMap_nil, List.take_nil, nothing]
    rfl
  | cons data datas ih =>
    intro b
    have hdata := h data List.mem_cons_self
    rw [List.flatMap_cons, wholeFrames]
    split
    · rename_i hle
      rw [take_frames hle, first hdata, ih fun d hd => h d (List.mem_cons_of_mem _ hd),
        List.take_succ_cons]
    · rename_i hlt
      exact front hdata (take_frame (Nat.not_le.mp hlt))

/-- However the rest of the stream is read, it begins with the payloads that have arrived, as long
    as these are of the kind. -/
theorem decode_begins : ∀ {datas : List Text} {k b : Nat}, (∀ data ∈ datas.take k, P data) →
    k ≤ wholeFrames b datas → datas.take k <+: decode ((datas.flatMap frame).take b) := by
  intro datas
  induction datas with
  | nil =>
    intro k b _ _
    rw [List.take_nil]
    exact List.nil_prefix
  | cons data datas ih =>
    intro k b h hk
    cases k with
    | zero => exact List.nil_prefix
    | succ k =>
      rw [wholeFrames] at hk
      split at hk
      · rename_i hle
        rw [List.take_succ_cons] at h ⊢
        rw [List.flatMap_cons, take_frames hle, first (h data List.mem_cons_self)]
        exact (List.prefix_cons_inj data).mpr
          (ih (fun d hd => h d (List.mem_cons_of_mem _ hd)) (Nat.le_of_succ_le_succ hk))
      · exact absurd hk (Nat.not_succ_le_zero k)

end Decoder

/-- The threaded ingest has the payloads whose frames have arrived. -/
theorem threaded_cut {datas : List Text} (h : ∀ data ∈ datas, ThreadedWhole data) (b : Nat) :
    Sse.payloads Threaded.dataLine [] (bufLines ((datas.flatMap frame).take b)) =
      datas.take (wholeFrames b datas) :=
  decode_cut (fun text => Sse.payloads Threaded.dataLine [] (bufLines text))
    threaded_first (fun hdata hle => threaded_front hdata.1 hle) rfl h b

/-- So has a standard decoder. -/
theorem standard_cut {datas : List Text} (h : ∀ data ∈ datas, StandardWhole data) (b : Nat) :
    Sse.payloads Sse.dataValue [] (eventLines ((datas.flatMap frame).take b)) =
      datas.take (wholeFrames b datas) :=
  decode_cut (fun text => Sse.payloads Sse.dataValue [] (eventLines text))
    standard_first (fun hdata hle => standard_front hdata hle) rfl h b

/-! ## Connections to the server

  A `Link` is what the network makes of one attempt.  The two ingests do not see the same
  connection: where it fails in the middle of a line, `reader.lines()` has lost that line and the
  frame stream has it in a buffer that is dropped.  Neither shows in the payloads, as the line has
  no blank one behind it. -/

/-- One attempt to connect to the replay server: in vain, or with so many characters of the stream
    before it ends or fails. -/
inductive Link
  | down
  | up (chars : Nat) (failed : Bool)
deriving DecidableEq, Repr

/-- The first `b` characters of the stream; each item has more than one. -/
def served (events : List RecordedEvent) (b : Nat) : Text :=
  ((ReplayState.items b (.init events)).flatMap Chunk.bytes).take b

/-- The payloads whose frames have arrived. -/
def Link.arrived (events : List RecordedEvent) : Link → List Text
  | down => []
  | up chars _ => (looped events chars).take (wholeFrames chars (looped events chars))

/-- The connection as `reader.lines()` sees it: a line begun is read at the end of the stream, and
    lost when the connection fails. -/
def Link.threaded (events : List RecordedEvent) : Link → Threaded.Conn
  | down => .refused
  | up chars true => .opened (endedLines (served events chars)) .error
  | up chars false => .opened (bufLines (served events chars)) .eof

/-- The connection as the frame stream gives it. -/
def Link.async (eventsource : Text → List Async.Frame) (events : List RecordedEvent) :
    Link → Async.Conn
  | down => .sendError
  | up chars failed =>
    .success (eventsource (served events chars) ++ if failed then [.error] else [])

theorem mem_looped {events : List RecordedEvent} (hne : events ≠ []) {P : Text → Prop}
    (h : ∀ e ∈ events, P e.data) (k : Nat) : ∀ data ∈ looped events k, P data := by
  intro data hd
  obtain ⟨i, _, rfl⟩ := List.mem_map.mp hd
  have hlt := Nat.mod_lt i (List.length_pos_of_ne_nil hne)
  rw [List.getElem?_eq_getElem hlt]
  exact h _ (List.getElem_mem hlt)

theorem length_looped (events : List RecordedEvent) (k : Nat) : (looped events k).length = k := by
  rw [looped, List.length_map, List.length_range]

/-- What is served does not depend on how much of it is asked for. -/
theorem looped_take {events : List RecordedEvent} {j k : Nat} (h : j ≤ k) :
    (looped events k).take j = looped events j := by
  rw [looped, ← List.map_take, List.take_range, Nat.min_eq_left h]
  rfl

theorem served_eq {events : List RecordedEvent} (hne : events ≠ []) (chars : Nat) :
    served events chars = ((looped events chars).flatMap frame).take chars := by
  rw [served, items_looped hne]

/-- The payloads of a link are those of its text. -/
theorem Link.threaded_up (events : List RecordedEvent) (chars : Nat) (failed : Bool) :
    ((Link.up chars failed).threaded events).payloads =
      Sse.payloads Threaded.dataLine [] (bufLines (served events chars)) := by
  cases failed with
  | true => exact (Sse.payloads_bufLines Threaded.dataLine _).symm
  | false => rfl

theorem Link.async_up {eventsource : Text → List Async.Frame} {events : List RecordedEvent}
    (hsse : Equivalence.ImplementsSse eventsource (Set.range (served events))) (chars : Nat)
    (failed : Bool) :
    ((Link.up chars failed).async eventsource events).payloads =
      (Sse.payloads Sse.dataValue [] (eventLines (served events chars))).filterMap
        fun data => (Async.Frame.event data).payload? := by
  have herror : (if failed then [Async.Frame.error] else []).filterMap Async.Frame.payload? =
      [] := by cases failed <;> rfl
  show (eventsource (served events chars) ++ _).filterMap Async.Frame.payload? = _
  rw [List.filterMap_append, herror, List.append_nil, hsse _ (Set.mem_range_self chars),
    List.filterMap_map, Sse.decode_eq]
  rfl

/-- No payload but an empty one is a heartbeat. -/
theorem filterMap_payload {datas : List Text} (h : ∀ data ∈ datas, data ≠ []) :
    (datas.filterMap fun data => (Async.Frame.event data).payload?) = datas :=
  (List.filterMap_congr fun data hd => if_neg (h data hd)).trans List.filterMap_some

theorem Link.threaded_payloads {events : List RecordedEvent} (hne : events ≠ [])
    (h : ∀ e ∈ events, ThreadedWhole e.data) (link : Link) :
    (link.threaded events).payloads = link.arrived events := by
  cases link with
  | down => rfl
  | up chars failed =>
    rw [Link.threaded_up, served_eq hne]
    exact threaded_cut (mem_looped hne h chars) chars

theorem Link.async_payloads {eventsource : Text → List Async.Frame} {events : List RecordedEvent}
    (hsse : Equivalence.ImplementsSse eventsource (Set.range (served events))) (hne : events ≠ [])
    (h : ∀ e ∈ events, e.data ≠ [] ∧ StandardWhole e.data) (link : Link) :
    (link.async eventsource events).payloads = link.arrived events := by
  cases link with
  | down => rfl
  | up chars failed =>
    rw [Link.async_up hsse, served_eq hne,
      standard_cut (mem_looped hne (fun e he => (h e he).2) chars) chars]
    exact filterMap_payload fun data hd =>
      mem_looped (P := (· ≠ [])) hne (fun e he => (h e he).1) chars data (List.mem_of_mem_take hd)

/-- How many payloads have arrived bounds how many were served, and how many frames are whole. -/
theorem Link.le_arrived {events : List RecordedEvent} {chars : Nat} {failed : Bool} {k : Nat}
    (h : k ≤ ((Link.up chars failed).arrived events).length) :
    k ≤ chars ∧ k ≤ wholeFrames chars (looped events chars) := by
  rw [Link.arrived, List.length_take, length_looped] at h
  exact ⟨Nat.le_trans h (Nat.min_le_right _ _), Nat.le_trans h (Nat.min_le_left _ _)⟩

/-- A connection that lasts for `k` payloads begins with these, if they are whole, whatever the rest
    of the fixture is. -/
theorem Link.threaded_begins {events : List RecordedEvent} (hne : events ≠ []) {k : Nat}
    (h : ∀ data ∈ looped events k, ThreadedWhole data) {link : Link}
    (long : k ≤ (link.arrived events).length) :
    looped events k <+: (link.threaded events).payloads := by
  cases link with
  | down =>
    rw [Nat.le_zero.mp long]
    exact List.nil_prefix
  | up chars failed =>
    obtain ⟨hchars, hwhole⟩ := Link.le_arrived long
    rw [← looped_take hchars] at h ⊢
    rw [Link.threaded_up, served_eq hne]
    exact decode_begins (fun text => Sse.payloads Threaded.dataLine [] (bufLines text))
      threaded_first h hwhole

theorem Link.async_begins {eventsource : Text → List Async.Frame} {events : List RecordedEvent}
    (hsse : Equivalence.ImplementsSse eventsource (Set.range (served events))) (hne : events ≠ [])
    {k : Nat} (h : ∀ data ∈ looped events k, data ≠ [] ∧ StandardWhole data) {link : Link}
    (long : k ≤ (link.arrived events).length) :
    looped events k <+: (link.async eventsource events).payloads := by
  cases link with
  | down =>
    rw [Nat.le_zero.mp long]
    exact List.nil_prefix
  | up chars failed =>
    obtain ⟨hchars, hwhole⟩ := Link.le_arrived long
    rw [← looped_take hchars] at h ⊢
    have hbegins := decode_begins (fun text => Sse.payloads Sse.dataValue [] (eventLines text))
      standard_first (fun data hd => (h data hd).2) hwhole
    rw [Link.async_up hsse, served_eq hne]
    have hkept := hbegins.filterMap fun data => (Async.Frame.event data).payload?
    rwa [filterMap_payload fun data hd => (h data hd).1] at hkept

/-- **A broken replay**: whatever the limit and whenever the flag is set, over any connections to
    the replay server, each broken off anywhere, an ingest hands over the payloads whose frames have
    arrived, each whole and in order, and nothing else, up to the point where it stops; as long as
    it goes on, all of them.

    The ingest's half says that the payloads of its connections are handed over in order, the
    server's half which these are, by `decode_cut`. -/
theorem broken_replay (eventsource : Text → List Async.Frame) (events : List RecordedEvent)
    (hsse : Equivalence.ImplementsSse eventsource (Set.range (served events))) (hne : events ≠ [])
    (limit : Option Nat) (cancel : Flag) (links : List Link) :
    ((∀ e ∈ events, ThreadedWhole e.data) →
      let r := Threaded.runSse limit (.start cancel) (links.map (Link.threaded events))
      r.2.calls <+: links.flatMap (Link.arrived events) ∧
        (r.1 = none → r.2.calls = links.flatMap (Link.arrived events))) ∧
    ((∀ e ∈ events, e.data ≠ [] ∧ StandardWhole e.data) →
      let r := Async.runSse (.ok ()) limit (.start cancel) (links.map (Link.async eventsource events))
      r.2.calls <+: links.flatMap (Link.arrived events) ∧
        (r.1 = none → r.2.calls = links.flatMap (Link.arrived events))) := by
  constructor
  · intro h
    obtain ⟨out, hcalls, hle, hall⟩ := Threaded.runSse_calls limit
      (links.map (Link.threaded events)) (.start cancel)
    -- connection by connection, the payloads are those that arrived
    have hpay : (links.map (Link.threaded events)).flatMap Threaded.Conn.payloads =
        links.flatMap (Link.arrived events) := by
      rw [List.flatMap_map]
      exact List.flatMap_congr fun link _ => Link.threaded_payloads hne h link
    rw [hpay] at hle hall
    have hout : (Threaded.runSse limit (.start cancel) (links.map (Link.threaded events))).2.calls =
        out := hcalls
    simp only [hout]
    exact ⟨hle, hall⟩
  · intro h
    obtain ⟨out, hcalls, hle, hall⟩ := Async.runLoop_calls limit
      (links.map (Link.async eventsource events)) (.start cancel)
    have hpay : (links.map (Link.async eventsource events)).flatMap Async.Conn.payloads =
        links.flatMap (Link.arrived events) := by
      rw [List.flatMap_map]
      exact List.flatMap_congr fun link _ => Link.async_payloads hsse hne h link
    rw [hpay] at hle hall
    have hout : (Async.runSse (.ok ()) limit (.start cancel)
        (links.map (Link.async eventsource events))).2.calls = out := hcalls
    simp only [hout]
    refine ⟨hle, fun hnone => hall ?_⟩
    exact Option.map_eq_none_iff.mp hnone

instance : DecidablePred ThreadedWhole := fun _ => inferInstanceAs (Decidable (_ ∧ _ ∧ _))

instance : DecidablePred StandardWhole := fun _ => inferInstanceAs (Decidable (_ ∧ _))

/-- A connection that breaks within the third frame, an attempt in vain, and one that breaks within
    the first. -/
theorem broken_replay_twice :
    let events : List RecordedEvent := [⟨0, "x".toList⟩, ⟨7, "y".toList⟩]
    let links : List Link := [.up 60 true, .down, .up 20 true]
    links.flatMap (Link.arrived events) = ["x".toList, "y".toList] ∧
      (Threaded.runSse none (.start .never) (links.map (Link.threaded events))).2.calls =
        ["x".toList, "y".toList] ∧
      (Async.runSse (.ok ()) none (.start .never) (links.map
        (Link.async (fun text => (Sse.decode text).map .event) events))).2.calls =
        ["x".toList, "y".toList] := by
  intro events links
  have harrived : links.flatMap (Link.arrived events) = ["x".toList, "y".toList] := by
    decide +kernel
  obtain ⟨hthreaded, hasync⟩ := broken_replay (fun text => (Sse.decode text).map .event) events
    (fun _ _ => rfl) (by simp [events]) none .never links
  refine ⟨harrived, ?_, ?_⟩
  · rw [← harrived]
    exact (hthreaded (by decide)).2 (by decide +kernel)
  · rw [← harrived]
    exact (hasync (by decide)).2 (by decide +kernel)

end Replay

end RtsPipeline
