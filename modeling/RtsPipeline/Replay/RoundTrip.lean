/-
  A fixture replayed and decoded again: which recorded strings come back.

  Each frame ends with a blank line, so a decoder takes the stream frame by frame
  (`flatMap_frame`).  Within one frame it can only lose characters: where the data are cut at a line
  break, the characters of the break itself are gone for good, whatever the lines after it look
  like.  So the payloads of a stream have as many characters as were recorded only if every string
  came back whole, and the conditions below are exact.
-/
import RtsPipeline.Equivalence.Decoding
import RtsPipeline.Replay.Play

namespace RtsPipeline.Replay

open Lib

/-! ## Counting characters

To say that a payload does not come back one would have to say what comes instead, and there are
many ways in which its lines can be read.  The number of characters is enough: no way of reading
them adds any, so a loss in one frame cannot be made up for in another. -/

/-- Where no item gives more characters than it should, and all together give as many, each item
    does. -/
theorem length_eq_of_flatMap {α : Type*} {f : α → List Text} {g : α → Text} {l : List α}
    (hle : ∀ a ∈ l, (f a).flatten.length ≤ (g a).length)
    (h : (l.map g).flatten.length ≤ (l.flatMap f).flatten.length) :
    ∀ a ∈ l, (f a).flatten.length = (g a).length := by
  have htotal : ∀ {l : List α}, (∀ a ∈ l, (f a).flatten.length ≤ (g a).length) →
      (l.flatMap f).flatten.length ≤ (l.map g).flatten.length := by
    intro l hl
    induction l with
    | nil => exact Nat.le_refl _
    | cons a l ih =>
      rw [List.flatMap_cons, List.flatten_append, List.length_append, List.map_cons,
        List.flatten_cons, List.length_append]
      refine Nat.add_le_add (hl a List.mem_cons_self) (ih fun b hb => ?_)
      exact hl b (List.mem_cons_of_mem a hb)
  induction l with
  | nil => exact fun a ha => absurd ha List.not_mem_nil
  | cons a l ih =>
    have htail : ∀ b ∈ l, (f b).flatten.length ≤ (g b).length :=
      fun b hb => hle b (List.mem_cons_of_mem a hb)
    have hhead := hle a List.mem_cons_self
    have hrest := htotal htail
    rw [List.flatMap_cons, List.flatten_append, List.length_append, List.map_cons,
      List.flatten_cons, List.length_append] at h
    intro b hb
    rcases List.mem_cons.mp hb with rfl | hb
    · -- neither the head nor the rest gives more than its due, so neither gives less
      omega
    · exact ih htail (by omega) b hb

/-- After a first data line, a block stream gives no more characters than its lines have. -/
theorem length_payloads_first {value? : Text → Option Text}
    (hv : ∀ line value, value? line = some value → value.length + 1 ≤ line.length)
    {line value : Text} (hline : value? line = some value) (lines : List Text) :
    (Sse.payloads value? [] (line :: lines)).flatten.length ≤
      value.length + lines.flatten.length := by
  have hne : line ≠ [] := by
    rintro rfl
    exact absurd (hv [] value hline) (Nat.not_succ_le_zero _)
  have := Sse.length_payloads_le hv [value] lines
  rw [Sse.join_singleton] at this
  rw [Sse.payloads, if_neg hne, hline]
  exact this

/-! ## Frame by frame

Every frame ends with a blank line, and a blank line closes whatever block was begun.  So what came
before has no influence on the next frame, and a stream is decoded frame by frame. -/

/-- A frame is its event line, its data line, and a blank line. -/
theorem frame_append (data rest : Text) :
    frame data ++ rest =
      "event: message".toList ++ '\n' :: ("data: ".toList ++ data ++ '\n' :: '\n' :: rest) := by
  have hevent : "event: message\n".toList = "event: message".toList ++ ['\n'] := by decide
  have hblank : "\n\n".toList = ['\n', '\n'] := by decide
  unfold frame
  simp only [hevent, hblank, List.append_assoc, List.cons_append, List.nil_append]

theorem bufLines_frame (data rest : Text) :
    bufLines (frame data ++ rest) =
      "event: message".toList :: (bufLinesFrom [] ("data: ".toList ++ data ++ ['\n']) ++
        [] :: bufLines rest) := by
  rw [frame_append, bufLines_line (by decide), stripCr_of_not_mem (by decide)]
  congr 1
  exact bufLinesFrom_append_lf [] ("data: ".toList ++ data) ('\n' :: rest)

theorem eventLines_frame (data rest : Text) :
    eventLines (frame data ++ rest) =
      "event: message".toList :: (eventLinesFrom false [] ("data: ".toList ++ data ++ ['\n']) ++
        [] :: eventLines rest) := by
  rw [frame_append, eventLines, eventLinesFrom_lf (by decide) (by decide), List.nil_append]
  congr 1
  exact eventLinesFrom_append_lf false [] ("data: ".toList ++ data) ('\n' :: rest)

/-- What the threaded ingest makes of the frame of a payload. -/
def threadedFrame (data : Text) : List Text :=
  Sse.payloads Threaded.dataLine [] (bufLinesFrom [] ("data: ".toList ++ data ++ ['\n']) ++ [[]])

/-- What the specification makes of the frame of a payload. -/
def standardFrame (data : Text) : List Text :=
  Sse.payloads Sse.dataValue []
    (eventLinesFrom false [] ("data: ".toList ++ data ++ ['\n']) ++ [[]])

/-- The threaded ingest takes a stream frame by frame. -/
theorem threaded_flatMap_frame (datas : List Text) :
    Sse.payloads Threaded.dataLine [] (bufLines (datas.flatMap frame)) =
      datas.flatMap threadedFrame := by
  induction datas with
  | nil => rfl
  | cons data datas ih =>
    rw [List.flatMap_cons, bufLines_frame, Sse.payloads, if_neg (by decide),
      show Threaded.dataLine "event: message".toList = none from rfl, Option.toList_none,
      List.append_nil, Sse.payloads_append, ih]
    rfl

/-- So does a standard decoder. -/
theorem standard_flatMap_frame (datas : List Text) :
    Sse.payloads Sse.dataValue [] (eventLines (datas.flatMap frame)) =
      datas.flatMap standardFrame := by
  induction datas with
  | nil => rfl
  | cons data datas ih =>
    rw [List.flatMap_cons, eventLines_frame, Sse.payloads, if_neg (by decide),
      show Sse.dataValue "event: message".toList = none from rfl, Option.toList_none,
      List.append_nil, Sse.payloads_append, ih]
    rfl

/-- A line break in a data line comes from its payload. -/
theorem not_mem_dataLine {c : Char} (hc : c = '\n' ∨ c = '\r') {data : Text} (h : c ∉ data) :
    c ∉ "data: ".toList ++ data := by
  rw [List.mem_append, not_or]
  refine ⟨?_, h⟩
  rcases hc with rfl | rfl <;> decide

/-! ## The threaded ingest

Of a payload of one line, the threaded ingest drops all spaces at its start and one CR at its end.
So there are three ways to be changed, and a payload that meets none of them is whole. -/

/-- The payload survives the threaded ingest. -/
def ThreadedWhole (data : Text) : Prop :=
  '\n' ∉ data ∧ data.head? ≠ some ' ' ∧ data.getLast? ≠ some '\r'

/-- A payload of one line. -/
theorem threadedFrame_of_line {data : Text} (h : '\n' ∉ data) :
    threadedFrame data = [(stripCr data).dropWhile (· = ' ')] := by
  have hbody := not_mem_dataLine (Or.inl rfl) h
  have hlines : bufLinesFrom [] ("data: ".toList ++ data ++ ['\n']) =
      ["data: ".toList ++ stripCr data] := by
    rw [show "data: ".toList ++ data ++ ['\n'] = ("data: ".toList ++ data) ++ '\n' :: [] from rfl,
      bufLinesFrom_line hbody, List.nil_append, stripCr_append (by decide)]
    rfl
  have hvalue : Threaded.dataLine ("data: ".toList ++ stripCr data) =
      some ((stripCr data).dropWhile (· = ' ')) := rfl
  rw [threadedFrame, hlines]
  exact Sse.payloads_single _ (by simp) hvalue

/-- The threaded reading of a data line is shorter than the line. -/
theorem length_dataLine (line value : Text) (h : Threaded.dataLine line = some value) :
    value.length + 1 ≤ line.length := by
  unfold Threaded.dataLine at h
  obtain ⟨rest, hp, rfl⟩ := Option.map_eq_some_iff.mp h
  rw [← List.isPrefixOf?_eq_some_iff_append_eq.mp hp, List.length_append]
  have := (List.dropWhile_suffix (p := (· = ' ')) (l := rest)).length_le
  show _ ≤ 5 + rest.length
  omega

/-- A payload cut at a line break loses the break. -/
theorem threadedFrame_of_break {line : Text} (h : '\n' ∉ line) (rest : Text) :
    (threadedFrame (line ++ '\n' :: rest)).flatten.length ≤ line.length + rest.length := by
  have hbody := not_mem_dataLine (Or.inl rfl) h
  have hlines : bufLinesFrom [] ("data: ".toList ++ (line ++ '\n' :: rest) ++ ['\n']) =
      ("data: ".toList ++ stripCr line) :: bufLinesFrom [] (rest ++ ['\n']) := by
    rw [show "data: ".toList ++ (line ++ '\n' :: rest) ++ ['\n'] =
        ("data: ".toList ++ line) ++ '\n' :: (rest ++ ['\n']) by simp [List.append_assoc],
      bufLinesFrom_line hbody, List.nil_append, stripCr_append (by decide)]
    rfl
  have hvalue : Threaded.dataLine ("data: ".toList ++ stripCr line) =
      some ((stripCr line).dropWhile (· = ' ')) := rfl
  -- what follows the break gives at most its own characters
  have hlen := length_payloads_first length_dataLine hvalue
    (bufLinesFrom [] (rest ++ ['\n']) ++ [[]])
  have hrest := length_bufLinesFrom_le [] rest
  have hdrop := (List.dropWhile_suffix (p := (· = ' ')) (l := stripCr line)).length_le
  have hstrip := length_stripCr_le line
  rw [threadedFrame, hlines, List.cons_append]
  rw [List.flatten_append, List.length_append, List.flatten_singleton, List.length_nil] at hlen
  rw [List.length_nil] at hrest
  omega

/-- The threaded ingest gives no characters that were not recorded, and all of them only if the
    payload is whole. -/
theorem threadedFrame_length (data : Text) :
    (threadedFrame data).flatten.length ≤ data.length ∧
      ((threadedFrame data).flatten.length = data.length → ThreadedWhole data) := by
  by_cases h : '\n' ∈ data
  · obtain ⟨line, rest, rfl, hline⟩ := List.eq_append_cons_of_mem h
    have := threadedFrame_of_break hline rest
    rw [List.length_append, List.length_cons]
    constructor
    · omega
    · intro he
      omega
  · rw [threadedFrame_of_line h, List.flatten_singleton]
    have hdrop := (List.dropWhile_suffix (p := (· = ' ')) (l := stripCr data)).length_le
    have hstrip := length_stripCr_le data
    refine ⟨Nat.le_trans hdrop hstrip, fun he => ?_⟩
    have hlast : data.getLast? ≠ some '\r' := length_stripCr_eq (by omega)
    refine ⟨h, fun hhead => ?_, hlast⟩
    -- a leading space is dropped
    obtain ⟨rest, rfl⟩ := List.head?_eq_some_iff.mp hhead
    rw [stripCr, if_neg hlast, List.dropWhile_cons_of_pos (by simp), List.length_cons] at he
    have := (List.dropWhile_suffix (p := (· = ' ')) (l := rest)).length_le
    omega

/-- A whole payload comes back. -/
theorem threadedFrame_whole {data : Text} (h : ThreadedWhole data) :
    threadedFrame data = [data] := by
  obtain ⟨hlf, hhead, hlast⟩ := h
  rw [threadedFrame_of_line hlf, stripCr, if_neg hlast]
  congr 1
  cases data with
  | nil => rfl
  | cons c data =>
    rw [List.dropWhile_cons_of_neg]
    simpa using hhead

/-! ## A standard decoder

A standard decoder drops only the one space that the frame puts before the payload.  But it ends a
line at a CR as well, wherever it stands. -/

/-- The payload survives a standard decoder, if it is not empty. -/
def StandardWhole (data : Text) : Prop := '\n' ∉ data ∧ '\r' ∉ data

theorem standardFrame_whole {data : Text} (h : StandardWhole data) :
    standardFrame data = [data] := by
  have hlf := not_mem_dataLine (Or.inl rfl) h.1
  have hcr := not_mem_dataLine (Or.inr rfl) h.2
  have hlines : eventLinesFrom false [] ("data: ".toList ++ data ++ ['\n']) =
      ["data: ".toList ++ data] := eventLinesFrom_lf hlf hcr
  have hvalue : Sse.dataValue ("data: ".toList ++ data) = some data :=
    Sse.dataValue_eq_some.mpr (Or.inr ⟨' ' :: data, rfl, rfl⟩)
  rw [standardFrame, hlines]
  exact Sse.payloads_single _ (by simp) hvalue

/-- A payload that is not whole is cut at its first line break. -/
theorem exists_break {data : Text} (h : ¬ StandardWhole data) :
    ∃ line b rest, data = line ++ b :: rest ∧ (b = '\n' ∨ b = '\r') ∧ StandardWhole line := by
  induction data with
  | nil => exact absurd ⟨List.not_mem_nil, List.not_mem_nil⟩ h
  | cons c data ih =>
    by_cases hc : c = '\n' ∨ c = '\r'
    · exact ⟨[], c, data, rfl, hc, List.not_mem_nil, List.not_mem_nil⟩
    · rw [not_or] at hc
      have hcons : ∀ {line : Text}, StandardWhole line → StandardWhole (c :: line) := by
        rintro line ⟨hlf, hcr⟩
        simp only [StandardWhole, List.mem_cons, not_or]
        exact ⟨⟨Ne.symm hc.1, hlf⟩, Ne.symm hc.2, hcr⟩
      obtain ⟨line, b, rest, rfl, hb, hline⟩ := ih fun hd => h (hcons hd)
      exact ⟨c :: line, b, rest, rfl, hb, hcons hline⟩

/-- A payload cut at a line break loses the break. -/
theorem standardFrame_of_break {line : Text} (h : StandardWhole line) {b : Char}
    (hb : b = '\n' ∨ b = '\r') (rest : Text) :
    (standardFrame (line ++ b :: rest)).flatten.length ≤ line.length + rest.length := by
  have hlf := not_mem_dataLine (Or.inl rfl) h.1
  have hcr := not_mem_dataLine (Or.inr rfl) h.2
  have hlines : eventLinesFrom false [] ("data: ".toList ++ (line ++ b :: rest) ++ ['\n']) =
      ("data: ".toList ++ line) :: eventLinesFrom (decide (b = '\r')) [] (rest ++ ['\n']) := by
    rw [show "data: ".toList ++ (line ++ b :: rest) ++ ['\n'] =
        ("data: ".toList ++ line) ++ b :: (rest ++ ['\n']) by simp [List.append_assoc],
      eventLinesFrom_break hlf hcr hb, List.nil_append]
  have hvalue : Sse.dataValue ("data: ".toList ++ line) = some line :=
    Sse.dataValue_eq_some.mpr (Or.inr ⟨' ' :: line, rfl, rfl⟩)
  -- what follows the break gives at most its own characters, and no more after a CR
  have hlen := length_payloads_first Sse.length_dataValue hvalue
    (eventLinesFrom (decide (b = '\r')) [] (rest ++ ['\n']) ++ [[]])
  have hrest := length_eventLinesFrom_le (decide (b = '\r')) [] rest
  rw [standardFrame, hlines, List.cons_append]
  rw [List.flatten_append, List.length_append, List.flatten_singleton, List.length_nil] at hlen
  rw [List.length_nil] at hrest
  omega

/-- A standard decoder gives no characters that were not recorded, and all of them only if the
    payload is whole. -/
theorem standardFrame_length (data : Text) :
    (standardFrame data).flatten.length ≤ data.length ∧
      ((standardFrame data).flatten.length = data.length → StandardWhole data) := by
  by_cases h : StandardWhole data
  · rw [standardFrame_whole h, List.flatten_singleton]
    exact ⟨Nat.le_refl _, fun _ => h⟩
  · obtain ⟨line, b, rest, rfl, hb, hline⟩ := exists_break h
    have := standardFrame_of_break hline hb rest
    rw [List.length_append, List.length_cons]
    constructor
    · omega
    · intro he
      omega

/-! ## Whole fixtures

A payload that is not whole loses a character in its frame, and then the stream has fewer than were
recorded; this is the direction that would be hard without counting. -/

theorem onePass_frames (events : List RecordedEvent) :
    onePass events = (events.map RecordedEvent.data).flatMap frame := by
  rw [onePass_eq, List.flatMap_map]

/-- The threaded ingest replays a list of payloads exactly if each is whole. -/
theorem threaded_replay_iff (datas : List Text) :
    datas.flatMap threadedFrame = datas ↔ ∀ data ∈ datas, ThreadedWhole data := by
  constructor
  · intro h data hd
    have heq := length_eq_of_flatMap (g := id) (fun data _ => (threadedFrame_length data).1)
      (Nat.le_of_eq (by rw [h, List.map_id])) data hd
    exact (threadedFrame_length data).2 heq
  · intro h
    rw [List.flatMap_congr fun data hd => threadedFrame_whole (h data hd), List.flatMap_singleton']

/-- A standard decoder and the async ingest after it do so exactly if each is whole and none is
    empty. -/
theorem standard_replay_iff (datas : List Text) :
    (datas.flatMap standardFrame).filter (· ≠ []) = datas ↔
      ∀ data ∈ datas, data ≠ [] ∧ StandardWhole data := by
  constructor
  · intro h
    -- skipping the empty payloads loses no character
    have hflat := congrArg List.flatten h
    rw [List.flatten_filter_ne_nil] at hflat
    have hwhole : ∀ data ∈ datas, StandardWhole data := by
      intro data hd
      have heq := length_eq_of_flatMap (g := id) (fun data _ => (standardFrame_length data).1)
        (Nat.le_of_eq (by rw [List.map_id, hflat])) data hd
      exact (standardFrame_length data).2 heq
    intro data hd
    refine ⟨?_, hwhole data hd⟩
    rw [← h] at hd
    simpa using (List.mem_filter.mp hd).2
  · intro h
    rw [List.flatMap_congr fun data hd => standardFrame_whole (h data hd).2,
      List.flatMap_singleton', List.filter_eq_self]
    exact fun data hd => by simpa using (h data hd).1

/-- **Replay and decode.**  One pass through a fixture, decoded by

    * the threaded ingest, gives the recorded strings exactly when none has an LF, a leading space
      or a CR at its end;
    * the async ingest, exactly when none is empty or has an LF or a CR.

    Both decoders take the stream frame by frame.  Neither gives more characters than were
    recorded, so if all came back, each payload did; a lost one could not have been made up for
    by the next. -/
theorem replay_reproduces_iff (eventsource : Text → List Async.Frame)
    (h : Equivalence.ImplementsSse eventsource (Set.range onePass)) (events : List RecordedEvent) :
    (Equivalence.threadedCalls (onePass events) = events.map RecordedEvent.data ↔
      ∀ e ∈ events, '\n' ∉ e.data ∧ e.data.head? ≠ some ' ' ∧ e.data.getLast? ≠ some '\r') ∧
    (Equivalence.asyncCalls eventsource (onePass events) = events.map RecordedEvent.data ↔
      ∀ e ∈ events, e.data ≠ [] ∧ '\n' ∉ e.data ∧ '\r' ∉ e.data) := by
  rw [Equivalence.threadedCalls_eq, Equivalence.asyncCalls_eq h (Set.mem_range_self events),
    Sse.decode_eq, onePass_frames, threaded_flatMap_frame, standard_flatMap_frame]
  refine ⟨(threaded_replay_iff _).trans ?_, (standard_replay_iff _).trans ?_⟩
  · exact List.forall_mem_map
  · exact List.forall_mem_map

/-- Two plain strings come back from both. -/
theorem replay_reproduces_two :
    let events : List RecordedEvent := [⟨0, "x".toList⟩, ⟨7, "y z".toList⟩]
    Equivalence.threadedCalls (onePass events) = ["x".toList, "y z".toList] ∧
      Equivalence.asyncCalls (fun text => (Sse.decode text).map .event) (onePass events) =
        ["x".toList, "y z".toList] := by
  intro events
  obtain ⟨hthreaded, hasync⟩ := replay_reproduces_iff _ (fun _ _ => rfl) events
  exact ⟨hthreaded.mpr (by decide), hasync.mpr (by decide)⟩

/-- A string of two lines loses the second. -/
theorem replay_not_reproduced :
    (¬ ∀ events : List RecordedEvent, events ≠ [] → (∀ e ∈ events, e.data ≠ []) →
      Equivalence.threadedCalls (onePass events) = events.map RecordedEvent.data) ∧
    ¬ ∀ eventsource, Equivalence.ImplementsSse eventsource (Set.range onePass) →
      ∀ events : List RecordedEvent, events ≠ [] → (∀ e ∈ events, e.data ≠ []) →
      Equivalence.asyncCalls eventsource (onePass events) = events.map RecordedEvent.data := by
  constructor
  · intro h
    have := h [⟨0, "x\ny".toList⟩] (by decide) (by decide)
    rw [Equivalence.threadedCalls_eq] at this
    exact absurd this (by decide)
  · intro h
    have := h (fun text => (Sse.decode text).map .event) (fun _ _ => rfl) [⟨0, "x\ny".toList⟩]
      (by decide) (by decide)
    rw [Equivalence.asyncCalls_eq (fun _ _ => rfl) (Set.mem_univ _)] at this
    exact absurd this (by decide)

end RtsPipeline.Replay
