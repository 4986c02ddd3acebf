/-
  `rts-replay/src/play.rs`: the stream a recorded fixture is replayed as.

  `replay_stream` unfolds a state that walks through the fixture and starts it again at its end.
  What it waits between two frames is a quotient of floating-point numbers; kept here is what the
  quotient is taken of, the event's offset within the present pass.  `rate` and `loop_start` only
  enter that wait and are left out.  A text stands for its UTF-8 bytes.
-/
import Mathlib.Data.List.Basic
import RtsPipeline.Core.Event

namespace RtsPipeline.Replay

/-- `RecordedEvent`. -/
structure RecordedEvent where
  recvNs : Nat
  data : Text
deriving DecidableEq, Repr

/-- `ReplayState`. -/
structure ReplayState where
  events : List RecordedEvent
  idx : Nat
  loopOffsetNs : Nat
deriving DecidableEq, Repr

/-- One item of the stream, with the offset its delay is computed from. -/
structure Chunk where
  offsetNs : Nat
  bytes : Text
deriving DecidableEq, Repr

/-- The SSE frame of a payload. -/
def frame (data : Text) : Text :=
  "event: message\n".toList ++ "data: ".toList ++ data ++ "\n\n".toList

namespace ReplayState

/-- The state `replay_stream` starts from. -/
def init (events : List RecordedEvent) : ReplayState :=
  { events := events, idx := 0, loopOffsetNs := (events.head?.map RecordedEvent.recvNs).getD 0 }

/-- At the end of the fixture, start it again. -/
def rewind (s : ReplayState) : ReplayState :=
  if s.events.length ≤ s.idx then
    { s with idx := 0, loopOffsetNs := (s.events.head?.map RecordedEvent.recvNs).getD 0 }
  else s

/-- One step of the unfold. -/
def next (s : ReplayState) : Option (Chunk × ReplayState) :=
  s.rewind.events[s.rewind.idx]?.map fun evt =>
    ({ offsetNs := evt.recvNs - s.rewind.loopOffsetNs, bytes := frame evt.data },
      { s.rewind with idx := s.rewind.idx + 1 })

/-- The first `k` items of the stream. -/
def items : Nat → ReplayState → List Chunk
  | 0, _ => []
  | k + 1, s =>
    match s.next with
    | none => []
    | some (chunk, s') => chunk :: items k s'

end ReplayState

/-- The bytes of one pass through the fixture. -/
def onePass (events : List RecordedEvent) : Text :=
  (ReplayState.items events.length (.init events)).flatMap Chunk.bytes

/-- The rest of a pass. -/
theorem items_rest (offset : Nat) (before rest : List RecordedEvent) :
    (ReplayState.items rest.length
      { events := before ++ rest, idx := before.length, loopOffsetNs := offset }).map Chunk.bytes =
      rest.map fun evt => frame evt.data := by
  induction rest generalizing before with
  | nil => rfl
  | cons evt rest ih =>
    have hnext : ReplayState.next
        { events := before ++ evt :: rest, idx := before.length, loopOffsetNs := offset } =
        some ({ offsetNs := evt.recvNs - offset, bytes := frame evt.data },
          { events := before ++ evt :: rest, idx := before.length + 1
            loopOffsetNs := offset }) := by
      have hlt : ¬ (before ++ evt :: rest).length ≤ before.length := by
        rw [List.length_append, List.length_cons]
        omega
      rw [ReplayState.next, ReplayState.rewind, if_neg hlt]
      show Option.map _ (before ++ evt :: rest)[before.length]? = _
      rw [List.getElem?_append_right (Nat.le_refl _), Nat.sub_self]
      rfl
    rw [List.length_cons, ReplayState.items, hnext, List.map_cons, List.map_cons]
    have := ih (before ++ [evt])
    rw [List.append_assoc, List.singleton_append, List.length_append] at this
    exact congrArg _ this

/-- **One pass** is the frames of the recorded events, in order. -/
theorem onePass_eq (events : List RecordedEvent) :
    onePass events = events.flatMap fun evt => frame evt.data := by
  have := items_rest ((events.head?.map RecordedEvent.recvNs).getD 0) [] events
  rw [List.nil_append] at this
  rw [onePass, List.flatMap_def, List.flatMap_def]
  exact congrArg List.flatten this

end RtsPipeline.Replay
