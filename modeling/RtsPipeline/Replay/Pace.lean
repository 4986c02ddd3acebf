/-
  The pace of a replay: `replay_stream` with its anchor and its sleeps.

  The consumer asks for an item; the stream works out when the item is due, counted from the anchor
  of the present pass, and sleeps until then; at the end of the fixture the clock of that moment is
  the next anchor.  What a rate makes of an offset is a parameter, `scaled`.

  Two invariants bound the time of an item, one from each side, in the same three places: the anchor
  of the pass, the date `due` that stands in the state, and the items sent.  `Placed` is the lower
  bound and holds in every run: `due` is never before the anchor and the item's reach, and an anchor
  is not set before the pass before it is out.  `Prompt` is the upper bound, under the assumption
  that no step comes late.  A late wake-up does not add up within a pass, because the next item is
  due by the anchor and not by the item before it; the consumer's time before each item does, as the
  stream works out nothing until it is asked.  A new anchor is the clock of the moment, so what was
  lost in a pass is lost for all that follow, and the delays add up from pass to pass.

  1. `Player` and `act` — the stream and its consumer.
  2. `sent_frames` — what was sent is the fixture, over and over, whatever the consumer does.
  3. `reach` — where an item stands within its pass.
  4. `replay_cadence` — no item comes early; and what delays an item delays those after it in the
     same pass by nothing more, unless the consumer is slow to ask.
-/
import Mathlib.Algebra.GroupWithZero.Nat
import RtsPipeline.Lib.Timed
import RtsPipeline.Replay.Play

namespace RtsPipeline.Replay

open Lib

/-- An open stream and its consumer. -/
structure Player where
  state : ReplayState
  loopStart : Nat
  waiting : Option Text     -- the frame that is sent when the sleep is over
  due : Nat                 -- when that is; otherwise, when the last item was sent
  pass : Nat                -- how often the fixture was started again; no step depends on it
  sent : List (Nat × Text)  -- with the time
deriving Repr

/-- The consumer polls the stream, or its sleep is over. -/
inductive PlayEvent
  | poll
  | wake
deriving DecidableEq, Repr

namespace Player

/-- `replay_stream`, opened at time zero. -/
def start (events : List RecordedEvent) : Player :=
  { state := .init events, loopStart := 0, waiting := none, due := 0, pass := 0, sent := [] }

/-- At the end of the fixture, start it again with a fresh anchor. -/
def rewind (clock : Nat) (s : Player) : Player :=
  if s.state.events.length ≤ s.state.idx then
    { s with
      state := s.state.rewind
      loopStart := clock
      due := clock
      pass := s.pass + 1 }
  else s

/-- The frame goes to the consumer. -/
def send (clock : Nat) (s : Player) (bytes : Text) : Player :=
  { s with waiting := none, due := clock, sent := s.sent ++ [(clock, bytes)] }

/-- The body of the unfold, up to the sleep or to its end. -/
def poll (scaled : Nat → Nat) (clock : Nat) (s : Player) : Option Player :=
  s.state.next.map fun r =>
    let target := s.loopStart + scaled r.1.offsetNs
    if clock < target then { s with state := r.2, waiting := some r.1.bytes, due := target }
    else { s with state := r.2 }.send clock r.1.bytes

/-- One step. -/
def act (scaled : Nat → Nat) (clock : Nat) (s : Player) : PlayEvent → Option Player
  | .poll =>
    match s.waiting with
    | none => (s.rewind clock).poll scaled clock
    | some _ => none
  | .wake =>
    match s.waiting with
    | some bytes => if s.due ≤ clock then some (s.send clock bytes) else none
    | none => none

/-! ## Where an item stands

The offsets of a fixture need not increase, as a recording may have been put together by hand.  An
item that is due before the one ahead of it is sent right after it, and so an item's time is the
largest offset up to it. -/

/-- The offset of the item within its pass, scaled. -/
def offset (scaled : Nat → Nat) (events : List RecordedEvent) (i : Nat) : Nat :=
  scaled ((events[i]?.map RecordedEvent.recvNs).getD 0 -
    (events.head?.map RecordedEvent.recvNs).getD 0)

/-- When the first `i` items of a pass are out, counted from its anchor: an item waits for those
    before it. -/
def reach (scaled : Nat → Nat) (events : List RecordedEvent) : Nat → Nat
  | 0 => 0
  | i + 1 => max (reach scaled events i) (offset scaled events i)

/-- The frame of the item. -/
def frameAt (events : List RecordedEvent) (i : Nat) : Text :=
  frame ((events[i]?.map RecordedEvent.data).getD [])

/-! ## What a step can do

A poll sends the next item or goes to sleep until it is due; the wake-up sends it.  The rewind
is part of a poll, since the stream looks for the end of the fixture only when it is asked for
an item. -/

/-- The place of the next item is taken. -/
def take (s : Player) : Player :=
  { s with state := { s.state with idx := s.state.idx + 1 } }

/-- What one step can do, and when. -/
inductive Stepped (scaled : Nat → Nat) (events : List RecordedEvent) (clock : Nat) (s : Player) :
    PlayEvent → Player → Prop
  -- the stream sleeps until the item is due, which is its own from here on
  | sleep (idle : s.waiting = none)
      (later : clock < (s.rewind clock).loopStart +
        offset scaled events (s.rewind clock).state.idx) :
      Stepped scaled events clock s .poll { (s.rewind clock).take with
        waiting := some (frameAt events (s.rewind clock).state.idx)
        due := (s.rewind clock).loopStart + offset scaled events (s.rewind clock).state.idx }
  -- due already: no sleep
  | atOnce (idle : s.waiting = none)
      (now : (s.rewind clock).loopStart +
        offset scaled events (s.rewind clock).state.idx ≤ clock) :
      Stepped scaled events clock s .poll
        ((s.rewind clock).take.send clock (frameAt events (s.rewind clock).state.idx))
  | wake (bytes : Text) (waiting : s.waiting = some bytes) (passed : s.due ≤ clock) :
      Stepped scaled events clock s .wake (s.send clock bytes)

/-- Where the stream is in its fixture.  `taken` is the count that gives every item sent its number:
    whole passes, and the place in the present one. -/
structure Inside (events : List RecordedEvent) (s : Player) : Prop where
  fixture : s.state.events = events
  anchor : s.state.loopOffsetNs = (events.head?.map RecordedEvent.recvNs).getD 0
  idx : s.state.idx ≤ events.length
  taken : s.sent.length + s.waiting.toList.length = s.pass * events.length + s.state.idx

theorem inside_start (events : List RecordedEvent) : Inside events (start events) :=
  ⟨rfl, rfl, Nat.zero_le _, (Nat.zero_mul _).symm⟩

theorem rewind_waiting (s : Player) (clock : Nat) : (s.rewind clock).waiting = s.waiting := by
  unfold Player.rewind
  split <;> rfl

/-- After the rewind there is an item to take. -/
theorem Inside.rewind {events : List RecordedEvent} {s : Player} (h : Inside events s)
    (hne : events ≠ []) (clock : Nat) :
    Inside events (s.rewind clock) ∧ (s.rewind clock).state.idx < events.length := by
  have hpos := List.length_pos_of_ne_nil hne
  unfold Player.rewind
  split
  · rename_i hend
    have hidx : s.state.idx = events.length := by
      rw [h.fixture] at hend
      exact Nat.le_antisymm h.idx hend
    have hstate : s.state.rewind = { s.state with
        idx := 0
        loopOffsetNs := (events.head?.map RecordedEvent.recvNs).getD 0 } := by
      rw [ReplayState.rewind, if_pos hend]
      simp only [h.fixture]
    rw [hstate]
    refine ⟨⟨h.fixture, rfl, Nat.zero_le _, ?_⟩, hpos⟩
    have := h.taken
    show s.sent.length + s.waiting.toList.length = (s.pass + 1) * events.length + 0
    rw [Nat.succ_mul]
    omega
  · rename_i hend
    rw [h.fixture, Nat.not_le] at hend
    exact ⟨h, hend⟩

theorem Inside.stepped {scaled : Nat → Nat} {events : List RecordedEvent} {clock : Nat}
    {s s' : Player} {e : PlayEvent} (h : Inside events s) (hne : events ≠ [])
    (hs : s.act scaled clock e = some s') : Stepped scaled events clock s e s' := by
  cases e with
  | poll =>
    rw [act] at hs
    split at hs
    · rename_i hidle
      -- after the rewinding there is a next item, so the poll gives or awaits one
      obtain ⟨hr, hlt⟩ := h.rewind hne clock
      generalize hrdef : s.rewind clock = r at hs hr hlt
      have hget : r.state.events[r.state.idx]? = events[r.state.idx]? := by rw [hr.fixture]
      have hrest : r.state.rewind = r.state := by
        rw [ReplayState.rewind, hr.fixture, if_neg (Nat.not_le.mpr hlt)]
      rw [poll, ReplayState.next, hrest, hget, List.getElem?_eq_getElem hlt, hr.anchor] at hs
      have hoff : scaled (events[r.state.idx].recvNs -
          (events.head?.map RecordedEvent.recvNs).getD 0) =
          offset scaled events r.state.idx := by
        rw [offset, List.getElem?_eq_getElem hlt]
        rfl
      have hframe : frame events[r.state.idx].data = frameAt events r.state.idx := by
        rw [frameAt, List.getElem?_eq_getElem hlt]
        rfl
      simp only [Option.map_some, hoff, hframe] at hs
      split at hs
      · rename_i hlater
        obtain rfl := Option.some.inj hs
        have := @Stepped.sleep scaled events clock _ hidle (by rw [hrdef]; exact hlater)
        rwa [hrdef] at this
      · rename_i hnow
        obtain rfl := Option.some.inj hs
        have := @Stepped.atOnce scaled events clock _ hidle
          (by rw [hrdef]; exact Nat.not_lt.mp hnow)
        rwa [hrdef] at this
    · cases hs
  | wake =>
    rw [act] at hs
    split at hs
    · rename_i bytes hwait
      obtain ⟨hover, rfl⟩ := of_guard hs
      exact .wake bytes hwait hover
    · cases hs

/-! ## No item comes early

`Placed` bounds every time from below, in any run.  The anchor of a pass is taken after the last
item of the pass before it was sent, so the lengths of the passes add up. -/

/-- The number of an item says its pass and its place. -/
theorem number {p n i : Nat} (hi : i < n) : (p * n + i) / n = p ∧ (p * n + i) % n = i := by
  have hn : 0 < n := Nat.lt_of_le_of_lt (Nat.zero_le i) hi
  rw [Nat.add_comm, Nat.add_mul_div_right _ _ hn, Nat.add_mul_mod_self_right,
    Nat.div_eq_of_lt hi, Nat.mod_eq_of_lt hi, Nat.zero_add]
  exact ⟨rfl, rfl⟩

/-- What holds of the items of a list and of one more. -/
theorem forall_concat {α : Type} {P : Nat → α → Prop} {l : List α} {y : α}
    (h : ∀ k x, l[k]? = some x → P k x) (hy : P l.length y) :
    ∀ k x, (l ++ [y])[k]? = some x → P k x := by
  intro k x hk
  rcases Nat.lt_trichotomy k l.length with hlt | rfl | hgt
  · rw [List.getElem?_append_left hlt] at hk
    exact h k x hk
  · rw [List.getElem?_concat_length] at hk
    obtain rfl := Option.some.inj hk
    exact hy
  · rw [List.getElem?_eq_none (by simp; omega)] at hk
    cases hk

/-- The times so far are no earlier than the fixture has them, and the frames are the fixture's.

    `start`, `due` and `sent` are the lower bounds.  `idle` says that `due` lies in the past unless
    an item is waiting for it, which is what makes the clock a bound where no sleep was needed, and
    `frame` that the frame that waits is that of the item just taken. -/
structure Placed (scaled : Nat → Nat) (events : List RecordedEvent) (clock : Nat) (s : Player) :
    Prop where
  inside : Inside events s
  start : s.pass * reach scaled events events.length ≤ s.loopStart
  due : s.loopStart + reach scaled events s.state.idx ≤ s.due
  idle : s.waiting = none → s.due ≤ clock
  frame : ∀ bytes, s.waiting = some bytes →
    ∃ i, s.state.idx = i + 1 ∧ bytes = frameAt events i
  sent : ∀ k x, s.sent[k]? = some x → x.2 = frameAt events (k % events.length) ∧
    k / events.length * reach scaled events events.length +
      reach scaled events (k % events.length + 1) ≤ x.1

theorem placed_start (scaled : Nat → Nat) (events : List RecordedEvent) :
    Placed scaled events 0 (start events) where
  inside := inside_start events
  start := Nat.le_of_eq (Nat.zero_mul _)
  due := Nat.le_refl _
  idle := fun _ => Nat.le_refl _
  frame := fun _ h => by cases h
  sent := fun _ _ h => by cases h

theorem Placed.rewind {scaled : Nat → Nat} {events : List RecordedEvent} {clock : Nat} {s : Player}
    (h : Placed scaled events clock s) (hne : events ≠ []) (hidle : s.waiting = none) :
    Placed scaled events clock (s.rewind clock) := by
  have hinside := (h.inside.rewind hne clock).1
  unfold Player.rewind at hinside ⊢
  split
  · rename_i hend
    rw [if_pos hend] at hinside
    -- a pass ends when all its items were taken
    have hidx : s.state.idx = events.length := by
      rw [h.inside.fixture] at hend
      exact Nat.le_antisymm h.inside.idx hend
    have hzero : s.state.rewind.idx = 0 := by rw [ReplayState.rewind, if_pos hend]
    refine ⟨hinside, ?_, ?_, fun _ => Nat.le_refl _, fun bytes hw => ?_, h.sent⟩
    · -- the last item of the pass was not early
      have hstart := h.start
      have hdue := h.due
      have hle := h.idle hidle
      rw [hidx] at hdue
      show (s.pass + 1) * _ ≤ clock
      rw [Nat.succ_mul]
      omega
    · show clock + reach scaled events s.state.rewind.idx ≤ clock
      rw [hzero]
      exact Nat.le_refl _
    · rw [show s.waiting = some bytes from hw] at hidle
      cases hidle
  · exact h

/-- The item just sent is the next in number. -/
theorem Placed.sent_next {scaled : Nat → Nat} {events : List RecordedEvent} {clock : Nat}
    {s : Player} (h : Placed scaled events clock s) {i k t : Nat} (hi : i < events.length)
    (hk : k = s.pass * events.length + i)
    (ht : s.loopStart + reach scaled events (i + 1) ≤ t) :
    frameAt events i = frameAt events (k % events.length) ∧
      k / events.length * reach scaled events events.length +
        reach scaled events (k % events.length + 1) ≤ t := by
  obtain ⟨hdiv, hmod⟩ := number (p := s.pass) hi
  rw [hk, hdiv, hmod]
  have := h.start
  exact ⟨rfl, by omega⟩

/-- **Step lemma** for `Placed`. -/
theorem Placed.step {scaled : Nat → Nat} {events : List RecordedEvent} {clock : Nat}
    {s s' : Player} {e : PlayEvent} (h : Placed scaled events clock s) (hne : events ≠ [])
    (hs : Stepped scaled events clock s e s') : Placed scaled events clock s' := by
  cases hs with
  -- the item is taken, and due when the pass has reached it
  | sleep idle later =>
    have hr := h.rewind hne idle
    obtain ⟨_, hlt⟩ := h.inside.rewind hne clock
    have hwait := (rewind_waiting s clock).trans idle
    generalize s.rewind clock = r at hr hlt later hwait
    have htaken := hr.inside.taken
    have hdue := hr.due
    have hle := hr.idle hwait
    rw [hwait] at htaken
    refine ⟨⟨hr.inside.fixture, hr.inside.anchor, hlt, ?_⟩, hr.start, ?_, fun hw => (by cases hw),
      ?_, hr.sent⟩
    · show r.sent.length + 1 = r.pass * events.length + (r.state.idx + 1)
      simp only [Option.toList_none, List.length_nil] at htaken
      omega
    · show r.loopStart + max (reach scaled events r.state.idx) _ ≤ r.loopStart + _
      omega
    · rintro bytes ⟨⟩
      exact ⟨r.state.idx, rfl, rfl⟩
  -- the pass has reached the item already, and it is sent
  | atOnce idle now =>
    have hr := h.rewind hne idle
    obtain ⟨_, hlt⟩ := h.inside.rewind hne clock
    have hwait := (rewind_waiting s clock).trans idle
    generalize s.rewind clock = r at hr hlt now hwait
    have htaken := hr.inside.taken
    have hdue := hr.due
    have hle := hr.idle hwait
    rw [hwait] at htaken
    simp only [Option.toList_none, List.length_nil, Nat.add_zero] at htaken
    have hreach : r.loopStart + reach scaled events (r.state.idx + 1) ≤ clock := by
      rw [reach]
      omega
    refine ⟨⟨hr.inside.fixture, hr.inside.anchor, hlt, ?_⟩, hr.start, hreach,
      fun _ => Nat.le_refl _, fun _ hw => (by cases hw), forall_concat hr.sent ?_⟩
    · show (r.sent ++ [_]).length + 0 = r.pass * events.length + (r.state.idx + 1)
      rw [List.length_append, List.length_singleton]
      omega
    · exact hr.sent_next hlt htaken hreach
  -- the sleep is over, so the item that was taken is due
  | wake bytes waiting passed =>
    obtain ⟨i, hidx, rfl⟩ := h.frame bytes waiting
    have htaken := h.inside.taken
    have hle := h.inside.idx
    have hdue := h.due
    rw [waiting, hidx] at htaken
    simp only [Option.toList_some, List.length_singleton] at htaken
    refine ⟨⟨h.inside.fixture, h.inside.anchor, hle, ?_⟩, h.start, Nat.le_trans hdue passed,
      fun _ => Nat.le_refl _, fun _ hw => (by cases hw), forall_concat h.sent ?_⟩
    · show (s.sent ++ [_]).length + 0 = s.pass * events.length + s.state.idx
      rw [List.length_append, List.length_singleton, hidx]
      omega
    · refine h.sent_next (by omega) (by omega) ?_
      rw [← hidx]
      exact Nat.le_trans hdue passed

/-! ## What delays an item

From above there is a bound only if the sleeps end in time and the consumer asks again.  What delays
an item delays all later ones, as the next anchor is taken later; `Prompt` adds the delays up. -/

/-- The longest that one pass can take: the fixture's own time, one late wake-up, and the consumer's
    time before each item and before the restart. -/
def period (scaled : Nat → Nat) (events : List RecordedEvent) (late think : Nat) : Nat :=
  reach scaled events events.length + late + (events.length + 1) * think

/-- A sleep is over by `late` too late at most, and the consumer asks again within `think`. -/
def Punctual (late think : Nat) (s : Timed Player) : Prop :=
  s.clock ≤ s.state.due + if s.state.waiting.isSome then late else think

instance (late think : Nat) : DecidablePred (Punctual late think) := fun s =>
  inferInstanceAs (Decidable (s.clock ≤ s.state.due + if s.state.waiting.isSome then late else think))

/-- The times so far are late by no more than this.  In `due`, the delay of a sleep is left out
    while it lasts: `due` is then when it should end. -/
structure Prompt (scaled : Nat → Nat) (events : List RecordedEvent) (late think : Nat)
    (s : Player) : Prop where
  start : s.loopStart ≤ s.pass * period scaled events late think
  due : s.due ≤ s.loopStart + reach scaled events s.state.idx +
    (if s.waiting.isSome then 0 else late) + s.state.idx * think
  sent : ∀ k x, s.sent[k]? = some x → x.1 ≤
    k / events.length * period scaled events late think +
      reach scaled events (k % events.length + 1) + late + (k % events.length + 1) * think

theorem prompt_start (scaled : Nat → Nat) (events : List RecordedEvent) (late think : Nat) :
    Prompt scaled events late think (start events) where
  start := Nat.zero_le _
  due := Nat.zero_le _
  sent := fun _ _ h => by cases h

theorem Prompt.rewind {scaled : Nat → Nat} {events : List RecordedEvent} {late think clock : Nat}
    {s : Player} (h : Prompt scaled events late think s) (hinside : Inside events s)
    (hidle : s.waiting = none) (hclock : clock ≤ s.due + think) :
    Prompt scaled events late think (s.rewind clock) ∧ clock ≤ (s.rewind clock).due + think := by
  unfold Player.rewind
  split
  · rename_i hend
    have hidx : s.state.idx = events.length := by
      rw [hinside.fixture] at hend
      exact Nat.le_antisymm hinside.idx hend
    have hstart := h.start
    have hdue := h.due
    rw [hidx, hidle] at hdue
    refine ⟨⟨?_, Nat.le_trans (Nat.le_add_right _ _) (Nat.le_trans (Nat.le_add_right _ _)
      (Nat.le_add_right _ _)), h.sent⟩, Nat.le_add_right _ _⟩
    show clock ≤ (s.pass + 1) * period scaled events late think
    have hperiod : period scaled events late think =
        reach scaled events events.length + late + (events.length * think + think) := by
      rw [period, Nat.succ_mul]
    rw [Nat.succ_mul]
    simp only [Option.isSome_none, Bool.false_eq_true, if_false] at hdue
    omega
  · exact ⟨h, hclock⟩

/-- **Step lemma** for `Prompt`. -/
theorem Prompt.step {scaled : Nat → Nat} {events : List RecordedEvent} {late think clock : Nat}
    {s s' : Player} {e : PlayEvent} (h : Prompt scaled events late think s)
    (hplaced : Placed scaled events clock s) (hne : events ≠ [])
    (hclock : Punctual late think ⟨clock, s⟩) (hs : Stepped scaled events clock s e s') :
    Prompt scaled events late think s' := by
  -- an item sent within its pass in time is sent in time altogether, as the pass began in time
  have hnext : ∀ {r : Player} {i k t : Nat}, Prompt scaled events late think r → i < events.length →
      k = r.pass * events.length + i →
      t ≤ r.loopStart + reach scaled events (i + 1) + late + (i + 1) * think →
      t ≤ k / events.length * period scaled events late think +
        reach scaled events (k % events.length + 1) + late + (k % events.length + 1) * think := by
    intro r i k t hr hi hk ht
    obtain ⟨hdiv, hmod⟩ := number (p := r.pass) hi
    rw [hk, hdiv, hmod]
    have := hr.start
    omega
  cases hs with
  | sleep idle later =>
    obtain ⟨hr, _⟩ := h.rewind hplaced.inside idle (by simpa [Punctual, idle] using hclock)
    generalize s.rewind clock = r at hr later
    refine ⟨hr.start, ?_, hr.sent⟩
    show r.loopStart + offset scaled events r.state.idx ≤
      r.loopStart + max (reach scaled events r.state.idx) (offset scaled events r.state.idx) + 0 +
        (r.state.idx + 1) * think
    omega
  -- the consumer asked within `think` of the item before
  | atOnce idle now =>
    obtain ⟨hr, hlate⟩ := h.rewind hplaced.inside idle (by simpa [Punctual, idle] using hclock)
    have hpl := hplaced.rewind hne idle
    obtain ⟨_, hlt⟩ := hplaced.inside.rewind hne clock
    have hwait := (rewind_waiting s clock).trans idle
    generalize s.rewind clock = r at hr hlate hpl hlt now hwait
    have htaken := hpl.inside.taken
    have hdue := hr.due
    rw [hwait] at htaken hdue
    simp only [Option.toList_none, List.length_nil, Nat.add_zero, Option.isSome_none,
      Bool.false_eq_true, if_false] at htaken hdue
    have hmax : reach scaled events r.state.idx ≤ reach scaled events (r.state.idx + 1) :=
      Nat.le_max_left _ _
    have hreach : clock ≤ r.loopStart + reach scaled events (r.state.idx + 1) + late +
        (r.state.idx + 1) * think := by
      rw [Nat.succ_mul]
      omega
    exact ⟨hr.start, hreach, forall_concat hr.sent (hnext hr hlt htaken hreach)⟩
  -- the sleep was over `late` too late at most
  | wake bytes waiting passed =>
    obtain ⟨i, hidx, _⟩ := hplaced.frame bytes waiting
    have htaken := hplaced.inside.taken
    have hle := hplaced.inside.idx
    have hdue := h.due
    rw [Punctual, waiting] at hclock
    rw [waiting, hidx] at htaken hdue
    simp only [Option.toList_some, List.length_singleton, Option.isSome_some, if_true] at *
    have hreach : clock ≤ s.loopStart + reach scaled events (i + 1) + late + (i + 1) * think := by
      omega
    refine ⟨h.start, ?_, forall_concat h.sent (hnext h (by omega) (by omega) hreach)⟩
    show clock ≤ s.loopStart + reach scaled events s.state.idx + late + s.state.idx * think
    rw [hidx]
    exact hreach

/-! ## Runs

The two invariants along a run, and from them the cadence. -/

theorem placed_run {scaled : Nat → Nat} {events : List RecordedEvent} (hne : events ≠ [])
    {ls : List (TimedEvent PlayEvent)} {s : Timed Player}
    (h : run (Timed.step (act scaled)) ⟨0, start events⟩ ls = some s) :
    Placed scaled events s.clock s.state := by
  refine Timed.invariant (I := Placed scaled events) ?_ ?_ (placed_start scaled events) h
  · intro now later t hle ht
    exact ⟨ht.inside, ht.start, ht.due, fun hidle => Nat.le_trans (ht.idle hidle) hle, ht.frame,
      ht.sent⟩
  · intro now t k t' ht hk
    exact ht.step hne (ht.inside.stepped hne hk)

/-- In a run whose sleeps end in time and whose consumer asks in time. -/
theorem prompt_run {scaled : Nat → Nat} {events : List RecordedEvent} (hne : events ≠ [])
    {late think : Nat} {ls : List (TimedEvent PlayEvent)} {s : Timed Player}
    (h : run (Timed.step (act scaled)) ⟨0, start events⟩ ls = some s)
    (hprompt : Throughout (Timed.step (act scaled)) (Punctual late think) ⟨0, start events⟩ ls) :
    Prompt scaled events late think s.state := by
  have hinv : Placed scaled events s.clock s.state ∧ Prompt scaled events late think s.state := by
    refine run_invariant_throughout (P := Punctual late think) (I := fun t : Timed Player =>
      Placed scaled events t.clock t.state ∧ Prompt scaled events late think t.state) ?_ ls _ s
      ⟨placed_start scaled events, prompt_start scaled events late think⟩ hprompt h
    rintro t e t' ⟨hpl, hpr⟩ hpunct _ he
    cases e with
    | elapse ns =>
      rw [Timed.step_elapse he]
      exact ⟨⟨hpl.inside, hpl.start, hpl.due, fun hidle =>
        Nat.le_trans (hpl.idle hidle) (Nat.le_add_right _ _), hpl.frame, hpl.sent⟩, hpr⟩
    | act k =>
      obtain ⟨hclock, hk⟩ := Timed.step_act he
      have hs := hpl.inside.stepped hne hk
      rw [hclock]
      exact ⟨hpl.step hne hs, hpr.step hpl hne hpunct hs⟩
  exact hinv.2

/-- **The cadence of a replay**: whatever the consumer does, the items sent are the frames of the
    fixture, over and over, none earlier than the fixture has it; and when the sleeps end by `late`
    too late at most and the consumer asks again within `think`, an item is late by one `late` for
    each pass and one `think` for each item, not by all that delayed those before it.

    `Placed` bounds the times from below in every run, `Prompt` from above in the prompt ones;
    `number` turns the number of an item into its pass and its place. -/
theorem replay_cadence (scaled : Nat → Nat) (events : List RecordedEvent) (hne : events ≠ [])
    (late think : Nat) (ls : List (TimedEvent PlayEvent)) (s : Timed Player)
    (h : run (Timed.step (act scaled)) ⟨0, start events⟩ ls = some s) :
    (∀ k x, s.state.sent[k]? = some x → x.2 = frameAt events (k % events.length) ∧
      k / events.length * reach scaled events events.length +
        reach scaled events (k % events.length + 1) ≤ x.1) ∧
    (Throughout (Timed.step (act scaled)) (Punctual late think) ⟨0, start events⟩ ls →
      ∀ k x, s.state.sent[k]? = some x → x.1 ≤
        k / events.length * period scaled events late think +
          reach scaled events (k % events.length + 1) + late +
            (k % events.length + 1) * think) :=
  ⟨(placed_run hne h).sent, fun hprompt => (prompt_run hne h hprompt).sent⟩

/-- Two items ten apart, at double rate, asked for at once; the second wakes one late. -/
theorem replay_cadence_two :
    let events : List RecordedEvent := [⟨100, "x".toList⟩, ⟨110, "y".toList⟩]
    let step := Timed.step (act (· / 2))
    let ls : List (TimedEvent PlayEvent) :=
      [.act .poll, .act .poll, .elapse 6, .act .wake, .act .poll, .act .poll, .elapse 5, .act .wake]
    ∃ s, run step ⟨0, start events⟩ ls = some s ∧
      s.state.sent = [(0, frameAt events 0), (6, frameAt events 1), (6, frameAt events 0),
        (11, frameAt events 1)] ∧
      ∀ k x, s.state.sent[k]? = some x → x.1 ≤ k / 2 * 6 + reach (· / 2) events (k % 2 + 1) + 1 := by
  intro events step ls
  obtain ⟨s, hs, hsent⟩ := Option.map_eq_some_iff.mp
    (show (run step ⟨0, start events⟩ ls).map (fun s => s.state.sent) =
      some [(0, frameAt events 0), (6, frameAt events 1), (6, frameAt events 0),
        (11, frameAt events 1)] from by decide +kernel)
  have hprompt : Throughout step (Punctual 1 0) ⟨0, start events⟩ ls := by decide +kernel
  refine ⟨s, hs, hsent, fun k x hk => ?_⟩
  have hle := (replay_cadence (· / 2) events (by simp [events]) 1 0 ls s hs).2 hprompt k x hk
  rwa [show period (· / 2) events 1 0 = 6 from by decide] at hle

end Player

end RtsPipeline.Replay
