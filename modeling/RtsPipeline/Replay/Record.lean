/-
  `rts-replay/src/record.rs`: a live stream recorded to a file.

  Three parties interleave.  The main task creates the file, hands every payload of `run_sse` to the
  channel, drops its sender when `run_sse` is over and awaits the writer.  The writer task receives,
  writes and, once the channel is closed and empty, flushes.  The timer and Ctrl-C cancel.

  What `run_sse` calls the sink with, and when, is left open: any payload at any time, until the
  cancel token ends it or the client cannot be built.  `buf` holds what the writer has accepted and
  the file has not, in `BufWriter` and in the file handle, and reaches the file in pieces at any
  time.  A text stands for its UTF-8 bytes, so it has no more characters than bytes, and a file has
  no more bytes than an offset can name.

  The invariant follows an envelope on its way: from the sink into the channel, into the writer's
  hands, into the buffer as a line, into the file.  `Held` says it as one equation, what was sent is
  what was written, followed by what is in hand, followed by what waits, and it is an equation of
  lists, so nothing is reordered on the way.  It is asked while the writer runs.  A writer that
  failed has dropped the receiver, the sends that follow are lost, and `record` does not return a
  count then; so nothing has to be said of that case, and a positive count says that all went well.

  1. `Recording` and `step` — the state of the three and one atomic step of an interleaving.
  2. `sent` — what an onlooker sees the sink send.
  3. `Stepped` — what a step can do, said once.
  4. `Kept` — what was sent is in the file, in the buffer, in the writer's hands or in the channel.
  5. `recording_loads_back` — the file loads as what was sent.
-/
import Mathlib.Algebra.GroupWithZero.Nat
import RtsPipeline.Async.Ingest
import RtsPipeline.Lib.Run
import RtsPipeline.Replay.Fixture

namespace RtsPipeline.Replay

open Lib

/-- `RecordError`. -/
inductive RecordError (ι : Type)
  | io (source : ι)
  | ingest (source : Async.IngestError)
  | writerPanic
deriving DecidableEq, Repr

/-- Where the writer task stands. -/
inductive WriterPhase (ι : Type)
  | unspawned
  | receiving                   -- at `rx.recv()`
  | writing (env : Envelope)    -- at `write_all`
  | flushing                    -- at `flush`
  | finished (count : Nat)
  | failed (source : ι)
  | panicked
deriving DecidableEq, Repr

namespace WriterPhase

variable {ι : Type}

/-- The task holds the receiver. -/
def running : WriterPhase ι → Bool
  | receiving | writing _ | flushing => true
  | _ => false

/-- The task found the channel closed. -/
def closing : WriterPhase ι → Bool
  | flushing | finished _ => true
  | _ => false

/-- What was received and is not written. -/
def inflight : WriterPhase ι → List Envelope
  | writing env => [env]
  | _ => []

end WriterPhase

/-- Where the main task stands in `record`. -/
inductive RecordPhase (ι : Type)
  | opening                     -- creating the directory and the file
  | ingesting                   -- in `run_sse`
  | awaiting (outcome : Except Async.IngestError Async.IngestOutcome)   -- `tx` is dropped
  | returned (result : Except (RecordError ι) Nat)

/-- The main task holds no sender any more. -/
def RecordPhase.dropped {ι : Type} : RecordPhase ι → Bool
  | awaiting _ | returned _ => true
  | _ => false

/-- The state of all tasks, and the file.  Times are in nanoseconds. -/
structure Recording (ι : Type) where
  main : RecordPhase ι
  writer : WriterPhase ι
  now : Nat                     -- the monotonic clock
  start : Nat
  deadline : Option Nat         -- when the timer cancels
  cancelled : Bool
  channel : List Envelope
  count : Nat
  buf : Text
  file : Text

/-- One atomic step of an interleaving. -/
inductive RecordEvent (ι : Type)
  | elapse (ns : Nat)
  | create (result : Except ι Unit)
  | timer
  | cancel                      -- Ctrl-C
  | sink (data : Text)
  | ended (outcome : Except Async.IngestError Async.IngestOutcome)
  | recv
  | write
  | spill (k : Nat)             -- the first `k` buffered characters reach the file
  | flush
  | fail (source : ι) (k : Nat) -- `write_all` or `flush` fails, with `k` characters of a line taken
  | panic
  | join

/-- The payload handed to the sink. -/
def RecordEvent.payload? {ι : Type} : RecordEvent ι → Option Text
  | sink data => some data
  | _ => none

/-- `u64::MAX`. -/
def u64Max : Nat := 2 ^ 64 - 1

/-- `usize::MAX`. -/
def usizeMax : Nat := 2 ^ 64 - 1

/-- The largest offset in a file. -/
def maxOffset : Nat := 2 ^ 63 - 1

namespace Recording

variable {ε ι : Type}

/-- Before the file is created; there may be an older one. -/
def init (old : Text) : Recording ι :=
  { main := .opening, writer := .unspawned, now := 0, start := 0, deadline := none
    cancelled := false, channel := [], count := 0, buf := [], file := old }

/-- The file is there: the timer and the writer are spawned. -/
def created (duration : Option Nat) (s : Recording ι) : Recording ι :=
  { s with
    main := .ingesting, writer := .receiving, start := s.now, deadline := duration.map (s.now + ·)
    channel := [], count := 0, buf := [], file := [] }

/-- `recv_ns` of a payload that arrives now. -/
def stamp (s : Recording ι) : UInt64 := .ofNat (min (s.now - s.start) u64Max)

/-- The channel after `tx.send`, which gives up when the receiver is dropped. -/
def send (s : Recording ι) (env : Envelope) : List Envelope :=
  if s.writer.running then s.channel ++ [env] else s.channel

/-- `run_sse` may return this: there is no limit, and without cancellation it goes on. -/
def mayEnd (s : Recording ι) : Except Async.IngestError Async.IngestOutcome → Bool
  | .ok .cancelled => s.cancelled
  | .ok (.limitReached _) => false
  | .error _ => true

/-- What `record` returns once the writer was awaited; `none` while it runs. -/
def result? (s : Recording ι) (outcome : Except Async.IngestError Async.IngestOutcome) :
    Option (Except (RecordError ι) Nat) :=
  match s.writer with
  | .finished count =>
    match outcome with
    | .ok _ => some (.ok count)
    | .error source => some (.error (.ingest source))
  | .failed source => some (.error (.io source))
  | .panicked => some (.error .writerPanic)
  | _ => none

/-- One step of an interleaving; `none` when it is not enabled. -/
def step (serde : SerdeJson ε) (duration : Option Nat) (s : Recording ι) :
    RecordEvent ι → Option (Recording ι)
  | .elapse ns => some { s with now := s.now + ns }
  | .create result =>
    match s.main with
    | .opening =>
      match result with
      | .error source => some { s with main := .returned (.error (.io source)) }
      | .ok () => some (s.created duration)
    | _ => none
  | .timer =>
    match s.deadline with
    | some t => if t ≤ s.now then some { s with cancelled := true } else none
    | none => none
  | .cancel => some { s with cancelled := true }
  | .sink data =>
    match s.main with
    | .ingesting => some { s with channel := s.send { recvNs := s.stamp, data := data } }
    | _ => none
  | .ended outcome =>
    match s.main with
    | .ingesting => if s.mayEnd outcome then some { s with main := .awaiting outcome } else none
    | _ => none
  | .recv =>
    match s.writer with
    | .receiving =>
      match s.channel with
      | env :: rest => some { s with writer := .writing env, channel := rest }
      | [] => if s.main.dropped then some { s with writer := .flushing } else none
    | _ => none
  | .write =>
    match s.writer with
    | .writing env =>
      some { s with
        writer := .receiving
        buf := s.buf ++ ndjsonLine serde env
        count := min (s.count + 1) usizeMax }   -- `saturating_add`
    | _ => none
  | .spill k =>
    if k ≤ s.buf.length ∧ s.file.length + k ≤ maxOffset then
      some { s with file := s.file ++ s.buf.take k, buf := s.buf.drop k }
    else none
  | .flush =>
    match s.writer with
    | .flushing =>
      if s.file.length + s.buf.length ≤ maxOffset then
        some { s with writer := .finished s.count, file := s.file ++ s.buf, buf := [] }
      else none
    | _ => none
  | .fail source k =>
    match s.writer with
    | .writing env =>
      some { s with writer := .failed source, buf := s.buf ++ (ndjsonLine serde env).take k }
    | .flushing => some { s with writer := .failed source }
    | _ => none
  | .panic => if s.writer.running then some { s with writer := .panicked } else none
  | .join =>
    match s.main with
    | .awaiting outcome => (s.result? outcome).map fun r => { s with main := .returned r }
    | _ => none

/-- What the sink sends. -/
def sent (s : Recording ι) : RecordEvent ι → List Envelope
  | .sink data => [{ recvNs := s.stamp, data := data }]
  | _ => []

/-! ## What a step can do

The steps of the recorder as what they change, one case for each await that can return. -/

variable {serde : SerdeJson ε} {duration : Option Nat} {s s' : Recording ι} {e : RecordEvent ι}

/-- One step, by what it changes. -/
inductive Stepped (serde : SerdeJson ε) (duration : Option Nat) (s : Recording ι) :
    RecordEvent ι → Recording ι → Prop
  | elapse (ns : Nat) : Stepped serde duration s (.elapse ns) { s with now := s.now + ns }
  | refused (source : ι) (phase : s.main = .opening) :
    Stepped serde duration s (.create (.error source))
      { s with main := .returned (.error (.io source)) }
  -- an older file of this name is truncated
  | created (phase : s.main = .opening) :
    Stepped serde duration s (.create (.ok ())) (s.created duration)
  | timer : Stepped serde duration s .timer { s with cancelled := true }
  | cancel : Stepped serde duration s .cancel { s with cancelled := true }
  -- without a receiver the payload is dropped silently
  | sink (data : Text) (phase : s.main = .ingesting) :
    Stepped serde duration s (.sink data)
      { s with channel := s.send { recvNs := s.stamp, data := data } }
  | ended (outcome : Except Async.IngestError Async.IngestOutcome) (phase : s.main = .ingesting) :
    Stepped serde duration s (.ended outcome) { s with main := .awaiting outcome }
  | receive (env : Envelope) (rest : List Envelope) (phase : s.writer = .receiving)
      (waiting : s.channel = env :: rest) :
    Stepped serde duration s .recv { s with writer := .writing env, channel := rest }
  -- `recv` returns `None` only for an empty channel without a sender
  | close (phase : s.writer = .receiving) (empty : s.channel = []) (dropped : s.main.dropped) :
    Stepped serde duration s .recv { s with writer := .flushing }
  | write (env : Envelope) (phase : s.writer = .writing env) :
    Stepped serde duration s .write
      { s with
        writer := .receiving
        buf := s.buf ++ ndjsonLine serde env
        count := min (s.count + 1) usizeMax }
  -- `BufWriter` writes what it likes when it likes, from the front
  | spill (k : Nat) :
    Stepped serde duration s (.spill k)
      { s with file := s.file ++ s.buf.take k, buf := s.buf.drop k }
  | flush (phase : s.writer = .flushing) (room : s.file.length + s.buf.length ≤ maxOffset) :
    Stepped serde duration s .flush
      { s with writer := .finished s.count, file := s.file ++ s.buf, buf := [] }
  | fail (source : ι) (k : Nat) (buf : Text) (running : s.writer.running) :
    Stepped serde duration s (.fail source k) { s with writer := .failed source, buf := buf }
  | panic (running : s.writer.running) :
    Stepped serde duration s .panic { s with writer := .panicked }
  | join (outcome : Except Async.IngestError Async.IngestOutcome)
      (result : Except (RecordError ι) Nat) (phase : s.main = .awaiting outcome)
      (joined : s.result? outcome = some result) :
    Stepped serde duration s .join { s with main := .returned result }

/-- Every step does one of these. -/
theorem stepped_of_step (h : step serde duration s e = some s') :
    Stepped serde duration s e s' := by
  cases e with
  | elapse ns =>
    obtain rfl := Option.some.inj h
    exact .elapse ns
  | create result =>
    cases result with
    | error source =>
      rw [step] at h
      split at h
      next phase =>
        obtain rfl := Option.some.inj h
        exact .refused source phase
      next => exact nomatch h
    | ok _ =>
      rw [step] at h
      split at h
      next phase =>
        obtain rfl := Option.some.inj h
        exact .created phase
      next => exact nomatch h
  | timer =>
    rw [step] at h
    split at h
    next t _ =>
      obtain ⟨_, rfl⟩ := of_guard h
      exact .timer
    next => exact nomatch h
  | cancel =>
    obtain rfl := Option.some.inj h
    exact .cancel
  | sink data =>
    rw [step] at h
    split at h
    next phase =>
      obtain rfl := Option.some.inj h
      exact .sink data phase
    next => exact nomatch h
  | ended outcome =>
    rw [step] at h
    split at h
    next phase =>
      obtain ⟨_, rfl⟩ := of_guard h
      exact .ended outcome phase
    next => exact nomatch h
  | recv =>
    rw [step] at h
    split at h
    next phase =>
      split at h
      next env rest waiting =>
        obtain rfl := Option.some.inj h
        exact .receive env rest phase waiting
      next empty =>
        obtain ⟨dropped, rfl⟩ := of_guard h
        exact .close phase empty dropped
    next => exact nomatch h
  | write =>
    rw [step] at h
    split at h
    next env phase =>
      obtain rfl := Option.some.inj h
      exact .write env phase
    next => exact nomatch h
  | spill k =>
    rw [step] at h
    obtain ⟨_, rfl⟩ := of_guard h
    exact .spill k
  | flush =>
    rw [step] at h
    split at h
    next phase =>
      obtain ⟨room, rfl⟩ := of_guard h
      exact .flush phase room
    next => exact nomatch h
  | fail source k =>
    rw [step] at h
    split at h
    next env phase =>
      obtain rfl := Option.some.inj h
      exact .fail source k _ (by rw [phase]; rfl)
    next phase =>
      obtain rfl := Option.some.inj h
      exact .fail source k _ (by rw [phase]; rfl)
    next => exact nomatch h
  | panic =>
    rw [step] at h
    obtain ⟨running, rfl⟩ := of_guard h
    exact .panic running
  | join =>
    rw [step] at h
    split at h
    next outcome phase =>
      obtain ⟨result, joined, rfl⟩ := Option.map_eq_some_iff.mp h
      exact .join outcome result phase joined
    next => exact nomatch h

/-! ## What becomes of what was sent

An envelope is in the channel, in the writer's hands, in the buffer or in the file, in this order,
and nothing overtakes anything.  `Held` is that sentence, and it is used at the end only, when the
first three are empty. -/

/-- While the writer runs, everything sent is written, in its hands or in the channel. -/
def Held (serde : SerdeJson ε) (s : Recording ι) (taken : List Envelope) : Prop :=
  ∃ written, taken = written ++ s.writer.inflight ++ s.channel ∧
    s.file ++ s.buf = written.flatMap (ndjsonLine serde) ∧
    s.count = min written.length usizeMax

/-- What holds of a recording and the envelopes sent so far.

    `held` carries the run, `finished` is what it comes to, and `closed` leads from one to the
    other: a writer that flushes has found the channel closed and empty, so that nothing is sent any
    more and nothing is on its way.  `stamped` is why the stamps are in order: each is the time of
    its send. -/
structure Kept (serde : SerdeJson ε) (s : Recording ι) (taken : List Envelope) : Prop where
  opening : s.main = .opening → taken = []
  stamped : ∀ env ∈ taken, env.recvNs ≤ s.stamp
  ordered : taken.Pairwise fun a b => a.recvNs ≤ b.recvNs
  held : s.writer.running → s.Held serde taken
  closed : s.writer.closing → s.main.dropped ∧ s.channel = []
  finished : ∀ c, s.writer = .finished c →
    s.file = taken.flatMap (ndjsonLine serde) ∧ s.buf = [] ∧ c = taken.length
  returned : ∀ c, s.main = .returned (.ok c) → s.writer = .finished c

theorem kept_init (old : Text) : (init old : Recording ι).Kept serde [] where
  opening _ := rfl
  stamped _ h := absurd h List.not_mem_nil
  ordered := List.Pairwise.nil
  held h := nomatch h
  closed h := nomatch h
  finished _ h := nomatch h
  returned _ h := nomatch h

/-- The count is returned only once the writer has finished. -/
theorem finished_of_result {outcome : Except Async.IngestError Async.IngestOutcome} {c : Nat}
    (h : s.result? outcome = some (.ok c)) : s.writer = .finished c := by
  unfold result? at h
  split at h
  next count heq =>
    cases outcome with
    | ok _ =>
      obtain rfl : count = c := by simpa using h
      exact heq
    | error source => simp at h
  all_goals simp at h

/-- A later stamp is no smaller. -/
theorem stamp_le {now now' : Nat} (h : now ≤ now') :
    (UInt64.ofNat (min now u64Max)) ≤ UInt64.ofNat (min now' u64Max) := by
  have hlt : ∀ n, min n u64Max < UInt64.size := fun n =>
    Nat.lt_of_le_of_lt (Nat.min_le_right n u64Max) (by decide)
  rw [UInt64.le_iff_toNat_le, UInt64.toNat_ofNat_of_lt' (hlt now),
    UInt64.toNat_ofNat_of_lt' (hlt now')]
  omega

/-- A line has a character. -/
theorem length_le_flatMap (serde : SerdeJson ε) (envs : List Envelope) :
    envs.length ≤ (envs.flatMap (ndjsonLine serde)).length := by
  induction envs with
  | nil => exact Nat.le_refl _
  | cons env envs ih =>
    rw [List.flatMap_cons, List.length_append, List.length_cons, ndjsonLine, List.length_append,
      List.length_singleton]
    omega

variable {taken : List Envelope}

/-- A step of the clock, the token or the main task: the writer, the channel and the file stay. -/
theorem Kept.frame (h : s.Kept serde taken) {main : RecordPhase ι} {now : Nat} {cancelled : Bool}
    (hmain : main = .opening → s.main = .opening) (hdropped : s.main.dropped → main.dropped)
    (hnow : s.now ≤ now) (hreturned : ∀ c, main = .returned (.ok c) → s.writer = .finished c) :
    Kept serde { s with main := main, now := now, cancelled := cancelled } taken where
  opening hm := h.opening (hmain hm)
  stamped env henv := UInt64.le_trans (h.stamped env henv) (stamp_le (Nat.sub_le_sub_right hnow _))
  ordered := h.ordered
  held := h.held
  closed hc := ⟨hdropped (h.closed hc).1, (h.closed hc).2⟩
  finished := h.finished
  returned := hreturned

/-- A step of the writer. -/
theorem Kept.writer (h : s.Kept serde taken) {writer : WriterPhase ι} {channel : List Envelope}
    {count : Nat} {buf file : Text} (stays : ∀ c, s.writer = .finished c → writer = .finished c)
    (held : writer.running →
      Held serde
        { s with writer := writer, channel := channel, count := count, buf := buf, file := file }
        taken)
    (closed : writer.closing → s.main.dropped ∧ channel = [])
    (finished : ∀ c, writer = .finished c →
      file = taken.flatMap (ndjsonLine serde) ∧ buf = [] ∧ c = taken.length) :
    Kept serde
      { s with writer := writer, channel := channel, count := count, buf := buf, file := file }
      taken where
  opening := h.opening
  stamped := h.stamped
  ordered := h.ordered
  held := held
  closed := closed
  finished := finished
  returned c hm := stays c (h.returned c hm)

/-- A writer that runs has not finished. -/
theorem not_finished (h : s.writer.running) {writer : WriterPhase ι} :
    ∀ c, s.writer = .finished c → writer = .finished c := by
  intro c hc
  rw [hc] at h
  exact nomatch h

/-- The sink sends. -/
theorem Kept.sink (h : s.Kept serde taken) (phase : s.main = .ingesting) (data : Text) :
    Kept serde { s with channel := s.send { recvNs := s.stamp, data := data } }
      (taken ++ [{ recvNs := s.stamp, data := data }]) := by
  -- the writer has not found the channel closed
  have hopen : s.writer.closing = true → False := fun hc => by
    have := (h.closed hc).1
    rw [phase] at this
    exact nomatch this
  refine ⟨fun hm => ?_, fun env henv => ?_, ?_, fun hr => ?_, fun hc => (hopen hc).elim,
    fun c hc => ?_, h.returned⟩
  · rw [show s.main = .opening from hm] at phase
    exact nomatch phase
  · rcases List.mem_append.mp henv with henv | henv
    · exact h.stamped env henv
    · rw [List.mem_singleton.mp henv]
      exact UInt64.le_refl _
  · refine List.pairwise_append.mpr ⟨h.ordered, List.pairwise_singleton _ _, fun a ha b hb => ?_⟩
    rw [List.mem_singleton.mp hb]
    exact h.stamped a ha
  · obtain ⟨written, htaken, hfile, hcount⟩ := h.held hr
    refine ⟨written, ?_, hfile, hcount⟩
    show taken ++ _ = written ++ s.writer.inflight ++ s.send _
    rw [send, if_pos hr, htaken, List.append_assoc, List.append_assoc]
  · exact (hopen (by rw [show s.writer = .finished c from hc]; rfl)).elim

/-- The buffer and the file together hold the same after a spill. -/
theorem Kept.spill (h : s.Kept serde taken) (k : Nat) :
    Kept serde { s with file := s.file ++ s.buf.take k, buf := s.buf.drop k } taken := by
  refine h.writer (fun _ hc => hc) (fun hr => ?_) h.closed fun c hc => ?_
  · obtain ⟨written, htaken, hfile, hcount⟩ := h.held hr
    refine ⟨written, htaken, ?_, hcount⟩
    show s.file ++ s.buf.take k ++ s.buf.drop k = _
    rw [List.append_assoc, List.take_append_drop]
    exact hfile
  · obtain ⟨hfile, hbuf, hcount⟩ := h.finished c hc
    rw [hbuf, List.take_nil, List.drop_nil, List.append_nil]
    exact ⟨hfile, rfl, hcount⟩

/-- After the flush the file holds everything, and the count is exact: a file of as many lines as
    `usize::MAX` would be too long. -/
theorem Kept.flush (h : s.Kept serde taken) (phase : s.writer = .flushing)
    (room : s.file.length + s.buf.length ≤ maxOffset) :
    Kept serde { s with writer := .finished s.count, file := s.file ++ s.buf, buf := [] }
      taken := by
  have hrunning : s.writer.running := by rw [phase]; rfl
  obtain ⟨written, htaken, hfile, hcount⟩ := h.held hrunning
  obtain ⟨hdropped, hempty⟩ := h.closed (by rw [phase]; rfl)
  have hall : taken = written := by
    rw [phase, hempty] at htaken
    simpa [WriterPhase.inflight] using htaken
  subst hall
  refine h.writer (not_finished hrunning) (fun hr => nomatch hr) (fun _ => ⟨hdropped, hempty⟩)
    fun c hc => ⟨hfile, rfl, ?_⟩
  obtain rfl := WriterPhase.finished.inj hc
  -- one character for each line at least, so the counter has not wrapped around
  have hlines := length_le_flatMap serde taken
  rw [← hfile, List.length_append] at hlines
  have hmax : maxOffset ≤ usizeMax := by decide
  rw [hcount]
  omega

/-- A step that sends nothing. -/
theorem Kept.silent (h : s.Kept serde taken) (hs : Stepped serde duration s e s')
    (silent : s.sent e = []) : s'.Kept serde taken := by
  cases hs with
  | sink data phase => exact nomatch silent
  | created phase =>
    obtain rfl := h.opening phase
    exact
      { opening := fun hm => nomatch hm
        stamped := fun _ henv => absurd henv List.not_mem_nil
        ordered := List.Pairwise.nil
        held := fun _ => ⟨[], rfl, rfl, rfl⟩
        closed := fun hc => nomatch hc
        finished := fun _ hc => nomatch hc
        returned := fun _ hm => nomatch hm }
  | elapse ns =>
    exact h.frame (fun hm => hm) (fun hd => hd) (Nat.le_add_right _ _) h.returned
  | refused source phase =>
    exact h.frame (fun hm => nomatch hm) (fun _ => rfl) (Nat.le_refl _) fun _ hm => nomatch hm
  | timer =>
    exact h.frame (fun hm => hm) (fun hd => hd) (Nat.le_refl _) h.returned
  | cancel =>
    exact h.frame (fun hm => hm) (fun hd => hd) (Nat.le_refl _) h.returned
  | ended outcome phase =>
    exact h.frame (fun hm => nomatch hm) (fun _ => rfl) (Nat.le_refl _) fun _ hm => nomatch hm
  | join outcome result phase joined =>
    refine h.frame (fun hm => nomatch hm) (fun _ => rfl) (Nat.le_refl _) fun c hm => ?_
    obtain rfl := RecordPhase.returned.inj hm
    exact finished_of_result joined
  | receive env rest phase waiting =>
    have hrunning : s.writer.running := by rw [phase]; rfl
    refine h.writer (not_finished hrunning) (fun _ => ?_) (fun hc => nomatch hc)
      fun _ hc => nomatch hc
    -- the head of the channel is now in the writer's hands
    obtain ⟨written, htaken, hfile, hcount⟩ := h.held hrunning
    refine ⟨written, ?_, hfile, hcount⟩
    show taken = written ++ [env] ++ rest
    rw [phase, waiting] at htaken
    simpa [WriterPhase.inflight] using htaken
  | close phase empty dropped =>
    have hrunning : s.writer.running := by rw [phase]; rfl
    refine h.writer (not_finished hrunning) (fun _ => ?_) (fun _ => ⟨dropped, empty⟩)
      fun _ hc => nomatch hc
    obtain ⟨written, htaken, hfile, hcount⟩ := h.held hrunning
    rw [phase] at htaken
    exact ⟨written, htaken, hfile, hcount⟩
  | write env phase =>
    have hrunning : s.writer.running := by rw [phase]; rfl
    refine h.writer (not_finished hrunning) (fun _ => ?_) (fun hc => nomatch hc)
      fun _ hc => nomatch hc
    -- what was in the writer's hands is now written
    obtain ⟨written, htaken, hfile, hcount⟩ := h.held hrunning
    refine ⟨written ++ [env], ?_, ?_, ?_⟩
    · rw [htaken, phase]
      exact (congrArg (· ++ s.channel) (List.append_nil _)).symm
    · show s.file ++ (s.buf ++ ndjsonLine serde env) = _
      rw [List.flatMap_append, ← hfile, List.append_assoc, List.flatMap_singleton]
    · show min (s.count + 1) usizeMax = _
      rw [hcount, List.length_append, List.length_singleton]
      omega
  | spill k =>
    exact h.spill k
  | flush phase room =>
    exact h.flush phase room
  | fail source k buf running =>
    exact h.writer (not_finished running) (fun hr => nomatch hr) (fun hc => nomatch hc)
      fun _ hc => nomatch hc
  | panic running =>
    exact h.writer (not_finished running) (fun hr => nomatch hr) (fun hc => nomatch hc)
      fun _ hc => nomatch hc

/-- **Step lemma** for `Kept`. -/
theorem Kept.step (h : s.Kept serde taken) (hs : Stepped serde duration s e s') :
    s'.Kept serde (taken ++ s.sent e) := by
  by_cases silent : s.sent e = []
  · rw [silent, List.append_nil]
    exact h.silent hs silent
  · cases hs with
    | sink data phase => exact h.sink phase data
    | _ => exact absurd rfl silent

/-- **Run lemma** for `Kept`. -/
theorem kept_of_run {old : Text} {ls : List (RecordEvent ι)}
    (h : run (step serde duration) (init old) ls = some s) :
    s.Kept serde (observe (step serde duration) sent (init old) ls) := by
  have hkept := run_observe (R := fun s taken => s.Kept serde taken)
    (fun _ _ _ _ hR hs => hR.step (stepped_of_step hs)) ls _ s [] (kept_init old) h
  rw [List.nil_append] at hkept
  exact hkept

/-- The payloads of what was sent are those the sink was handed. -/
theorem data_sent {old : Text} {ls : List (RecordEvent ι)}
    (h : run (step serde duration) (init old) ls = some s) :
    (observe (step serde duration) sent (init old) ls).map Envelope.data =
      ls.filterMap RecordEvent.payload? :=
  observe_map (fun _ l => by cases l <;> rfl) ls _ s h

/-- **A recording loads back as it was taken.**  Whatever the payloads and the interleaving, when
    `record` returns a positive count, the file loads as that many events: the payloads in the order
    of the sink's calls, each with the time it was stamped with.

    When `record` has returned a count, the writer has flushed, and by `Kept` the file is the lines
    of what was sent.  The loader gives these back, as `serde_json` reads what it wrote. -/
theorem recording_loads_back {serde : SerdeJson ε} (lawful : serde.Lawful) (duration : Option Nat)
    (old path : Text) (ls : List (RecordEvent ι)) (s : Recording ι) (c : Nat)
    (h : run (step serde duration) (init old) ls = some s) (ok : s.main = .returned (.ok c))
    (positive : 1 ≤ c) :
    let taken := observe (step serde duration) sent (init old) ls
    let payloads := ls.filterMap RecordEvent.payload?
    ∃ events, loadFixture (ι := ι) serde path (.ok (textLines s.file)) = .ok events ∧
      events.length = c ∧
      events.map RecordedEvent.data = payloads ∧
      events.map RecordedEvent.recvNs = taken.map (fun env => env.recvNs.toNat) ∧
      events.Pairwise (fun a b => a.recvNs ≤ b.recvNs) ∧
      c = payloads.length := by
  intro taken payloads
  have hkept : s.Kept serde taken := kept_of_run h
  obtain ⟨hfile, _, hcount⟩ := hkept.finished c (hkept.returned c ok)
  have hdata : taken.map Envelope.data = payloads := data_sent h
  have hne : taken ≠ [] := by
    intro hnil
    rw [hcount, hnil] at positive
    exact absurd positive (by decide)
  refine ⟨taken.map Envelope.event, ?_, ?_, ?_, ?_, ?_, ?_⟩
  · rw [hfile]
    exact loadFixture_written lawful path hne
  · rw [List.length_map, hcount]
  · rw [← hdata, List.map_map]
    rfl
  · rw [List.map_map]
    rfl
  · exact List.pairwise_map.mpr hkept.ordered
  · rw [hcount, ← hdata, List.length_map]

/-- A payload with a line break and a blank one, over an older file: the first is written before the
    second arrives, the second after the sender is dropped. -/
theorem recording_loads_back_two :
    let ls : List (RecordEvent Unit) :=
      [.elapse 5, .create (.ok ()), .elapse 7, .sink "a\n\"b".toList, .recv, .write, .spill 4,
        .elapse 20, .sink " ".toList, .timer, .ended (.ok .cancelled), .recv, .write, .recv, .flush,
        .join]
    ∃ s events, run (step compact (some 25)) (init "old".toList) ls = some s ∧
      s.main = .returned (.ok 2) ∧
      loadFixture (ι := Unit) compact "out".toList (.ok (textLines s.file)) = .ok events ∧
      events.map RecordedEvent.data = ["a\n\"b".toList, " ".toList] ∧
      events.map RecordedEvent.recvNs = [7, 27] := by
  intro ls
  obtain ⟨events, hload, _, hdata, hstamps, _⟩ :=
    recording_loads_back compact_lawful (some 25) "old".toList "out".toList ls _ 2 rfl rfl
      (by decide)
  exact ⟨_, events, rfl, rfl, hload, hdata, hstamps⟩

end Recording

end RtsPipeline.Replay
