/-
  `rts-threaded/src/ingest.rs`: the blocking ingest, its framing loop and its reconnects.

  The upstream is a list of connection attempts, each refused or opened with the lines its reader
  yields and the way they end; `run_sse` consumes them one after the other.  The cancel flag may be
  set at any moment, so every load of it is a step of the loops below.  Counters are `Nat` and the
  nominal back-off is kept in milliseconds; the random factor applied to it, and the log lines, are
  left out.  The agent's read timeout is one of the errors a reader ends with.

  Two numbers of a connection decide what `run_sse` makes of it: how many payloads it holds and how
  often reading it to its end loads the flag.  If neither the limit nor the flag is reached within
  them, the connection is read to its end, and what comes next depends on how it ends; otherwise the
  loop is told to stop, and both reasons can be told apart afterwards.  `OneConn` has these three
  outcomes, and everything about a whole upstream is an induction over its connections with them.

  `read_stream` returns `Ok` for a clean end as it does when it was told to stop, and `run_sse`
  takes every `Ok` without the flag for a reached limit.  So the reason it reports is wrong exactly
  where a stream ends cleanly and nothing else would have stopped the loop (`Excused`).

  1. `readLoop`, `readStream`, `runSse` — the code.
  2. `Conn.payloads`, `Conn.loads` — what a connection holds, whatever ingest makes of it.
  3. `readStream_through`, `readStream_stopped` — one connection is read to its end, or stopped for
     a reason.
  4. `runSse_honest_iff` — the reason reported is the right one, unless a connection ended cleanly.
-/
import RtsPipeline.Core.Ingest
import RtsPipeline.Lib.Sse

namespace RtsPipeline.Threaded

open Lib Sse

/-- `IngestOutcome`. -/
inductive IngestOutcome
  | limitReached
  | cancelled
deriving DecidableEq, Repr

/-- `IngestError`.  The kind of the error is only logged. -/
inductive IngestError
  | io
deriving DecidableEq, Repr

/-- How the reader of a connection ends. -/
inductive Ending
  | eof
  | error
deriving DecidableEq, Repr

/-- One connection attempt. -/
inductive Conn
  | refused
  | opened (lines : List Text) (ending : Ending)
deriving DecidableEq, Repr

/-- What `reader.lines()` yields after the lines. -/
def Ending.items : Ending → List (Except IngestError Text)
  | eof => []
  | error => [.error .io]

/-- The variables of `run_sse`, with what the sink was given and the nominal delays slept. -/
structure Ingest where
  cancel : Flag
  count : Nat
  backoff : Nat
  calls : List Text
  slept : List Nat
deriving DecidableEq, Repr

namespace Ingest

/-- The start of `run_sse`. -/
def start (cancel : Flag) : Ingest :=
  { cancel := cancel, count := 0, backoff := 200, calls := [], slept := [] }

/-- After `k` loads of the cancel flag. -/
def loaded (s : Ingest) (k : Nat) : Ingest := { s with cancel := s.cancel.after k }

/-- After the sink was given `out`, one call each. -/
def deliver (s : Ingest) (out : List Text) : Ingest :=
  { s with calls := s.calls ++ out, count := s.count + out.length }

/-- Sleep, and double the back-off up to 30 s. -/
def backOff (s : Ingest) : Ingest :=
  { s with slept := s.slept ++ [s.backoff], backoff := min (s.backoff * 2) 30000 }

end Ingest

/-- `line.strip_prefix("data:")` without its leading spaces. -/
def dataLine (line : Text) : Option Text :=
  ("data:".toList.isPrefixOf? line).map fun rest => rest.dropWhile (· = ' ')

/-- The body of the loop over lines: the state and `data_buf` after `line`. -/
def onLine (s : Ingest) (dataBuf : List Text) (line : Text) : Ingest × List Text :=
  if line = [] then
    if dataBuf = [] then (s, dataBuf) else (s.deliver [join dataBuf], [])
  else
    match dataLine line with
    | some rest => (s, dataBuf ++ [rest])
    | none => (s, dataBuf)

/-- The loop of `read_stream` over `reader.lines()`. -/
def readLoop (limit : Option Nat) :
    Ingest → List Text → List (Except IngestError Text) → Except IngestError Unit × Ingest
  | s, _, [] => (.ok (), s)
  | s, dataBuf, lineRes :: rest =>
    -- both checks come before `line_res?`
    if s.cancel.isSet then (.ok (), s.loaded 1)
    else if limitReached limit s.count then (.ok (), s.loaded 1)
    else
      match lineRes with
      | .error e => (.error e, s.loaded 1)
      | .ok line =>
        let r := onLine (s.loaded 1) dataBuf line
        readLoop limit r.1 r.2 rest

/-- `read_stream`. -/
def readStream (limit : Option Nat) (s : Ingest) : Conn → Except IngestError Unit × Ingest
  | .refused => (.error .io, s)
  | .opened lines ending => readLoop limit s [] (lines.map .ok ++ ending.items)

/-- `run_sse`; `none` while it waits for a connection after the last one listed. -/
def runSse (limit : Option Nat) (s : Ingest) (conns : List Conn) :
    Option (Except IngestError IngestOutcome) × Ingest :=
  if s.cancel.isSet then (some (.ok .cancelled), s.loaded 1)
  else if limitReached limit s.count then (some (.ok .limitReached), s.loaded 1)
  else
    match conns with
    | [] => (none, s.loaded 1)
    | conn :: conns =>
      match readStream limit (s.loaded 1) conn with
      | (.ok (), t) =>
        -- every other `Ok` is taken for a reached limit, also a clean end of the stream
        if t.cancel.isSet then (some (.ok .cancelled), t.loaded 1)
        else (some (.ok .limitReached), t.loaded 1)
      | (.error _, t) =>
        if t.cancel.isSet then (some (.ok .cancelled), t.loaded 1)
        else runSse limit (t.loaded 1).backOff conns

/-- The reason reported. -/
def reported : Option (Except IngestError IngestOutcome) → Option Reason
  | some (.ok .limitReached) => some .limit
  | some (.ok .cancelled) => some .cancelled
  | _ => none

namespace Ingest

@[simp] theorem loaded_cancel (s : Ingest) (k : Nat) :
    (s.loaded k).cancel = s.cancel.after k := rfl
@[simp] theorem loaded_count (s : Ingest) (k : Nat) : (s.loaded k).count = s.count := rfl
@[simp] theorem loaded_calls (s : Ingest) (k : Nat) : (s.loaded k).calls = s.calls := rfl
@[simp] theorem deliver_cancel (s : Ingest) (out : List Text) :
    (s.deliver out).cancel = s.cancel := rfl
@[simp] theorem deliver_count (s : Ingest) (out : List Text) :
    (s.deliver out).count = s.count + out.length := rfl
@[simp] theorem deliver_calls (s : Ingest) (out : List Text) :
    (s.deliver out).calls = s.calls ++ out := rfl
@[simp] theorem backOff_cancel (s : Ingest) : s.backOff.cancel = s.cancel := rfl
@[simp] theorem backOff_count (s : Ingest) : s.backOff.count = s.count := rfl
@[simp] theorem backOff_calls (s : Ingest) : s.backOff.calls = s.calls := rfl

@[simp] theorem loaded_zero (s : Ingest) : s.loaded 0 = s := by
  rw [loaded, Flag.after_zero]

@[simp] theorem deliver_nil (s : Ingest) : s.deliver [] = s := by
  rw [deliver, List.append_nil]
  rfl

theorem loaded_loaded (s : Ingest) (j k : Nat) : (s.loaded j).loaded k = s.loaded (j + k) := by
  unfold loaded
  rw [Flag.after_after]

theorem deliver_deliver (s : Ingest) (out out' : List Text) :
    (s.deliver out).deliver out' = s.deliver (out ++ out') := by
  unfold deliver
  rw [List.append_assoc, List.length_append, Nat.add_assoc]

theorem deliver_loaded (s : Ingest) (out : List Text) (k : Nat) :
    (s.deliver out).loaded k = (s.loaded k).deliver out := rfl

end Ingest

/-! ## What a connection holds

What an upstream would hand over, how often it would load the flag and whether it ends cleanly,
read off the list of its lines. -/

/-- The payloads of a connection's lines. -/
def Conn.payloads : Conn → List Text
  | refused => []
  | opened lines _ => Sse.payloads dataLine [] lines

/-- How often reading a connection to its end loads the cancel flag: once for each item. -/
def Conn.loads : Conn → Nat
  | refused => 0
  | opened lines ending => lines.length + ending.items.length

/-- The connection was opened and its stream ended without an error. -/
def Conn.clean : Conn → Bool
  | opened _ .eof => true
  | _ => false

/-- One line completes at most one payload, the one the framing rules give. -/
theorem onLine_spec (s : Ingest) (dataBuf : List Text) (line : Text) :
    ∃ out dataBuf', onLine s dataBuf line = (s.deliver out, dataBuf') ∧ out.length ≤ 1 ∧
      ∀ lines, Sse.payloads dataLine dataBuf (line :: lines) =
        out ++ Sse.payloads dataLine dataBuf' lines := by
  unfold onLine
  by_cases hl : line = []
  · rw [if_pos hl]
    by_cases hb : dataBuf = []
    · rw [if_pos hb]
      refine ⟨[], dataBuf, by rw [Ingest.deliver_nil], Nat.zero_le _, fun lines => ?_⟩
      rw [Sse.payloads, if_pos hl, if_pos hb, hb, List.nil_append]
    · rw [if_neg hb]
      refine ⟨[join dataBuf], [], rfl, Nat.le_refl _, fun lines => ?_⟩
      rw [Sse.payloads, if_pos hl, if_neg hb, List.singleton_append]
  · rw [if_neg hl]
    refine ⟨[], dataBuf ++ (dataLine line).toList, ?_, Nat.zero_le _, fun lines => ?_⟩
    · rw [Ingest.deliver_nil]
      cases dataLine line with
      | none => rw [Option.toList_none, List.append_nil]
      | some rest => rfl
    · rw [Sse.payloads, if_neg hl, List.nil_append]

/-! ## One connection

Either the reader comes to the end of the connection or it stops on the way, and for each there is
a condition that can be read off the connection: the loads of the flag in it, and the payloads. -/

/-- **Read to the end**: with the flag quiet and the limit out of reach, the loop hands the sink
    every payload of the lines. -/
theorem readLoop_through {limit : Option Nat} (items : List (Except IngestError Text)) :
    ∀ (lines : List Text) (s : Ingest) (dataBuf : List Text),
    ¬ s.cancel.SetWithin lines.length →
    limitReached limit (s.count + (Sse.payloads dataLine dataBuf lines).length) = false →
    ∃ dataBuf', readLoop limit s dataBuf (lines.map .ok ++ items) =
      readLoop limit ((s.loaded lines.length).deliver (Sse.payloads dataLine dataBuf lines))
        dataBuf' items := by
  intro lines
  induction lines with
  | nil =>
    intro s dataBuf _ _
    refine ⟨dataBuf, ?_⟩
    rw [List.length_nil, Ingest.loaded_zero, Sse.payloads, Ingest.deliver_nil, List.map_nil,
      List.nil_append]
  | cons line lines ih =>
    intro s dataBuf hquiet hlimit
    rw [List.length_cons, Flag.setWithin_succ, not_or, Bool.not_eq_true] at hquiet
    -- the payloads still to come only add to the count
    have hnow : limitReached limit s.count = false := by
      rw [limitReached_eq_false] at hlimit ⊢
      intro n hn
      exact Nat.lt_of_le_of_lt (Nat.le_add_right _ _) (hlimit n hn)
    obtain ⟨out, dataBuf', hline, _, hpay⟩ := onLine_spec (s.loaded 1) dataBuf line
    obtain ⟨dataBuf'', hread⟩ := ih ((s.loaded 1).deliver out) dataBuf' hquiet.2 (by
      rw [hpay, List.length_append, ← Nat.add_assoc] at hlimit
      exact hlimit)
    refine ⟨dataBuf'', ?_⟩
    rw [List.map_cons, List.cons_append, readLoop, hquiet.1, hnow]
    simp only [Bool.false_eq_true, if_false, hline]
    rw [hread, hpay, Ingest.deliver_loaded, Ingest.loaded_loaded, Ingest.deliver_deliver,
      List.length_cons, Nat.add_comm 1]

/-- A state whose count is the number of calls, within the limit.  A line completes at most one
    payload and the limit is looked at before every line, so it is met exactly and never passed. -/
structure Counted (limit : Option Nat) (s : Ingest) : Prop where
  calls : s.count = s.calls.length
  bounded : ∀ n, limit = some n → s.count ≤ n

theorem counted_start (limit : Option Nat) (cancel : Flag) : Counted limit (Ingest.start cancel) :=
  ⟨rfl, fun _ _ => Nat.zero_le _⟩

theorem Counted.loaded {limit : Option Nat} {s : Ingest} (h : Counted limit s) (k : Nat) :
    Counted limit (s.loaded k) := ⟨h.calls, h.bounded⟩

theorem Counted.backOff {limit : Option Nat} {s : Ingest} (h : Counted limit s) :
    Counted limit s.backOff := ⟨h.calls, h.bounded⟩

/-- One more call below the limit. -/
theorem Counted.deliver {limit : Option Nat} {s : Ingest} (h : Counted limit s)
    (hnow : limitReached limit s.count = false) {out : List Text} (hout : out.length ≤ 1) :
    Counted limit (s.deliver out) := by
  constructor
  · rw [Ingest.deliver_count, Ingest.deliver_calls, List.length_append, h.calls]
  · intro n hn
    have := limitReached_eq_false.mp hnow n hn
    rw [Ingest.deliver_count]
    omega

/-- Reading keeps the count. -/
theorem Counted.readLoop {limit : Option Nat} :
    ∀ (items : List (Except IngestError Text)) (s : Ingest) (dataBuf : List Text),
    Counted limit s → Counted limit (readLoop limit s dataBuf items).2 := by
  intro items
  -- induction on the lines still to come; only a line that hands something over changes the count
  induction items with
  | nil => exact fun s _ h => h
  | cons item items ih =>
    intro s dataBuf h
    have hload := h.loaded 1
    cases item with
    | error e =>
      rw [Threaded.readLoop]
      split
      · exact hload
      · split <;> exact hload
    | ok line =>
      rw [Threaded.readLoop]
      split
      · exact hload
      · split
        · exact hload
        · rename_i hnow
          obtain ⟨out, dataBuf', hline, hout, _⟩ := onLine_spec (s.loaded 1) dataBuf line
          simp only [hline]
          exact ih _ _ (hload.deliver (Bool.not_eq_true _ ▸ hnow) hout)

/-- `read_stream` was told to stop: by the flag, or because the limit was reached. -/
def Stopped (limit : Option Nat) (r : Except IngestError Unit × Ingest) : Prop :=
  r.1 = .ok () ∧ (r.2.cancel.isSet = true ∨ limit = some r.2.count)

/-- The limit is reached exactly. -/
theorem Counted.limit_eq {limit : Option Nat} {s : Ingest} (h : Counted limit s)
    (hl : limitReached limit s.count = true) : limit = some s.count := by
  obtain ⟨n, hn, hle⟩ := limitReached_iff.mp hl
  rw [hn, Nat.le_antisymm hle (h.bounded n hn)]

/-- **Stopped on the way**: if the flag is set before the end, or the lines hold enough payloads,
    the loop ends for that reason. -/
theorem readLoop_stopped {limit : Option Nat} {ending : Ending} :
    ∀ (lines : List Text) (s : Ingest) (dataBuf : List Text), Counted limit s →
    s.cancel.SetWithin (lines.length + ending.items.length) ∨
      limitReached limit (s.count + (Sse.payloads dataLine dataBuf lines).length) = true →
    Stopped limit (readLoop limit s dataBuf (lines.map .ok ++ ending.items)) := by
  intro lines
  -- induction on the lines: the reason to stop is at hand, or it is among the rest
  induction lines with
  | nil =>
    intro s dataBuf hc h
    cases ending with
    | eof =>
      rcases h with h | h
      · exact absurd h (Flag.not_setWithin_zero _)
      · -- the last line of the stream reached the limit
        exact ⟨rfl, Or.inr (hc.limit_eq h)⟩
    | error =>
      show Stopped limit (readLoop limit s dataBuf [.error .io])
      rw [readLoop]
      by_cases hset : s.cancel.isSet = true
      · rw [if_pos hset]
        exact ⟨rfl, Or.inl (Flag.isSet_next hset)⟩
      · rw [if_neg hset]
        rcases h with h | h
        · exact absurd (Flag.setWithin_one.mp h) hset
        · have hnow : limitReached limit s.count = true := h
          rw [if_pos hnow]
          exact ⟨rfl, Or.inr (hc.limit_eq hnow)⟩
  | cons line lines ih =>
    intro s dataBuf hc h
    rw [List.map_cons, List.cons_append, readLoop]
    by_cases hset : s.cancel.isSet = true
    · rw [if_pos hset]
      exact ⟨rfl, Or.inl (Flag.isSet_next hset)⟩
    · rw [if_neg hset]
      by_cases hnow : limitReached limit s.count = true
      · rw [if_pos hnow]
        exact ⟨rfl, Or.inr (hc.limit_eq hnow)⟩
      · rw [if_neg hnow]
        obtain ⟨out, dataBuf', hline, hout, hpay⟩ := onLine_spec (s.loaded 1) dataBuf line
        simp only [hline]
        rw [Bool.not_eq_true] at hnow
        refine ih _ _ ((hc.loaded 1).deliver hnow hout) ?_
        rcases h with h | h
        · rw [List.length_cons, Nat.add_right_comm, Flag.setWithin_succ] at h
          exact Or.inl (h.resolve_left hset)
        · rw [hpay, List.length_append, ← Nat.add_assoc] at h
          exact Or.inr h

theorem Counted.readStream {limit : Option Nat} {s : Ingest} (h : Counted limit s) (conn : Conn) :
    Counted limit (readStream limit s conn).2 := by
  cases conn with
  | refused => exact h
  | opened lines ending => exact h.readLoop _ s []

/-- A connection read to its end: every payload was handed over, and `read_stream` returns `Ok`
    only if the stream ended cleanly. -/
theorem readStream_through {limit : Option Nat} {s : Ingest} {conn : Conn}
    (hquiet : ¬ s.cancel.SetWithin conn.loads)
    (hlimit : limitReached limit (s.count + conn.payloads.length) = false) :
    readStream limit s conn =
      (if conn.clean then .ok () else .error .io, (s.loaded conn.loads).deliver conn.payloads) := by
  cases conn with
  | refused =>
    show (_, s) = (_, (s.loaded 0).deliver [])
    rw [Ingest.loaded_zero, Ingest.deliver_nil]
    rfl
  | opened lines ending =>
    have hlines : ¬ s.cancel.SetWithin lines.length :=
      fun h => hquiet (h.mono (Nat.le_add_right _ _))
    obtain ⟨dataBuf, hread⟩ := readLoop_through ending.items lines s [] hlines hlimit
    rw [readStream, hread]
    cases ending with
    | eof => rfl
    | error =>
      -- the flag and the limit are looked at once more before the error is returned
      have hnext : ¬ (s.cancel.after lines.length).SetWithin 1 :=
        fun h => hquiet (Flag.setWithin_add.mpr (Or.inr h))
      rw [Flag.setWithin_one, Bool.not_eq_true] at hnext
      have hcount : limitReached limit
          ((s.loaded lines.length).deliver (Sse.payloads dataLine [] lines)).count = false := hlimit
      show readLoop limit _ dataBuf [.error .io] = _
      rw [readLoop, hcount]
      simp only [Ingest.deliver_cancel, Ingest.loaded_cancel, hnext, Bool.false_eq_true, if_false]
      rw [Ingest.deliver_loaded, Ingest.loaded_loaded]
      rfl

theorem readStream_stopped {limit : Option Nat} {s : Ingest} {conn : Conn} (hc : Counted limit s)
    (hnow : limitReached limit s.count = false)
    (h : s.cancel.SetWithin conn.loads ∨
      limitReached limit (s.count + conn.payloads.length) = true) :
    Stopped limit (readStream limit s conn) := by
  cases conn with
  | refused =>
    rcases h with h | h
    · exact absurd h (Flag.not_setWithin_zero _)
    · exact absurd (hnow.symm.trans h) (by decide)
  | opened lines ending => exact readLoop_stopped lines s [] hc h

/-! ## All connections

The loop gives a wrong reason in one case only, a stream that ends cleanly, which it takes for the
limit.  `Excused` follows the connections up to the first such end and asks if there had been a
reason to stop before it. -/

/-- Reconnecting keeps the count. -/
theorem Counted.runSse {limit : Option Nat} :
    ∀ (conns : List Conn) (s : Ingest), Counted limit s →
    Counted limit (runSse limit s conns).2 := by
  intro conns
  -- induction on the connections; nothing outside `read_stream` counts
  induction conns with
  | nil =>
    intro s h
    rw [Threaded.runSse]
    split
    · exact h.loaded 1
    · split <;> exact h.loaded 1
  | cons conn conns ih =>
    intro s h
    have hread := (h.loaded 1).readStream conn
    rw [Threaded.runSse]
    split
    · exact h.loaded 1
    · split
      · exact h.loaded 1
      · generalize Threaded.readStream limit (s.loaded 1) conn = r at hread
        obtain ⟨result, t⟩ := r
        cases result with
        | ok u =>
          simp only
          split <;> exact hread.loaded 1
        | error e =>
          simp only
          split
          · exact hread.loaded 1
          · exact ih _ (hread.loaded 1).backOff

/-- The payloads held up to the end of the first stream that ends cleanly, and the loads of the
    flag made until `run_sse` has looked at that end; `none` if no stream ends cleanly. -/
def cleanEnd : List Conn → Option (Nat × Nat)
  | [] => none
  | conn :: conns =>
    if conn.clean then some (conn.payloads.length, conn.loads + 2)
    else (cleanEnd conns).map fun r => (conn.payloads.length + r.1, conn.loads + 2 + r.2)

/-- The reason reported is so. -/
def Honest (limit : Option Nat) (r : Option (Except IngestError IngestOutcome) × Ingest) : Prop :=
  (reported r.1 = some .limit → limit = some r.2.count) ∧
    (reported r.1 = some .cancelled → r.2.cancel.isSet = true)

theorem honest_cancelled {limit : Option Nat} {s : Ingest} (h : s.cancel.isSet = true) :
    Honest limit (some (.ok .cancelled), s.loaded 1) := by
  constructor
  · exact fun he => nomatch he
  · exact fun _ => Flag.isSet_next h

theorem honest_limit {limit : Option Nat} {s : Ingest} :
    Honest limit (some (.ok .limitReached), s) ↔ limit = some s.count := by
  constructor
  · exact fun h => h.1 rfl
  · intro h
    constructor
    · exact fun _ => h
    · exact fun he => nomatch he

/-- A stream that ends cleanly is no reason to stop: before its end the limit has to be reached or
    the flag set. -/
def Excused (limit : Option Nat) (count : Nat) (cancel : Flag) (conns : List Conn) : Prop :=
  ∀ payloads loads, cleanEnd conns = some (payloads, loads) →
    limitReached limit (count + payloads) = true ∨ cancel.SetWithin loads

/-- A reason to stop within the first connection excuses the whole upstream. -/
theorem excused_of_first {limit : Option Nat} {count : Nat} {cancel : Flag} {conn : Conn}
    {conns : List Conn} (h : limitReached limit (count + conn.payloads.length) = true ∨
      cancel.SetWithin (conn.loads + 2)) : Excused limit count cancel (conn :: conns) := by
  intro payloads loads hend
  rw [cleanEnd] at hend
  split at hend
  · obtain ⟨rfl, rfl⟩ := Prod.mk.inj (Option.some.inj hend)
    exact h
  · obtain ⟨r, _, hr⟩ := Option.map_eq_some_iff.mp hend
    obtain ⟨rfl, rfl⟩ := Prod.mk.inj hr
    refine h.imp (fun h => limitReached_mono h ?_) fun h => h.mono ?_
    · rw [← Nat.add_assoc]
      exact Nat.le_add_right _ _
    · exact Nat.le_add_right _ _

/-- A connection lost without a reason to stop shifts the question to the next one.  The clean end,
    if there is one, lies one connection further on, and this one's loads and payloads come before. -/
theorem excused_of_lost {limit : Option Nat} {count : Nat} {cancel : Flag} {conn : Conn}
    {conns : List Conn} (hclean : conn.clean = false)
    (hquiet : ¬ cancel.SetWithin (conn.loads + 2)) :
    Excused limit count cancel (conn :: conns) ↔
      Excused limit (count + conn.payloads.length) (cancel.after (conn.loads + 2)) conns := by
  unfold Excused
  rw [cleanEnd, hclean]
  simp only [Bool.false_eq_true, if_false, Option.map_eq_some_iff]
  constructor
  · intro h payloads loads hend
    have := h _ _ ⟨(payloads, loads), hend, rfl⟩
    rw [← Nat.add_assoc, Flag.setWithin_add] at this
    exact this.imp_right fun h => h.resolve_left hquiet
  · rintro h payloads loads ⟨⟨p, l⟩, hend, hr⟩
    obtain ⟨rfl, rfl⟩ := Prod.mk.inj hr
    rw [← Nat.add_assoc, Flag.setWithin_add]
    exact (h p l hend).imp_right Or.inr

/-- What `run_sse` makes of its next connection. -/
inductive OneConn (limit : Option Nat) (s : Ingest) (conn : Conn) (conns : List Conn) : Prop
  | stopped (honest : Honest limit (runSse limit s (conn :: conns)))
      (why : limitReached limit (s.count + conn.payloads.length) = true ∨
        s.cancel.SetWithin (conn.loads + 2))
  -- a clean end without a reason to stop, which is reported as the limit
  | ended (t : Ingest) (clean : conn.clean = true)
      (count : t.count = s.count + conn.payloads.length)
      (unreached : limitReached limit t.count = false)
      (quiet : ¬ s.cancel.SetWithin (conn.loads + 2))
      (run : runSse limit s (conn :: conns) = (some (.ok .limitReached), t))
  | lost (t : Ingest) (clean : conn.clean = false)
      (count : t.count = s.count + conn.payloads.length)
      (cancel : t.cancel = s.cancel.after (conn.loads + 2))
      (quiet : ¬ s.cancel.SetWithin (conn.loads + 2)) (counted : Counted limit t)
      (run : runSse limit s (conn :: conns) = runSse limit t conns)

theorem oneConn {limit : Option Nat} {s : Ingest} (hc : Counted limit s) (conn : Conn)
    (conns : List Conn) : OneConn limit s conn conns := by
  by_cases hset : s.cancel.isSet = true
  · refine .stopped ?_ (Or.inr ?_)
    · rw [runSse, if_pos hset]
      exact honest_cancelled hset
    · exact (Flag.setWithin_one.mpr hset).mono (Nat.le_add_left 1 (conn.loads + 1))
  by_cases hnow : limitReached limit s.count = true
  · refine .stopped ?_ (Or.inl (limitReached_mono hnow (Nat.le_add_right _ _)))
    rw [runSse, if_neg hset, if_pos hnow]
    exact honest_limit.mpr (hc.limit_eq hnow)
  have hrun : runSse limit s (conn :: conns) =
      match readStream limit (s.loaded 1) conn with
      | (.ok (), t) =>
        if t.cancel.isSet then (some (.ok .cancelled), t.loaded 1)
        else (some (.ok .limitReached), t.loaded 1)
      | (.error _, t) =>
        if t.cancel.isSet then (some (.ok .cancelled), t.loaded 1)
        else runSse limit (t.loaded 1).backOff conns := by
    rw [runSse, if_neg hset, if_neg hnow]
  rw [Bool.not_eq_true] at hnow
  -- the flag is loaded before the connection, `conn.loads` times by it, and once after it
  have hafter : s.cancel.SetWithin (conn.loads + 2) ↔
      (s.loaded 1).cancel.SetWithin conn.loads ∨
        (s.cancel.after (conn.loads + 1)).isSet = true := by
    rw [Flag.setWithin_around, Flag.after_after, Nat.add_comm 1]
    exact or_iff_right hset
  by_cases hstop : (s.loaded 1).cancel.SetWithin conn.loads ∨
      limitReached limit (s.count + conn.payloads.length) = true
  · -- `read_stream` is told to stop, and `run_sse` reports what told it
    obtain ⟨hok, hwhy⟩ := readStream_stopped (hc.loaded 1) hnow hstop
    refine .stopped ?_ (hstop.symm.imp_right fun h => hafter.mpr (Or.inl h))
    generalize readStream limit (s.loaded 1) conn = r at hok hwhy hrun
    obtain ⟨result, t⟩ := r
    obtain rfl : result = .ok () := hok
    rw [hrun]
    simp only
    split
    · rename_i hset'
      exact honest_cancelled hset'
    · rename_i hset'
      exact honest_limit.mpr (hwhy.resolve_left hset')
  · rw [not_or, Bool.not_eq_true] at hstop
    have hread := readStream_through (s := s.loaded 1) hstop.1 hstop.2
    have hcounted := (hc.loaded 1).readStream conn
    rw [hread] at hrun hcounted
    have hcancel : (((s.loaded 1).loaded conn.loads).deliver conn.payloads).cancel =
        s.cancel.after (conn.loads + 1) := by
      rw [Ingest.loaded_loaded, Nat.add_comm 1]
      rfl
    have hcount : (((s.loaded 1).loaded conn.loads).deliver conn.payloads).count =
        s.count + conn.payloads.length := rfl
    generalize ((s.loaded 1).loaded conn.loads).deliver conn.payloads = t at *
    by_cases hlast : (s.cancel.after (conn.loads + 1)).isSet = true
    · -- cancelled by the time `run_sse` looks at the end of the stream
      refine .stopped ?_ (Or.inr (hafter.mpr (Or.inr hlast)))
      rw [← hcancel] at hlast
      have hresult : runSse limit s (conn :: conns) = (some (.ok .cancelled), t.loaded 1) := by
        rw [hrun]
        cases conn.clean <;> simp [hlast]
      rw [hresult]
      exact honest_cancelled hlast
    · have hquiet : ¬ s.cancel.SetWithin (conn.loads + 2) := by
        rw [hafter, not_or]
        exact ⟨hstop.1, hlast⟩
      rw [← hcancel] at hlast
      cases hcl : conn.clean with
      | true =>
        refine .ended (t.loaded 1) hcl hcount ?_ hquiet ?_
        · rw [Ingest.loaded_count, hcount]
          exact hstop.2
        · rw [hrun]
          simp [hcl, hlast]
      | false =>
        refine .lost (t.loaded 1).backOff hcl hcount ?_ hquiet (hcounted.loaded 1).backOff ?_
        · rw [Ingest.backOff_cancel, Ingest.loaded_cancel, hcancel, Flag.after_after]
        · rw [hrun]
          simp [hcl, hlast]

/-- **The reason reported is so, exactly when** no stream ends cleanly before the limit is reached
    or the flag is set. -/
theorem runSse_honest_iff {limit : Option Nat} :
    ∀ (conns : List Conn) (s : Ingest), Counted limit s →
    (Honest limit (runSse limit s conns) ↔ Excused limit s.count s.cancel conns) := by
  intro conns
  induction conns with
  | nil =>
    intro s hc
    refine iff_of_true ?_ fun _ _ h => by cases h
    rw [runSse]
    split
    · rename_i hset
      exact honest_cancelled hset
    · split
      · rename_i hnow
        exact honest_limit.mpr (hc.limit_eq hnow)
      · constructor
        · intro he
          cases he
        · intro he
          cases he
  | cons conn conns ih =>
    intro s hc
    cases oneConn hc conn conns with
    | stopped honest why => exact iff_of_true honest (excused_of_first why)
    | ended t clean count unreached quiet run =>
      -- `LimitReached` is reported, but the limit was not reached
      rw [run, honest_limit]
      refine iff_of_false (fun h => ?_) fun h => ?_
      · exact absurd (limitReached_eq_false.mp unreached _ h) (Nat.lt_irrefl _)
      · rcases h _ _ (by rw [cleanEnd, clean, if_pos rfl]) with h | h
        · rw [← count, unreached] at h
          cases h
        · exact quiet h
    | lost t clean count cancel quiet counted run =>
      rw [run, ih t counted, excused_of_lost clean quiet, count, cancel]

/-- The calls and the reason reported are truthful exactly then.  Since the count is the number of
    calls, what is reported of the count is so of the calls. -/
theorem runSse_truthful_iff (limit : Option Nat) (cancel : Flag) (conns : List Conn) :
    Truthful limit (runSse limit (.start cancel) conns).2.calls
        (runSse limit (.start cancel) conns).2.cancel.isSet
        (reported (runSse limit (.start cancel) conns).1) ↔
      Excused limit 0 cancel conns := by
  have hc := (counted_start limit cancel).runSse conns
  rw [← show Honest limit (runSse limit (.start cancel) conns) ↔ Excused limit 0 cancel conns from
    runSse_honest_iff conns (.start cancel) (counted_start limit cancel)]
  constructor
  · rintro ⟨_, hlimit, hcancel⟩
    rw [← hc.calls] at hlimit
    exact ⟨hlimit, hcancel⟩
  · rintro ⟨hlimit, hcancel⟩
    refine ⟨fun n hn => ?_, ?_, hcancel⟩
    · rw [← hc.calls]
      exact hc.bounded n hn
    · rw [← hc.calls]
      exact hlimit

/-- Nothing the upstream does makes `run_sse` return an error.  Whatever a connection gives, an
    `Err` of it is logged and not returned. -/
theorem runSse_ne_error {limit : Option Nat} {e : IngestError} :
    ∀ (conns : List Conn) (s : Ingest), (runSse limit s conns).1 ≠ some (.error e) := by
  intro conns
  induction conns with
  | nil =>
    intro s
    rw [runSse]
    split
    · exact fun he => nomatch he
    · split <;> exact fun he => nomatch he
  | cons conn conns ih =>
    intro s
    rw [runSse]
    split
    · exact fun he => nomatch he
    · split
      · exact fun he => nomatch he
      · generalize readStream limit (s.loaded 1) conn = r
        obtain ⟨_ | _, t⟩ := r
        · simp only
          split
          · exact fun he => nomatch he
          · exact ih _
        · simp only
          split <;> exact fun he => nomatch he

end RtsPipeline.Threaded
