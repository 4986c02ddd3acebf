/-
  The back-off of the two ingests: the nominal delays slept, outcome by outcome.

  Both loops sleep `backoff` after a failure and double it up to 30 s.  The async one sets it back
  to 200 ms at every success status; the threaded one never does, so a connection that is lost after
  a streak of failures is paid for with the delay of the streak.

  What is slept is told by the failures a loop goes on after.  `lost` lists them for either loop,
  and it looks at the connections, the limit and the flag only, never at what the loop has slept; so
  each of the two run lemmas is an equation, with one delay for each connection in the list.

  The law itself is a function of the failures: the `k`th in a row costs `nominal (k + 1)`, and a
  failure that was established begins a new row.  Both inductions carry the same invariant, that the
  variable `backoff` is what the law asks for next.  In the async loop the length of the row follows
  the law; in the threaded one it only ever grows, which is the law as long as no connection but the
  first was established, and no longer than that, because the two differ at the first delay after
  one that was.

  1. `Async.lost` — the attempts the async loop goes on after; `Async.slept_runLoop`, one delay for
     each, by the law, whatever the upstream does.
  2. `Threaded.lost` — the connections the threaded loop reconnects on; `Threaded.slept_runSse`, one
     delay for each, as of a streak that never ends.
  3. `backoff_law_iff` — the law holds of both unless one of these, but the first, was established.
-/
import RtsPipeline.Equivalence.Ingest
import RtsPipeline.Lib.BackOff

namespace RtsPipeline

open Lib Lib.BackOff

/-! ## The async ingest

The failures the loop goes on after, as a list that is read off the upstream and the token, and
beside it the delays it slept.  Each is a recursion over the attempts, and `slept_runLoop` goes
through both at once. -/

namespace Async

/-- The attempt was answered with a success status. -/
def Conn.established : Conn → Bool
  | success _ => true
  | _ => false

/-- Reading frames leaves the back-off alone: it is set back at the status, not at a frame. -/
theorem readFrames_backoff (limit : Option Nat) : ∀ (frames : List Frame) (s : Ingest),
    (readFrames limit s frames).2.slept = s.slept ∧
      (readFrames limit s frames).2.backoff = s.backoff := by
  intro frames
  induction frames with
  | nil => intro s; rw [readFrames]; split <;> exact ⟨rfl, rfl⟩
  | cons frame frames ih =>
    intro s
    cases frame with
    | error =>
      rw [readFrames]
      split
      · exact ⟨rfl, rfl⟩
      · exact ih (s.loaded 1)
    | event data =>
      rw [readFrames]
      split
      · exact ⟨rfl, rfl⟩
      · split
        · exact ih (s.loaded 1)
        · simp only
          split
          · exact ⟨rfl, rfl⟩
          · exact ih ((s.loaded 1).deliver data)

/-- An attempt starts the streak anew when it is established. -/
theorem attempt_backoff (limit : Option Nat) (s : Ingest) (conn : Conn) {k : Nat}
    (h : s.backoff = nominal initialBackoff maxBackoff (k + 1)) :
    (attempt limit s conn).2.slept = s.slept ∧
      (attempt limit s conn).2.backoff =
        nominal initialBackoff maxBackoff (failures k conn.established) := by
  cases conn with
  | sendError => exact ⟨rfl, h⟩
  | badStatus => exact ⟨rfl, h⟩
  | success frames =>
    obtain ⟨hslept, hbackoff⟩ := readFrames_backoff limit frames s.established
    exact ⟨hslept, hbackoff⟩

/-- The loop tries again after the attempt: it failed or its stream ended, without a payload that
    reaches the limit, and the token was not set up to then.  The limit is looked at only behind a
    payload, so a connection without any does not stop the loop even if the limit is 0. -/
def Reconnects (limit : Option Nat) (count : Nat) (cancel : Flag) (conn : Conn) : Prop :=
  (conn.payloads = [] ∨ limitReached limit (count + conn.payloads.length) = false) ∧
    ¬ cancel.SetWithin (conn.loads + 2)

instance (limit : Option Nat) (count : Nat) (cancel : Flag) (conn : Conn) :
    Decidable (Reconnects limit count cancel conn) := inferInstanceAs (Decidable (_ ∧ _))

/-- The attempts the loop sleeps after, one after the other.  Two loads of the token come before an
    attempt; one belongs to the sleep and one comes behind it. -/
def lost (limit : Option Nat) : Nat → Flag → List Conn → List Conn
  | _, _, [] => []
  | count, cancel, conn :: conns =>
    if Reconnects limit count cancel conn then
      conn :: lost limit (count + conn.payloads.length) (cancel.after (conn.loads + 4)) conns
    else []

/-- A token that is set ends the loop at its top. -/
theorem lost_set {limit : Option Nat} {count : Nat} {cancel : Flag} (hset : cancel.isSet = true)
    (conns : List Conn) : lost limit count cancel conns = [] := by
  cases conns with
  | nil => rfl
  | cons conn conns =>
    have hwithin : cancel.SetWithin (conn.loads + 2) :=
      (Flag.setWithin_one.mpr hset).mono (Nat.le_add_left 1 _)
    rw [lost, if_neg fun h => h.2 hwithin]

/-- When a frame stream is read to its end, and what has been counted and loaded then. -/
theorem readFrames_ends (limit : Option Nat) : ∀ (frames : List Frame) (s : Ingest),
    ((readFrames limit s frames).1 = none ↔
      (frames.filterMap Frame.payload? = [] ∨
        limitReached limit (s.delivered + (frames.filterMap Frame.payload?).length) = false) ∧
      ¬ s.cancel.SetWithin (frames.length + 1)) ∧
    ((readFrames limit s frames).1 = none →
      (readFrames limit s frames).2.delivered =
        s.delivered + (frames.filterMap Frame.payload?).length ∧
      (readFrames limit s frames).2.cancel = s.cancel.after (frames.length + 1)) := by
  intro frames
  -- induction on the frames: one load before each, and one to find the end
  induction frames with
  | nil =>
    intro s
    rw [readFrames]
    split
    · rename_i hset
      exact ⟨iff_of_false (by simp) fun h => h.2 (Flag.setWithin_one.mpr hset), fun h => by cases h⟩
    · rename_i hset
      exact ⟨iff_of_true rfl ⟨Or.inl rfl, fun h => hset (Flag.setWithin_one.mp h)⟩,
        fun _ => ⟨rfl, rfl⟩⟩
  | cons frame frames ih =>
    intro s
    by_cases hset : s.cancel.isSet = true
    · rw [readFrames_set hset]
      have hwithin : s.cancel.SetWithin ((frame :: frames).length + 1) :=
        (Flag.setWithin_one.mpr hset).mono (Nat.le_add_left 1 _)
      exact ⟨iff_of_false (by simp) fun h => h.2 hwithin, fun h => by cases h⟩
    · -- the load for this frame was quiet
      have hload : s.cancel.SetWithin ((frame :: frames).length + 1) ↔
          s.cancel.next.SetWithin (frames.length + 1) := by
        rw [List.length_cons, Flag.setWithin_succ]
        exact or_iff_right hset
      have hafter : s.cancel.next.after (frames.length + 1) =
          s.cancel.after ((frame :: frames).length + 1) := Flag.next_after _ _
      have hsilent : frame.payload? = none →
          readFrames limit s (frame :: frames) = readFrames limit (s.loaded 1) frames := by
        intro hnone
        cases frame with
        | error => rw [readFrames, if_neg hset]
        | event data =>
          have hdata : data = [] := by
            by_contra hne
            rw [Frame.payload?, if_neg hne] at hnone
            cases hnone
          rw [readFrames, if_neg hset, if_pos hdata]
      rw [hload, ← hafter]
      cases hp : frame.payload? with
      | none =>
        rw [hsilent hp, List.filterMap_cons_none hp]
        exact ih (s.loaded 1)
      | some data =>
        rw [List.filterMap_cons_some hp, List.length_cons]
        obtain ⟨hne, rfl⟩ : data ≠ [] ∧ frame = .event data := by
          cases frame with
          | error => cases hp
          | event data' =>
            rw [Frame.payload?] at hp
            split at hp
            · cases hp
            · rename_i hne
              obtain rfl := Option.some.inj hp
              exact ⟨hne, rfl⟩
        rw [readFrames, if_neg hset, if_neg hne]
        simp only
        have hcount : ((s.loaded 1).deliver data).delivered = s.delivered + 1 := rfl
        rw [hcount]
        have hsum : s.delivered + ((frames.filterMap Frame.payload?).length + 1) =
            s.delivered + 1 + (frames.filterMap Frame.payload?).length := by omega
        rw [hsum]
        -- reached now, it is reached at the end as well; if not, only the rest can reach it
        by_cases hlim : limitReached limit (s.delivered + 1) = true
        · rw [if_pos hlim]
          have hreached := limitReached_mono hlim
            (Nat.le_add_right _ (frames.filterMap Frame.payload?).length)
          refine ⟨iff_of_false (by simp) ?_, fun h => by cases h⟩
          rintro ⟨hnil | hbelow, _⟩
          · cases hnil
          · rw [hreached] at hbelow
            cases hbelow
        · rw [if_neg hlim]
          obtain ⟨hiff, hends⟩ := ih ((s.loaded 1).deliver data)
          refine ⟨hiff.trans (and_congr_left fun _ => ?_), hends⟩
          constructor
          · rintro (hnil | hbelow)
            · rw [hnil]
              exact Or.inr (Bool.not_eq_true _ ▸ hlim)
            · exact Or.inr hbelow
          · rintro (hnil | hbelow)
            · cases hnil
            · exact Or.inr hbelow

/-- The same of an attempt. -/
theorem attempt_ends (limit : Option Nat) (s : Ingest) (conn : Conn) :
    ((attempt limit s conn).1 = none ↔
      (conn.payloads = [] ∨ limitReached limit (s.delivered + conn.payloads.length) = false) ∧
      ¬ s.cancel.SetWithin conn.loads) ∧
    ((attempt limit s conn).1 = none →
      (attempt limit s conn).2.delivered = s.delivered + conn.payloads.length ∧
      (attempt limit s conn).2.cancel = s.cancel.after conn.loads) := by
  cases conn with
  | sendError =>
    exact ⟨iff_of_true rfl ⟨Or.inl rfl, Flag.not_setWithin_zero _⟩,
      fun _ => ⟨rfl, (Flag.after_zero _).symm⟩⟩
  | badStatus =>
    exact ⟨iff_of_true rfl ⟨Or.inl rfl, Flag.not_setWithin_zero _⟩,
      fun _ => ⟨rfl, (Flag.after_zero _).symm⟩⟩
  | success frames => exact readFrames_ends limit frames s.established

/-- **What is slept**: one delay for each attempt that is lost, by the law. -/
theorem slept_runLoop (limit : Option Nat) : ∀ (conns : List Conn) (s : Ingest) (k : Nat),
    s.backoff = nominal initialBackoff maxBackoff (k + 1) →
    (runLoop limit s conns).2.slept = s.slept ++ delays initialBackoff maxBackoff k
      ((lost limit s.delivered s.cancel conns).map Conn.established) := by
  intro conns
  induction conns with
  | nil =>
    intro s k _
    rw [runLoop, lost]
    show _ = s.slept ++ []
    rw [List.append_nil]
    split
    · rfl
    · split <;> rfl
  | cons conn conns ih =>
    intro s k h
    by_cases htwo : s.cancel.SetWithin 2
    · -- cancelled before the attempt
      have hwithin : s.cancel.SetWithin (conn.loads + 2) := htwo.mono (Nat.le_add_left 2 _)
      rw [lost, if_neg fun hr => hr.2 hwithin]
      show _ = s.slept ++ []
      rw [List.append_nil, runLoop]
      split
      · rfl
      · rename_i hset
        rw [Flag.setWithin_succ, Flag.setWithin_one] at htwo
        have hnext : (s.loaded 1).cancel.isSet = true := htwo.resolve_left hset
        rw [if_pos hnext]
        rfl
    · have hquiet := htwo
      rw [Flag.setWithin_succ, Flag.setWithin_one, not_or] at hquiet
      have hreconnects : Reconnects limit s.delivered s.cancel conn ↔
          (attempt limit (s.loaded 2) conn).1 = none := by
        rw [(attempt_ends limit (s.loaded 2) conn).1, Reconnects, Nat.add_comm conn.loads 2,
          Flag.setWithin_add, or_iff_right htwo]
        rfl
      obtain ⟨hslept, hbackoff⟩ := attempt_backoff limit (s.loaded 2) conn h
      have hends := (attempt_ends limit (s.loaded 2) conn).2
      rw [lost, runLoop, if_neg hquiet.1]
      have hsecond : ¬ (s.loaded 1).cancel.isSet = true := hquiet.2
      rw [if_neg hsecond]
      generalize attempt limit (s.loaded 2) conn = r at hslept hbackoff hreconnects hends
      obtain ⟨outcome, t⟩ := r
      cases outcome with
      | some outcome =>
        rw [if_neg fun hr => by cases hreconnects.mp hr]
        exact hslept.trans (List.append_nil _).symm
      | none =>
        rw [if_pos (hreconnects.mpr rfl), List.map_cons, delays]
        obtain ⟨hdelivered, hcancel⟩ := hends rfl
        have hone : t.failed.slept =
            s.slept ++ [nominal initialBackoff maxBackoff (failures k conn.established)] := by
          show t.slept ++ [t.backoff] = _
          rw [hslept, hbackoff]
          rfl
        have hnext : t.failed.backoff =
            nominal initialBackoff maxBackoff (failures k conn.established + 1) := by
          show min (t.backoff * 2) maxBackoff = _
          rw [hbackoff]
          cases conn.established with
          | true => exact nominal_succ initialBackoff maxBackoff 0
          | false => exact nominal_succ initialBackoff maxBackoff k
        -- the load in the sleep and the one behind it
        have hloads : (t.failed.loaded 1).cancel = s.cancel.after (conn.loads + 4) := by
          show t.cancel.next.after 1 = _
          rw [hcancel]
          show (((s.cancel.after 2).after conn.loads).after 1).after 1 = _
          rw [Flag.after_after, Flag.after_after, Flag.after_after]
          congr 1
          omega
        simp only
        split
        · rename_i hset
          rw [lost_set (by rw [← hloads]; exact Flag.isSet_next hset)]
          exact hone
        · rw [ih (t.failed.loaded 1) _ hnext, hloads]
          show t.failed.slept ++ delays _ _ _ ((lost limit t.delivered _ _).map _) = _
          rw [hone, hdelivered, List.append_assoc]
          rfl

end Async

/-! ## The threaded ingest

The same for the threads.  Here a connection that was established does not set the back-off back,
and so all losses are one streak. -/

namespace Threaded

/-- The attempt got as far as a stream. -/
def Conn.established : Conn → Bool
  | opened _ _ => true
  | refused => false

/-- The loop reconnects after the connection: it is lost through an error, before the limit is
    reached and the flag is set. -/
def Reconnects (limit : Option Nat) (count : Nat) (cancel : Flag) (conn : Conn) : Prop :=
  conn.clean = false ∧ limitReached limit (count + conn.payloads.length) = false ∧
    ¬ cancel.SetWithin (conn.loads + 2)

instance (limit : Option Nat) (count : Nat) (cancel : Flag) (conn : Conn) :
    Decidable (Reconnects limit count cancel conn) := inferInstanceAs (Decidable (_ ∧ _ ∧ _))

/-- The connections the loop reconnects on, one after the other. -/
def lost (limit : Option Nat) : Nat → Flag → List Conn → List Conn
  | _, _, [] => []
  | count, cancel, conn :: conns =>
    if Reconnects limit count cancel conn then
      conn :: lost limit (count + conn.payloads.length) (cancel.after (conn.loads + 2)) conns
    else []

/-- Reading leaves the delays alone.  A lost connection is told to the caller, who does the
    sleeping. -/
theorem readLoop_slept {limit : Option Nat} : ∀ (items : List (Except IngestError Text))
    (s : Ingest) (dataBuf : List Text), (readLoop limit s dataBuf items).2.slept = s.slept := by
  intro items
  induction items with
  | nil => exact fun _ _ => rfl
  | cons item items ih =>
    intro s dataBuf
    cases item with
    | error e =>
      rw [readLoop]
      split
      · rfl
      · split <;> rfl
    | ok line =>
      rw [readLoop]
      split
      · rfl
      · split
        · rfl
        · obtain ⟨out, dataBuf', hline, _⟩ := onLine_spec (s.loaded 1) dataBuf line
          simp only [hline]
          rw [ih]
          rfl

theorem readStream_slept (limit : Option Nat) (s : Ingest) (conn : Conn) :
    (readStream limit s conn).2.slept = s.slept := by
  cases conn with
  | refused => rfl
  | opened lines ending => exact readLoop_slept _ s []

/-- One more delay, and the next connection.  The flag is clear at the three places where it is
    loaded: before the attempt, on the connection, and after it. -/
theorem runSse_reconnects {limit : Option Nat} {s : Ingest} {conn : Conn}
    (h : Reconnects limit s.count s.cancel conn) (conns : List Conn) :
    runSse limit s (conn :: conns) =
      runSse limit ((s.loaded (conn.loads + 2)).deliver conn.payloads).backOff conns := by
  obtain ⟨hclean, hlimit, hquiet⟩ := h
  rw [Flag.setWithin_around, not_or, not_or, Flag.after_after] at hquiet
  obtain ⟨hfirst, hread, hlast⟩ := hquiet
  have hnow : ¬ limitReached limit s.count = true := fun hn =>
    absurd (limitReached_mono hn (Nat.le_add_right _ _)) (by rw [hlimit]; decide)
  have hstream := readStream_through (s := s.loaded 1) hread hlimit
  rw [hclean, if_neg Bool.false_ne_true] at hstream
  rw [runSse, if_neg hfirst, if_neg hnow, hstream]
  simp only [Ingest.deliver_cancel, Ingest.loaded_cancel, Flag.after_after, hlast,
    Bool.false_eq_true, if_false]
  rw [Ingest.deliver_loaded, Ingest.loaded_loaded, Ingest.loaded_loaded,
    show conn.loads + 2 = 1 + (conn.loads + 1) from Nat.add_comm _ 1]

/-- The count is below the limit then. -/
theorem Counted.reconnects {limit : Option Nat} {s : Ingest} (hc : Counted limit s) {conn : Conn}
    (h : Reconnects limit s.count s.cancel conn) (k : Nat) :
    Counted limit ((s.loaded k).deliver conn.payloads).backOff where
  calls := by
    show s.count + conn.payloads.length = (s.calls ++ conn.payloads).length
    rw [List.length_append, hc.calls]
  bounded := fun n hn => Nat.le_of_lt (limitReached_eq_false.mp h.2.1 n hn)

/-- Otherwise the loop returns, without a delay. -/
theorem runSse_returns {limit : Option Nat} {s : Ingest} {conn : Conn} (hc : Counted limit s)
    (h : ¬ Reconnects limit s.count s.cancel conn) (conns : List Conn) :
    (runSse limit s (conn :: conns)).2.slept = s.slept := by
  have hslept := readStream_slept limit (s.loaded 1) conn
  rw [runSse]
  split
  · rfl
  · rename_i hset
    split
    · rfl
    · rename_i hnow
      rw [Bool.not_eq_true] at hnow
      -- the stream was left for the flag or the limit, or read to its end
      by_cases hstop : (s.loaded 1).cancel.SetWithin conn.loads ∨
          limitReached limit (s.count + conn.payloads.length) = true
      · have hok := (readStream_stopped (hc.loaded 1) hnow hstop).1
        generalize readStream limit (s.loaded 1) conn = r at hok hslept
        obtain ⟨result, t⟩ := r
        obtain rfl : result = .ok () := hok
        simp only
        split <;> exact hslept
      · rw [not_or, Bool.not_eq_true] at hstop
        have hstream := readStream_through (s := s.loaded 1) hstop.1 hstop.2
        rw [hstream] at hslept ⊢
        cases hclean : conn.clean with
        | true => simp only [if_true]; split <;> exact hslept
        | false =>
          simp only [Bool.false_eq_true, if_false]
          split
          · exact hslept
          · -- nothing is left that keeps the loop from reconnecting
            rename_i hlast
            refine absurd ⟨hclean, hstop.2, ?_⟩ h
            rw [Flag.setWithin_around]
            rintro (hw | hw | hw)
            · exact hset hw
            · exact hstop.1 hw
            · exact hlast hw

/-- **What is slept**: one delay for each connection that is lost, as of one long streak. -/
theorem slept_runSse {limit : Option Nat} : ∀ (conns : List Conn) (s : Ingest) (k : Nat),
    Counted limit s → s.backoff = nominal 200 30000 (k + 1) →
    (runSse limit s conns).2.slept = s.slept ++ delays 200 30000 k
      (List.replicate (lost limit s.count s.cancel conns).length false) := by
  intro conns
  -- induction on the connections; the delay is that of the streak so far
  induction conns with
  | nil =>
    intro s k _ _
    rw [runSse, lost]
    show _ = s.slept ++ []
    rw [List.append_nil]
    split
    · rfl
    · split <;> rfl
  | cons conn conns ih =>
    intro s k hc hbackoff
    rw [lost]
    by_cases h : Reconnects limit s.count s.cancel conn
    -- one more failure of the same streak: the delay is doubled, and never starts anew
    · have hnext : ((s.loaded (conn.loads + 2)).deliver conn.payloads).backOff.backoff =
          nominal 200 30000 (k + 2) := by
        show min (s.backoff * 2) 30000 = _
        rw [hbackoff]
        exact nominal_succ 200 30000 k
      rw [runSse_reconnects h, if_pos h, List.length_cons, List.replicate_succ, delays,
        ih _ (k + 1) (hc.reconnects h _) hnext]
      show (s.slept ++ [s.backoff]) ++ _ = _
      rw [hbackoff, List.append_assoc]
      rfl
    · rw [runSse_returns hc h, if_neg h]
      exact (List.append_nil _).symm

end Threaded

/-! ## Both

The law is stated once, over a list of failures that says of each whether a connection had been
established. -/

namespace Equivalence

/-- The delays slept, one for each failure in the list and no others: 200 ms, doubled after every
    failure up to 30 s, and 200 ms again for the loss of an established connection. -/
def FollowsLaw (slept : List Nat) (failed : List Bool) : Prop := slept = delays 200 30000 0 failed

instance (slept : List Nat) (failed : List Bool) : Decidable (FollowsLaw slept failed) :=
  inferInstanceAs (Decidable (_ = _))

/-- The failures the threaded ingest goes on after: was the connection established? -/
def threadedFailures (limit : Option Nat) (cancel : Flag) (conns : List Threaded.Conn) : List Bool :=
  (Threaded.lost limit 0 cancel conns).map Threaded.Conn.established

/-- The failures the async ingest goes on after; without a client it makes no attempt. -/
def asyncFailures (client : Except Async.IngestError Unit) (limit : Option Nat) (cancel : Flag)
    (conns : List Async.Conn) : List Bool :=
  match client with
  | .error _ => []
  | .ok () => (Async.lost limit 0 cancel conns).map Async.Conn.established

/-- Both ingests follow the law, and after the same failures they have slept the same. -/
def BackOffLaw (limit : Option Nat) (cancel : Flag) (tconns : List Threaded.Conn)
    (client : Except Async.IngestError Unit) (aconns : List Async.Conn) : Prop :=
  let threaded := (Threaded.runSse limit (.start cancel) tconns).2.slept
  let async := (Async.runSse client limit (.start cancel) aconns).2.slept
  FollowsLaw threaded (threadedFailures limit cancel tconns) ∧
    FollowsLaw async (asyncFailures client limit cancel aconns) ∧
    (threadedFailures limit cancel tconns = asyncFailures client limit cancel aconns →
      threaded = async)

theorem async_follows (client : Except Async.IngestError Unit) (limit : Option Nat) (cancel : Flag)
    (conns : List Async.Conn) :
    FollowsLaw (Async.runSse client limit (.start cancel) conns).2.slept
      (asyncFailures client limit cancel conns) := by
  cases client with
  | error e => rfl
  | ok u => exact Async.slept_runLoop limit conns (.start cancel) 0 rfl

theorem threaded_follows_iff (limit : Option Nat) (cancel : Flag) (conns : List Threaded.Conn) :
    FollowsLaw (Threaded.runSse limit (.start cancel) conns).2.slept
        (threadedFailures limit cancel conns) ↔
      ∀ conn ∈ (Threaded.lost limit 0 cancel conns).tail, conn.established = false := by
  have hslept : (Threaded.runSse limit (.start cancel) conns).2.slept =
      delays 200 30000 0 (List.replicate (Threaded.lost limit 0 cancel conns).length false) :=
    Threaded.slept_runSse conns (.start cancel) 0 (Threaded.counted_start limit cancel) rfl
  -- the law for the connections that are lost
  have hlaw := @delays_eq_unreset_iff 200 30000 (by decide) (by decide)
    (threadedFailures limit cancel conns)
  rw [threadedFailures, List.length_map, ← List.map_tail, List.forall_mem_map] at hlaw
  rw [FollowsLaw, hslept]
  exact hlaw

/-- **The back-off law.**  For every limit, every moment of the cancellation and every upstream: the
    two ingests sleep one delay, the one the law asks for, after each failure they go on after, and
    so the same after the same failures, exactly when of the connections the threaded one reconnects
    on none but the first was established.

    Both loops sleep one delay for each attempt in their `lost`, the async one by the law and the
    threaded one as of a single streak.  The two differ from the first delay on that follows a
    connection established later than the first. -/
theorem backoff_law_iff (limit : Option Nat) (cancel : Flag) (tconns : List Threaded.Conn)
    (client : Except Async.IngestError Unit) (aconns : List Async.Conn) :
    BackOffLaw limit cancel tconns client aconns ↔
      ∀ conn ∈ (Threaded.lost limit 0 cancel tconns).tail, conn.established = false := by
  rw [← threaded_follows_iff limit cancel tconns]
  constructor
  · exact fun h => h.1
  · intro hthreaded
    have hasync := async_follows client limit cancel aconns
    refine ⟨hthreaded, hasync, fun hsame => ?_⟩
    rw [FollowsLaw, hsame] at hthreaded
    exact hthreaded.trans hasync.symm

/-- Two connections in a row that are established and lost: the second loss is slept on for 400 ms
    by the threaded ingest, and for 200 ms by the async one. -/
theorem backoff_law_streak :
    ¬ BackOffLaw none .never [.opened [] .error, .opened [] .error] (.ok ())
      [.success [], .success []] := by
  rintro ⟨hthreaded, _⟩
  exact absurd hthreaded (by decide)

end Equivalence

end RtsPipeline
