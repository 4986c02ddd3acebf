/-
  The first half of `dispatch`, which `rts-async/src/parser.rs` and `rts-threaded/src/parser.rs`
  share: parse the payload, classify it, and shed Bot events in Degraded Mode.

  The heartbeat is touched right after the parse, so a payload that parses counts as a sign of life
  even if it is shed, and one that does not parse counts for nothing.  The second half, the push,
  differs between the pipelines and is with their queues.
-/
import RtsPipeline.Core.Task

namespace RtsPipeline

/-- What `dispatch` makes of a payload before it touches a queue. -/
inductive Admission
  | skipped (err : RtsError)
  | shed (event : Event)
  | admitted (task : Task)

/-- `dispatch` up to the push.  `degraded` is what `is_degraded()` returned and `now` the
    `enqueued_at` the task gets. -/
def classify (fromStr : Text → Option Json) (raw : Text) (degraded : Bool) (now : Nat) :
    Admission :=
  match parseOne fromStr raw with
  | .error err => .skipped err
  | .ok event =>
    if Priority.fromBotFlag event.bot = .bot ∧ degraded = true then .shed event
    else .admitted (event.toTask now)

/-- The event of an accepted payload. -/
def accepted? (fromStr : Text → Option Json) (raw : Text) : Option Event :=
  match parseOne fromStr raw with
  | .error _ => none
  | .ok event => some event

section

variable {fromStr : Text → Option Json} {raw : Text} {degraded : Bool} {now : Nat}

theorem classify_skipped {err : RtsError} (h : classify fromStr raw degraded now = .skipped err) :
    accepted? fromStr raw = none := by
  unfold classify at h
  unfold accepted?
  cases hp : parseOne fromStr raw with
  | error e => rfl
  | ok event => rw [hp] at h; simp only at h; split at h <;> exact nomatch h

/-- Only Bot events are shed, and only in Degraded Mode. -/
theorem classify_shed {event : Event} (h : classify fromStr raw degraded now = .shed event) :
    accepted? fromStr raw = some event ∧ (event.toTask now).priority = .bot ∧ degraded = true := by
  unfold classify at h
  unfold accepted?
  cases hp : parseOne fromStr raw with
  | error e => rw [hp] at h; exact nomatch h
  | ok e =>
    rw [hp] at h
    simp only at h
    split at h
    · rename_i hb
      obtain rfl : e = event := by injection h
      exact ⟨rfl, hb⟩
    · exact nomatch h

theorem classify_admitted {task : Task} (h : classify fromStr raw degraded now = .admitted task) :
    ∃ event, accepted? fromStr raw = some event ∧ task = event.toTask now := by
  unfold classify at h
  unfold accepted?
  cases hp : parseOne fromStr raw with
  | error e => rw [hp] at h; exact nomatch h
  | ok e =>
    rw [hp] at h
    simp only at h
    split at h
    · exact nomatch h
    · exact ⟨e, rfl, by injection h with h; exact h.symm⟩

end

end RtsPipeline
