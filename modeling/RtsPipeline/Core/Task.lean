/-
  `rts-core/src/priority.rs` and `rts-core/src/task.rs`: priorities and tasks.

  `Instant` is a point of the monotonic clock, kept as its nanoseconds.
-/
import Mathlib.Order.Basic
import Mathlib.Order.Lattice
import RtsPipeline.Core.Event

namespace RtsPipeline

/-- `Priority`: `Human = 0` before `Bot = 1`. -/
inductive Priority
  | human
  | bot
deriving DecidableEq, Repr

namespace Priority

/-- The discriminant (`*self as u8`). -/
def ordinal : Priority → Nat
  | human => 0
  | bot => 1

theorem ordinal_injective : Function.Injective ordinal := by
  intro a b h
  cases a <;> cases b <;> first | rfl | exact nomatch h

/-- `impl Ord for Priority` compares the discriminants. -/
instance : LinearOrder Priority := LinearOrder.lift' ordinal ordinal_injective

theorem le_bot (p : Priority) : p ≤ bot := by cases p <;> decide

theorem human_le (p : Priority) : human ≤ p := by cases p <;> decide

theorem ne_human {p : Priority} : p ≠ human ↔ p = bot := by cases p <;> decide

theorem ne_bot {p : Priority} : p ≠ bot ↔ p = human := by cases p <;> decide

/-- `Priority::from_bot_flag`. -/
def fromBotFlag (isBot : Bool) : Priority := if isBot then bot else human

end Priority

/-- `Task`.  `enqueued_at` is an `Instant`. -/
structure Task where
  event : OwnedEvent
  priority : Priority
  enqueuedAt : Nat
deriving DecidableEq, Repr

namespace Task

/-- A Human task. -/
def isHuman (t : Task) : Bool := decide (t.priority = .human)

theorem isHuman_iff {t : Task} : t.isHuman = true ↔ t.priority = .human := decide_eq_true_iff

theorem not_isHuman_iff {t : Task} : t.isHuman = false ↔ t.priority = .bot :=
  decide_eq_false_iff_not.trans Priority.ne_human

end Task

/-- The task `dispatch` builds from a parsed event at the time `now`. -/
def Event.toTask (e : Event) (now : Nat) : Task :=
  { event := e.intoOwned, priority := Priority.fromBotFlag e.bot, enqueuedAt := now }

/-- `PushOutcome`. -/
inductive PushOutcome
  | ok
  | droppedOldest
deriving DecidableEq, Repr

end RtsPipeline
