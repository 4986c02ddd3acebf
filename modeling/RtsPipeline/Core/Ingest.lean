/-
  What the two ingests promise: each returns because its limit was reached or because it was
  cancelled, and says which.

  The streams themselves differ, so do the outcomes of the two `run_sse`; here is only what both
  module docs state of them.
-/
import RtsPipeline.Core.Event
import RtsPipeline.Lib.Flag

namespace RtsPipeline

/-- `limit.is_some_and(|l| count >= l)`. -/
def limitReached (limit : Option Nat) (count : Nat) : Bool := limit.any (· ≤ count)

theorem limitReached_iff {limit : Option Nat} {count : Nat} :
    limitReached limit count = true ↔ ∃ n, limit = some n ∧ n ≤ count := by
  cases limit with
  | none => simp [limitReached]
  | some n =>
    constructor
    · exact fun h => ⟨n, rfl, decide_eq_true_iff.mp h⟩
    · rintro ⟨m, hm, hle⟩
      exact decide_eq_true_iff.mpr (Option.some.inj hm ▸ hle)

theorem limitReached_eq_false {limit : Option Nat} {count : Nat} :
    limitReached limit count = false ↔ ∀ n, limit = some n → count < n := by
  rw [← Bool.not_eq_true, limitReached_iff]
  constructor
  · exact fun h n hn => Nat.lt_of_not_le fun hle => h ⟨n, hn, hle⟩
  · rintro h ⟨n, hn, hle⟩
    exact absurd (h n hn) (Nat.not_lt.mpr hle)

theorem limitReached_mono {limit : Option Nat} {j k : Nat} (h : limitReached limit j = true)
    (hjk : j ≤ k) : limitReached limit k = true := by
  obtain ⟨n, hn, hle⟩ := limitReached_iff.mp h
  exact limitReached_iff.mpr ⟨n, hn, Nat.le_trans hle hjk⟩

/-- The reason `run_sse` gives for returning `Ok`. -/
inductive Reason
  | limit
  | cancelled
deriving DecidableEq, Repr

/-- Ingest handed its sink no more than the limit, and what it reports is so: `reported` is its
    reason, if it has returned `Ok`, and `cancelled` says whether the flag is set then. -/
structure Truthful (limit : Option Nat) (calls : List Text) (cancelled : Bool)
    (reported : Option Reason) : Prop where
  bounded : ∀ n, limit = some n → calls.length ≤ n
  ofLimit : reported = some .limit → limit = some calls.length
  ofCancel : reported = some .cancelled → cancelled = true

end RtsPipeline
