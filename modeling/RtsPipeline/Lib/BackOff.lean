/-
  Exponential back-off: delays that double from a base up to a cap and start anew after a success.

  A failure either found the connection established, which it then ends, or did not get that far.
  `delays` gives the delay after each failure of a list; `true` stands for a failure of the first
  kind, which is number one of a new streak.

  1. `nominal_succ` — doubling and capping the last delay gives the next one of a streak.
  2. `delays_eq_unreset_iff` — when delays that never start anew are the right ones.
-/
import Mathlib.Algebra.GroupWithZero.Nat
import Mathlib.Data.List.Basic

namespace RtsPipeline.Lib.BackOff

/-- The delay after the `k`-th failure of a streak. -/
def nominal (base cap k : Nat) : Nat := min (base * 2 ^ (k - 1)) cap

/-- The number of a failure in its streak, `k` being the number of the one before. -/
def failures (k : Nat) (established : Bool) : Nat := if established then 1 else k + 1

/-- The delays after these failures, the streak standing at `k`. -/
def delays (base cap : Nat) : Nat → List Bool → List Nat
  | _, [] => []
  | k, established :: rest =>
    nominal base cap (failures k established) :: delays base cap (failures k established) rest

variable {base cap k : Nat}

theorem nominal_one (h : base ≤ cap) : nominal base cap 1 = base := by
  show min (base * 2 ^ 0) cap = base
  omega

theorem nominal_succ (base cap k : Nat) :
    min (nominal base cap (k + 1) * 2) cap = nominal base cap (k + 2) := by
  show min (min (base * 2 ^ k) cap * 2) cap = min (base * 2 ^ (k + 1)) cap
  rw [Nat.pow_succ, ← Nat.mul_assoc]
  omega

/-- The first delay is the shortest. -/
theorem nominal_one_lt (hbase : 0 < base) (hcap : base < cap) :
    nominal base cap 1 < nominal base cap (k + 2) := by
  rw [nominal_one (Nat.le_of_lt hcap)]
  show base < min (base * 2 ^ (k + 1)) cap
  have hpow : 1 < 2 ^ (k + 1) := Nat.one_lt_two_pow (Nat.succ_ne_zero k)
  have : base * 1 < base * 2 ^ (k + 1) := Nat.mul_lt_mul_of_pos_left hpow hbase
  omega

/-- In a streak that has begun, delays that never start anew are right when nothing succeeds. -/
theorem delays_succ_eq_unreset_iff (hbase : 0 < base) (hcap : base < cap) (es : List Bool) :
    ∀ k, delays base cap (k + 1) (List.replicate es.length false) = delays base cap (k + 1) es ↔
      ∀ e ∈ es, e = false := by
  induction es with
  | nil => exact fun _ => iff_of_true rfl fun _ h => absurd h List.not_mem_nil
  | cons e es ih =>
    intro k
    rw [List.length_cons, List.replicate_succ, delays, delays, List.cons.injEq, List.forall_mem_cons]
    cases e with
    | false => exact and_congr (iff_of_true rfl rfl) (ih (k + 1))
    | true =>
      refine iff_of_false (fun h => ?_) (fun h => nomatch h.1)
      -- the streak goes on where it should start anew
      exact absurd h.1 (Nat.ne_of_gt (nominal_one_lt hbase hcap))

/-- From the start, the first failure may be of either kind. -/
theorem delays_eq_unreset_iff (hbase : 0 < base) (hcap : base < cap) (es : List Bool) :
    delays base cap 0 (List.replicate es.length false) = delays base cap 0 es ↔
      ∀ e ∈ es.tail, e = false := by
  cases es with
  | nil => exact iff_of_true rfl fun _ h => absurd h List.not_mem_nil
  | cons e es =>
    have hone : failures 0 e = 1 := by cases e <;> rfl
    rw [List.length_cons, List.replicate_succ, delays, delays, hone, List.cons.injEq, List.tail_cons]
    exact (and_iff_right rfl).trans (delays_succ_eq_unreset_iff hbase hcap es 0)

end RtsPipeline.Lib.BackOff
