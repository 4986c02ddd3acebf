/-
  A flag that another thread sets once and never clears, as the thread that polls it sees it.

  All a polling thread learns is what its own loads return: `false` for some number of loads, or for
  all of them, and `true` from then on.  A `Flag` is that number, so one quantifier over it ranges
  over every moment at which the flag may be set.

  `SetWithin k` says that one of the next `k` loads returns `true`; `setWithin_add` splits it over
  two stretches of code.
-/
import Mathlib.Order.Basic

namespace RtsPipeline.Lib

/-- How many loads still return `false`; `none` when the flag is never set. -/
structure Flag where
  quiet : Option Nat
deriving DecidableEq, Repr

namespace Flag

/-- The flag that is never set. -/
def never : Flag := ⟨none⟩

/-- What the next load returns. -/
def isSet (f : Flag) : Bool := decide (f.quiet = some 0)

/-- The flag after `k` loads. -/
def after (f : Flag) (k : Nat) : Flag := ⟨f.quiet.map (· - k)⟩

/-- The flag after one load. -/
def next (f : Flag) : Flag := f.after 1

/-- One of the next `k` loads returns `true`. -/
def SetWithin (f : Flag) (k : Nat) : Prop := ∃ j ∈ f.quiet, j < k

instance (f : Flag) (k : Nat) : Decidable (f.SetWithin k) :=
  match h : f.quiet with
  | none => .isFalse (by rintro ⟨j, hj, _⟩; rw [h] at hj; exact nomatch hj)
  | some j => decidable_of_iff (j < k)
      ⟨fun hlt => ⟨j, h, hlt⟩, fun ⟨i, hi, hlt⟩ => Option.some.inj (h.symm.trans hi) ▸ hlt⟩

theorem isSet_iff {f : Flag} : f.isSet = true ↔ f.quiet = some 0 := decide_eq_true_iff

@[simp] theorem after_zero (f : Flag) : f.after 0 = f := by
  obtain ⟨_ | j⟩ := f <;> rfl

theorem after_after (f : Flag) (j k : Nat) : (f.after j).after k = f.after (j + k) := by
  obtain ⟨_ | i⟩ := f
  · rfl
  · show Flag.mk (some (i - j - k)) = Flag.mk (some (i - (j + k)))
    rw [Nat.sub_sub]

theorem next_after (f : Flag) (k : Nat) : f.next.after k = f.after (k + 1) := by
  rw [next, after_after, Nat.add_comm]

@[simp] theorem isSet_never : never.isSet = false := rfl

@[simp] theorem not_setWithin_zero (f : Flag) : ¬ f.SetWithin 0 := by
  rintro ⟨j, _, hj⟩
  exact Nat.not_lt_zero j hj

@[simp] theorem not_setWithin_never (k : Nat) : ¬ never.SetWithin k := by
  rintro ⟨j, hj, _⟩
  exact nomatch hj

theorem setWithin_one {f : Flag} : f.SetWithin 1 ↔ f.isSet = true := by
  rw [isSet_iff]
  constructor
  · rintro ⟨j, hj, hlt⟩
    obtain rfl := Nat.lt_one_iff.mp hlt
    exact hj
  · exact fun h => ⟨0, h, Nat.one_pos⟩

theorem SetWithin.mono {f : Flag} {j k : Nat} (h : f.SetWithin j) (hjk : j ≤ k) :
    f.SetWithin k := by
  obtain ⟨i, hi, hlt⟩ := h
  exact ⟨i, hi, Nat.lt_of_lt_of_le hlt hjk⟩

/-- Two stretches of code, one after the other. -/
theorem setWithin_add {f : Flag} {j k : Nat} :
    f.SetWithin (j + k) ↔ f.SetWithin j ∨ (f.after j).SetWithin k := by
  constructor
  · rintro ⟨i, hi, hlt⟩
    by_cases hj : i < j
    · exact Or.inl ⟨i, hi, hj⟩
    · refine Or.inr ⟨i - j, ?_, by omega⟩
      rw [after, Option.mem_def.mp hi]
      rfl
  · rintro (h | ⟨i, hi, hlt⟩)
    · exact h.mono (Nat.le_add_right j k)
    · obtain ⟨l, hl, rfl⟩ := Option.map_eq_some_iff.mp hi
      exact ⟨l, hl, by omega⟩

theorem setWithin_succ {f : Flag} {k : Nat} :
    f.SetWithin (k + 1) ↔ f.isSet = true ∨ f.next.SetWithin k := by
  rw [Nat.add_comm, setWithin_add, setWithin_one, next]

/-- A load, a stretch of code, and another load. -/
theorem setWithin_around {f : Flag} {k : Nat} :
    f.SetWithin (k + 2) ↔
      f.isSet = true ∨ (f.after 1).SetWithin k ∨ ((f.after 1).after k).isSet = true := by
  rw [show k + 2 = 1 + (k + 1) from Nat.add_comm _ 1, setWithin_add, setWithin_one, setWithin_add,
    setWithin_one]

/-- Once a load has returned `true`, all later ones do. -/
theorem SetWithin.isSet_after {f : Flag} {k : Nat} (h : f.SetWithin k) :
    (f.after k).isSet = true := by
  obtain ⟨j, hj, hlt⟩ := h
  rw [isSet_iff, after, Option.mem_def.mp hj]
  show some (j - k) = some 0
  rw [Nat.sub_eq_zero_of_le (Nat.le_of_lt hlt)]

theorem isSet_next {f : Flag} (h : f.isSet = true) : f.next.isSet = true :=
  (setWithin_one.mpr h).isSet_after

/-- Of two more loads the second tells. -/
theorem setWithin_two_more {f : Flag} {k : Nat} (h : ¬ f.SetWithin k) :
    f.SetWithin (k + 2) ↔ (f.after (k + 1)).isSet = true := by
  have hnext : f.after (k + 1) = (f.after k).next := by rw [next, after_after]
  rw [setWithin_add, or_iff_right h, setWithin_succ, setWithin_one, hnext]
  exact ⟨fun hs => hs.elim isSet_next id, Or.inr⟩

end Flag

end RtsPipeline.Lib
