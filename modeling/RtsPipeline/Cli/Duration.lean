/-
  `parse_duration` of `rts-cli/src/main.rs`, read over exact decimal values.

  An `f64` keeps its range here and not its rounding: a value is the exact one, or infinite where
  the nearest `f64` is.  A panic of `Duration::from_secs_f64` is `none`.

  The guard before that call asks for finite seconds that are not negative.  The call has one more
  condition, that the seconds fit in a `u64`, and the range of an `f64` is larger than that: a
  string whose exact seconds lie between the two bounds passes the guard and panics.

  1. `parseDuration` — the code, on any string.
  2. `scaled_unrounded` — what is handed to the guard: the exact seconds, or infinite.
  3. `parseDuration_returns_iff` — when it returns.
-/
import RtsPipeline.Core.Event
import RtsPipeline.Lib.Decimal

namespace RtsPipeline.Cli

open Lib

/-! ## Numbers

An `f64` is an exact value here until it is rounded, so that the guard's comparison can be read
over exact values. -/

/-- The `f64` of a number that is not negative, before it is rounded. -/
def unrounded (x : ℚ) : Binary64 := if (Binary64.ofRat x).isFinite then .finite x else .infinite false

/-- The product with a positive constant. -/
def scale (k : ℚ) : Binary64 → Binary64
  | .finite x => unrounded (x * k)
  | .infinite negative => .infinite negative
  | .nan => .nan

/-- `Duration::from_secs_f64`, in nanoseconds; `none` when it panics. -/
def fromSecsF64 (secs : ℚ) : Option Nat :=
  if 0 ≤ secs ∧ secs < 2 ^ 64 then some (nearestEven (secs * 10 ^ 9)).toNat else none

/-! ## `parse_duration`

The string is cut where its numeric prefix ends, and what follows is the unit.  Only the prefix is
parsed as a number, so there is neither a sign nor an exponent in it. -/

/-- `c.is_ascii_digit() || c == '.'`. -/
def isNumeric (c : Char) : Bool := c.isDigit || c = '.'

/-- The part before `unit_start`. -/
def number (raw : Text) : Text := raw.takeWhile isNumeric

/-- The part from `unit_start` on. -/
def unit (raw : Text) : Text := raw.dropWhile isNumeric

/-- The seconds of a value in a unit. -/
def scaled (unit : Text) (value : Binary64) : Option Binary64 :=
  match unit with
  | [] => some value
  | ['s'] => some value
  | ['m', 's'] => some (scale (1 / 1000) value)
  | ['m'] => some (scale 60 value)
  | ['h'] => some (scale 3600 value)
  | _ => none

/-- `format!("invalid duration: {raw}")`. -/
def invalidDuration (raw : Text) : Text := "invalid duration: ".toList ++ raw

/-- `format!("unknown duration unit: {other}")`. -/
def unknownUnit (other : Text) : Text := "unknown duration unit: ".toList ++ other

/-- `parse_duration`; `none` when it panics. -/
def parseDuration (raw : Text) : Option (Except Text Nat) :=
  if number raw = [] then some (.error (invalidDuration raw))
  else
    match (mantissa? (number raw)).map unrounded with
    | none => some (.error (invalidDuration raw))
    | some value =>
      match scaled (unit raw) value with
      | none => some (.error (unknownUnit (unit raw)))
      | some (.finite secs) =>
        if secs < 0 then some (.error (invalidDuration raw)) else (fromSecsF64 secs).map .ok
      | some _ => some (.error (invalidDuration raw))

/-! ## When it returns

The guard keeps out what is not finite or negative, and `Duration::from_secs_f64` panics on what is
too large for a `u64` of seconds.  The theorem says which strings come to that. -/

/-- The seconds in a unit. -/
def unitSeconds (unit : Text) : Option ℚ :=
  match unit with
  | [] => some 1
  | ['s'] => some 1
  | ['m', 's'] => some (1 / 1000)
  | ['m'] => some 60
  | ['h'] => some 3600
  | _ => none

/-- The value or its seconds are beyond the range of an `f64`. -/
def Overflows (value secs : ℚ) : Prop := Binary64.limit ≤ value ∨ Binary64.limit ≤ secs

theorem unrounded_of_nonneg {x : ℚ} (h : 0 ≤ x) :
    unrounded x = if x < Binary64.limit then .finite x else .infinite false := by
  simp only [unrounded, Binary64.ofRat_isFinite_iff h]

/-- A product is exact within the range. -/
theorem scale_unrounded {k v : ℚ} (hk : 0 ≤ k) (hv : 0 ≤ v) :
    scale k (unrounded v) =
      if v < Binary64.limit ∧ v * k < Binary64.limit then .finite (v * k) else .infinite false := by
  rw [unrounded_of_nonneg hv]
  by_cases hvalue : v < Binary64.limit
  · rw [if_pos hvalue, scale, unrounded_of_nonneg (mul_nonneg hv hk)]
    by_cases hsecs : v * k < Binary64.limit
    · rw [if_pos hsecs, if_pos ⟨hvalue, hsecs⟩]
    · rw [if_neg hsecs, if_neg fun h => hsecs h.2]
  · rw [if_neg hvalue, scale, if_neg fun h => hvalue h.1]

/-- **What the guard sees**: the exact seconds, unless they or the value overflow. -/
theorem scaled_unrounded (unit : Text) {v : ℚ} (hv : 0 ≤ v) :
    scaled unit (unrounded v) = (unitSeconds unit).map fun k =>
      if v < Binary64.limit ∧ v * k < Binary64.limit then .finite (v * k) else .infinite false := by
  have hone : unrounded v =
      if v < Binary64.limit ∧ v * 1 < Binary64.limit then .finite (v * 1) else .infinite false := by
    simp only [mul_one, and_self, unrounded_of_nonneg hv]
  unfold scaled unitSeconds
  split
  · exact congrArg some hone
  · exact congrArg some hone
  · exact congrArg some (scale_unrounded (by norm_num) hv)
  · exact congrArg some (scale_unrounded (by norm_num) hv)
  · exact congrArg some (scale_unrounded (by norm_num) hv)
  · rfl

/-- Behind the guard, the call returns exactly when the seconds fit in a `u64`. -/
theorem fromSecsF64_isSome {secs : ℚ} (h : 0 ≤ secs) :
    (fromSecsF64 secs).isSome = true ↔ secs < 2 ^ 64 := by
  unfold fromSecsF64
  split
  · rename_i hfits
    exact iff_of_true rfl hfits.2
  · rename_i hover
    exact iff_of_false Bool.false_ne_true fun hlt => hover ⟨h, hlt⟩

/-- **`parse_duration` returns**, for every string, exactly when its numeric prefix is no numeral,
    its unit is unknown, or the seconds it stands for are below `2^64` or not finite as an `f64`.

    What the guard sees are the exact seconds as long as they are in the range of an `f64`, so it
    lets through what is finite; of that, `from_secs_f64` takes what is below `2^64`. -/
theorem parseDuration_returns_iff (raw : Text) :
    (parseDuration raw).isSome = true ↔
      ∀ v k, mantissa? (number raw) = some v → unitSeconds (unit raw) = some k →
        v * k < 2 ^ 64 ∨ Overflows v (v * k) := by
  unfold parseDuration
  -- what is no number, or has no unit, is an error and no panic
  by_cases hnum : number raw = []
  · rw [if_pos hnum, hnum]
    exact iff_of_true rfl fun v k hv => nomatch hv
  rw [if_neg hnum]
  cases hv : mantissa? (number raw) with
  | none => exact iff_of_true rfl fun v k h => nomatch h
  | some v =>
    have hnonneg : 0 ≤ v := mantissa?_nonneg hv
    simp only [Option.map_some, scaled_unrounded _ hnonneg]
    cases hk : unitSeconds (unit raw) with
    | none => exact iff_of_true rfl fun v k _ h => nomatch h
    | some k =>
      -- from here on there is one value and one unit
      have hall : (∀ v' k', some v = some v' → some k = some k' →
          v' * k' < 2 ^ 64 ∨ Overflows v' (v' * k')) ↔ v * k < 2 ^ 64 ∨ Overflows v (v * k) :=
        ⟨fun h => h v k rfl rfl, fun h _ _ he he' => Option.some.inj he ▸ Option.some.inj he' ▸ h⟩
      rw [hall, Option.map_some]
      -- the guard tests for a finite product; what passes it may still be too long
      by_cases hfin : v < Binary64.limit ∧ v * k < Binary64.limit
      · have hno : ¬ Overflows v (v * k) := fun h =>
          h.elim (not_le_of_gt hfin.1) (not_le_of_gt hfin.2)
        rw [if_pos hfin, or_iff_left hno]
        by_cases hneg : v * k < 0
        · refine iff_of_true ?_ (lt_trans hneg (by norm_num))
          simp only [if_pos hneg, Option.isSome_some]
        · simp only [if_neg hneg]
          rw [Option.isSome_map]
          exact fromSecsF64_isSome (not_lt.mp hneg)
      · rw [if_neg hfin]
        refine iff_of_true rfl (Or.inr ?_)
        rcases not_and_or.mp hfin with h | h
        · exact Or.inl (not_lt.mp h)
        · exact Or.inr (not_lt.mp h)

/-- Twenty digits of seconds. -/
theorem parseDuration_panics : parseDuration "20000000000000000000".toList = none := by
  decide +kernel

end RtsPipeline.Cli
