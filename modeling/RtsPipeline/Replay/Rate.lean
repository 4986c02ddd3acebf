/-
  `Rate` of `rts-replay/src/play.rs`: what a replay is sped up by, and what that makes of its
  cadence.

  A rate is read from a text as an `f64`, and the offset of an event, also as an `f64`, is divided
  by it and cut off to whole nanoseconds.  Both roundings are in the model.

  1. `Rate.parse` and `Rate.scaledNs` — the code.
  2. `parse_whole`, `scaledNs_whole` — at `10x`, an offset is divided by ten exactly.
  3. `scaledNs_bounds` — at any rate, nearly.
  4. `sent_at_whole_rate`, `replay_at_rate` — the cadence of a fixture that is replayed at a rate.
-/
import Mathlib.Data.Nat.Cast.Order.Field
import RtsPipeline.Lib.Decimal
import RtsPipeline.Replay.Pace

namespace RtsPipeline.Replay

open Lib

/-! ## Rates

A rate is a positive `f64`, or no pauses at all.  `Multiplier` has the positivity in a field, as
`Rate::parse` refuses everything else. -/

/-- What a rate may divide by: `parse` lets nothing else through. -/
structure Multiplier where
  value : ℚ
  positive : 0 < value
deriving DecidableEq

/-- `Rate`. -/
inductive Rate
  | multiplier (m : Multiplier)
  | max
deriving DecidableEq

/-- `ParseRateError`. -/
structure ParseRateError where
  text : Text
deriving DecidableEq

/-- Its message. -/
def ParseRateError.message (e : ParseRateError) : Text := "invalid rate: ".toList ++ e.text

namespace Rate

/-- Without an `x` at its end. -/
def stripped (s : Text) : Text :=
  if s.getLast? = some 'x' ∨ s.getLast? = some 'X' then s.dropLast else s

/-- `Rate::parse`. -/
def parse (s : Text) : Except ParseRateError Rate :=
  if eqIgnoreAsciiCase s "max".toList then .ok .max
  else
    match Binary64.ofText? (stripped s) with
    | some (.finite x) => if h : 0 < x then .ok (.multiplier ⟨x, h⟩) else .error ⟨s⟩
    | _ => .error ⟨s⟩

/-- `scaled_ns`. -/
def scaledNs (rate : Rate) (offsetNs : Nat) : Nat :=
  match rate with
  | max => 0
  | multiplier m =>
    let v := (Binary64.ofRat offsetNs).divPos m.value
    if v.isFinite && v.isNonneg then v.toNatUpTo (UInt64.size - 1) else 0

end Rate

/-- `parse_rate` of the command line. -/
def parseRate (raw : Text) : Except Text Rate := (Rate.parse raw).mapError ParseRateError.message

/-! ## A whole number, with an x

A numeral is read as the double next to its value, so below `2 ^ 53` a whole number is read as
itself.  An `x` is not a digit and not a letter of any word that is looked for, so only the end of
the text decides about it. -/

/-- **A whole number with an x** is read as what it says. -/
theorem Rate.parse_whole {n : Nat} (hn : 0 < n) (small : n < 2 ^ 53) :
    Rate.parse (Nat.toDigits 10 n ++ ['x']) = .ok (.multiplier ⟨n, Rat.natCast_pos.mpr hn⟩) := by
  have hdigits : ∀ c ∈ Nat.toDigits 10 n, c.isDigit = true :=
    fun _ hc => Nat.isDigit_of_mem_toDigits (by decide) (by decide) hc
  have hne : Nat.toDigits 10 n ≠ [] := Nat.toDigits_ne_nil
  have hmax : eqIgnoreAsciiCase (Nat.toDigits 10 n ++ ['x']) "max".toList = false := by
    obtain ⟨d, rest, heq⟩ := List.exists_cons_of_ne_nil hne
    rw [heq] at hdigits ⊢
    refine beq_false_of_ne fun hmap => ?_
    exact (digit_facts (hdigits d List.mem_cons_self)).2.2.2 (List.cons.inj hmap).1
  have hstripped : stripped (Nat.toDigits 10 n ++ ['x']) = Nat.toDigits 10 n := by
    rw [stripped, if_pos (Or.inl List.getLast?_concat), List.dropLast_concat]
  have hpos : (0 : ℚ) < n := Rat.natCast_pos.mpr hn
  rw [parse, hmax, hstripped, Binary64.ofText?_digits hne hdigits, Nat.ofDigitChars_ten_toDigits,
    Binary64.ofRat_natCast small]
  simp only [Bool.false_eq_true, if_false, dif_pos hpos]

theorem parseRate_whole {n : Nat} (hn : 0 < n) (small : n < 2 ^ 53) :
    parseRate (Nat.toDigits 10 n ++ ['x']) = .ok (.multiplier ⟨n, Rat.natCast_pos.mpr hn⟩) := by
  rw [parseRate, Rate.parse_whole hn small]
  rfl

/-! ## What is left of an offset

There are two roundings, of the offset and of the quotient.  Below `2 ^ 53` nanoseconds, which is
104 days, the first one changes nothing.  The second is off by one part in `2 ^ 53` of the quotient;
then the quotient is cut off, which costs less than a nanosecond.  If the rate is a whole number the
error of the second is too small to reach the next whole number, so cutting off removes it. -/

section Scaled

variable {m : Multiplier} {offsetNs : Nat}

/-- Below `2 ^ 53`, only the quotient is rounded. -/
theorem Rate.scaledNs_eq (hoff : offsetNs < 2 ^ 53) (bound : Nat) (hbound : bound < UInt64.size)
    (hfit : binary64.round (offsetNs / m.value) ≤ bound) :
    (multiplier m).scaledNs offsetNs = ⌊binary64.round (offsetNs / m.value)⌋.toNat := by
  have hquot : (0 : ℚ) ≤ offsetNs / m.value := div_nonneg (Nat.cast_nonneg _) m.positive.le
  have hround := binary64.round_nonneg hquot
  have hlimit : binary64.round ((offsetNs : ℚ) / m.value) < 2 ^ 1024 := by
    have hsize : (bound : ℚ) < 2 ^ 64 := by exact_mod_cast hbound
    exact hfit.trans_lt (hsize.trans_le (pow_le_pow_right₀ one_le_two (by decide)))
  have hfloor : ⌊binary64.round ((offsetNs : ℚ) / m.value)⌋.toNat ≤ UInt64.size - 1 := by
    have hle : ⌊binary64.round ((offsetNs : ℚ) / m.value)⌋ ≤ bound := by
      have := Int.floor_le_floor hfit
      rwa [Int.floor_natCast] at this
    omega
  simp only [scaledNs, Binary64.ofRat_natCast hoff, Binary64.divPos,
    Binary64.ofRat_of_nonneg hquot hlimit, Binary64.isFinite, Binary64.isNonneg,
    decide_eq_true hround, Bool.and_self, if_true, Binary64.toNatUpTo, min_eq_left hfloor]

/-- A quotient of at least a half has all its digits. -/
theorem abs_round_quot_sub_le {q : ℚ} (h : 1 / 2 ≤ q) : |binary64.round q - q| ≤ q / 2 ^ 53 := by
  refine binary64.abs_round_sub_le_self (le_trans ?_ h)
  have hpow : (2 : ℚ) ^ (binary64.low + binary64.prec) ≤ 2 ^ (-1 : ℤ) :=
    zpow_le_zpow_right₀ one_le_two (by decide)
  exact hpow.trans_eq (by rw [zpow_neg_one, one_div])

/-- A smaller one is nothing. -/
theorem round_quot_le_half {q : ℚ} (hq : 0 ≤ q) (h : q < 1 / 2) : binary64.round q ≤ 1 / 2 := by
  have hhalf : binary64.round ((1 : Nat) * 2 ^ (-1 : ℤ) : ℚ) = (1 : Nat) * 2 ^ (-1 : ℤ) :=
    binary64.round_exact (by decide) (by decide)
  rw [Nat.cast_one, one_mul, zpow_neg_one, ← one_div] at hhalf
  rw [← hhalf]
  exact binary64.round_mono hq h.le

/-- **A whole number** divides an offset exactly. -/
theorem Rate.scaledNs_whole {n : Nat} (hm : m.value = n) (hoff : offsetNs < 2 ^ 53) :
    (multiplier m).scaledNs offsetNs = offsetNs / n := by
  have hn : 0 < n := by
    have := m.positive
    rw [hm] at this
    exact Nat.cast_pos.mp this
  have hnq : (0 : ℚ) < n := Nat.cast_pos.mpr hn
  have hquot : (0 : ℚ) ≤ offsetNs / n := div_nonneg (Nat.cast_nonneg _) hnq.le
  have hdown : ((offsetNs / n : Nat) : ℚ) ≤ offsetNs / n := Nat.cast_div_le
  have hup : (offsetNs / n : ℚ) + 1 / n ≤ (offsetNs / n : Nat) + 1 := by
    rw [← add_div, div_le_iff₀ hnq]
    exact_mod_cast Nat.lt_mul_of_div_lt (Nat.lt_succ_self _) hn
  have hsmall : offsetNs / n < 2 ^ 53 := lt_of_le_of_lt (Nat.div_le_self _ _) hoff
  -- the whole part is kept
  have hlow : ((offsetNs / n : Nat) : ℚ) ≤ binary64.round ((offsetNs : ℚ) / n) := by
    rw [← binary64.round_natCast (K := ℚ) hsmall (by decide)]
    exact binary64.round_mono (Nat.cast_nonneg _) hdown
  -- and the rounding does not reach the next number
  have hhigh : binary64.round ((offsetNs : ℚ) / n) < (offsetNs / n : Nat) + 1 := by
    rcases lt_or_ge ((offsetNs : ℚ) / n) (1 / 2) with hhalf | hhalf
    · have := round_quot_le_half hquot hhalf
      have : (0 : ℚ) ≤ (offsetNs / n : Nat) := Nat.cast_nonneg _
      linarith
    · have herror := (abs_le.mp (abs_round_quot_sub_le hhalf)).2
      have hless : (offsetNs : ℚ) / n / 2 ^ 53 < 1 / n := by
        rw [div_div, mul_comm, ← div_div]
        refine div_lt_div_of_pos_right ?_ hnq
        rw [div_lt_one (by norm_num)]
        exact_mod_cast hoff
      linarith
  have hfloor : ⌊binary64.round ((offsetNs : ℚ) / n)⌋ = (offsetNs / n : Nat) :=
    Int.floor_eq_iff.mpr ⟨hlow, hhigh⟩
  have hsize : 2 ^ 53 < UInt64.size := by decide
  have hfit : binary64.round ((offsetNs : ℚ) / m.value) ≤ (offsetNs / n + 1 : Nat) := by
    rw [hm]
    exact_mod_cast hhigh.le
  rw [scaledNs_eq hoff _ (by omega) hfit, hm, hfloor, Int.toNat_natCast]

/-- What a pass of less than 292 years leaves of an offset is in range. -/
theorem Rate.round_quot_le (hlong : (offsetNs : ℚ) ≤ 2 ^ 63 * m.value) :
    binary64.round (offsetNs / m.value) ≤ (2 ^ 63 : Nat) := by
  have hquot : (0 : ℚ) ≤ offsetNs / m.value := div_nonneg (Nat.cast_nonneg _) m.positive.le
  have hkept : binary64.round ((1 : Nat) * 2 ^ (63 : ℤ) : ℚ) = (1 : Nat) * 2 ^ (63 : ℤ) :=
    binary64.round_exact (by decide) (by decide)
  have hpow : ((2 ^ 63 : Nat) : ℚ) = (1 : Nat) * 2 ^ (63 : ℤ) := by norm_num
  rw [hpow, ← hkept]
  refine binary64.round_mono hquot ?_
  rw [← hpow, div_le_iff₀ m.positive]
  exact_mod_cast hlong

/-- Later events are due no earlier. -/
theorem Rate.scaledNs_mono {earlier : Nat} (h : earlier ≤ offsetNs) (hoff : offsetNs < 2 ^ 53)
    (hlong : (offsetNs : ℚ) ≤ 2 ^ 63 * m.value) :
    (multiplier m).scaledNs earlier ≤ (multiplier m).scaledNs offsetNs := by
  have hcast : (earlier : ℚ) ≤ offsetNs := Nat.cast_le.mpr h
  have hsize : 2 ^ 63 < UInt64.size := by decide
  rw [scaledNs_eq (h.trans_lt hoff) _ hsize (round_quot_le (hcast.trans hlong)),
    scaledNs_eq hoff _ hsize (round_quot_le hlong)]
  refine Int.toNat_le_toNat (Int.floor_le_floor (binary64.round_mono ?_ ?_))
  · exact div_nonneg (Nat.cast_nonneg _) m.positive.le
  · exact div_le_div_of_nonneg_right hcast m.positive.le

/-- **At any rate**, an offset is divided but for less than a nanosecond and one part in `2 ^ 53`.
    The quotient is rounded once, and then cut to whole nanoseconds. -/
theorem Rate.scaledNs_bounds (hoff : offsetNs < 2 ^ 53)
    (hlong : (offsetNs : ℚ) ≤ 2 ^ 63 * m.value) :
    offsetNs / m.value * (1 - 1 / 2 ^ 53) - 1 < (multiplier m).scaledNs offsetNs ∧
      ((multiplier m).scaledNs offsetNs : ℚ) ≤ offsetNs / m.value * (1 + 1 / 2 ^ 53) := by
  have hsize : 2 ^ 63 < UInt64.size := by decide
  rw [scaledNs_eq hoff _ hsize (round_quot_le hlong)]
  generalize hq : (offsetNs : ℚ) / m.value = q
  have hquot : 0 ≤ q := hq ▸ div_nonneg (Nat.cast_nonneg _) m.positive.le
  have hpos := binary64.round_nonneg hquot
  have hcast : ((⌊binary64.round q⌋.toNat : Nat) : ℚ) = ⌊binary64.round q⌋ := by
    exact_mod_cast Int.toNat_of_nonneg (Int.floor_nonneg.mpr hpos)
  have hfloor := Int.floor_le (binary64.round q)
  have hnext := Int.lt_floor_add_one (binary64.round q)
  rw [hcast]
  rcases lt_or_ge q (1 / 2) with hhalf | hhalf
  · -- less than a nanosecond is cut off
    have hzero : ⌊binary64.round q⌋ = 0 :=
      Int.floor_eq_zero_iff.mpr ⟨hpos, (round_quot_le_half hquot hhalf).trans_lt (by norm_num)⟩
    rw [hzero, Int.cast_zero]
    exact ⟨by linarith, by linarith⟩
  · obtain ⟨hbelow, habove⟩ := abs_le.mp (abs_round_quot_sub_le hhalf)
    exact ⟨by linarith, by linarith⟩

end Scaled

/-! ## The cadence of a replay at a rate

The cadence was shown for any scale (`Replay.Cadence`), with the time that a pass reaches in place
of the time of its last item, since a fixture out of order reaches further than it ends.  In order,
the two are the same.  A scale keeps the order if rounding does, and it does. -/

namespace Player

/-- When an item was received, counted from the first. -/
def gap (events : List RecordedEvent) (i : Nat) : Nat :=
  (events[i]?.map RecordedEvent.recvNs).getD 0 - (events.head?.map RecordedEvent.recvNs).getD 0

theorem reach_le {scaled : Nat → Nat} {events : List RecordedEvent} {bound : Nat} :
    ∀ {i : Nat}, (∀ j < i, offset scaled events j ≤ bound) → reach scaled events i ≤ bound
  | 0, _ => Nat.zero_le _
  | i + 1, h =>
    Nat.max_le.mpr ⟨reach_le fun j hj => h j (Nat.lt_succ_of_lt hj), h i (Nat.lt_succ_self i)⟩

/-- In a fixture that is in order, an item waits for its own time only. -/
theorem reach_ordered {scaled : Nat → Nat} {events : List RecordedEvent} {i : Nat}
    (h : ∀ j ≤ i, offset scaled events j ≤ offset scaled events i) :
    reach scaled events (i + 1) = offset scaled events i :=
  Nat.max_eq_right (reach_le fun j hj => h j (Nat.le_of_lt hj))

theorem gap_mono {events : List RecordedEvent}
    (ordered : events.Pairwise fun a b => a.recvNs ≤ b.recvNs) {i j : Nat} (h : i ≤ j)
    (hj : j < events.length) : gap events i ≤ gap events j := by
  have hi : i < events.length := Nat.lt_of_le_of_lt h hj
  refine Nat.sub_le_sub_right ?_ _
  rw [List.getElem?_eq_getElem hi, List.getElem?_eq_getElem hj]
  rcases Nat.lt_or_eq_of_le h with hlt | rfl
  · exact List.pairwise_iff_getElem.mp ordered i j hi hj hlt
  · exact Nat.le_refl _

/-- **The cadence of a fixture that is in order**: what it is at any scale that keeps the order.
    With ordered offsets, the furthest item of a pass is its last one. -/
theorem sent_ordered {scaled : Nat → Nat} {events : List RecordedEvent} (hne : events ≠ [])
    (mono : ∀ i j, i ≤ j → j < events.length → offset scaled events i ≤ offset scaled events j)
    (late think : Nat) {ls : List (TimedEvent PlayEvent)} {s : Timed Player}
    (h : run (Timed.step (act scaled)) ⟨0, start events⟩ ls = some s) {k : Nat} {x : Nat × Text}
    (hk : s.state.sent[k]? = some x) :
    x.2 = frameAt events (k % events.length) ∧
    k / events.length * offset scaled events (events.length - 1) +
      offset scaled events (k % events.length) ≤ x.1 ∧
    (Throughout (Timed.step (act scaled)) (Punctual late think) ⟨0, start events⟩ ls →
      x.1 ≤ k / events.length *
          (offset scaled events (events.length - 1) + late + (events.length + 1) * think) +
        offset scaled events (k % events.length) + late + (k % events.length + 1) * think) := by
  have hpos := List.length_pos_of_ne_nil hne
  have hreach : ∀ i < events.length, reach scaled events (i + 1) = offset scaled events i :=
    fun i hi => reach_ordered fun j hj => mono j i hj hi
  have hitem := hreach _ (Nat.mod_lt k hpos)
  have hpass := hreach (events.length - 1) (by omega)
  rw [Nat.sub_add_cancel hpos] at hpass
  obtain ⟨hframe, hearly⟩ := (placed_run hne h).sent k x hk
  rw [hitem, hpass] at hearly
  refine ⟨hframe, hearly, fun hprompt => ?_⟩
  have hlate := (prompt_run hne h hprompt).sent k x hk
  rwa [period, hitem, hpass] at hlate

/-- **A replay at `nx`** divides the fixture's time by `n` exactly. -/
theorem sent_at_whole_rate {n : Nat} {m : Multiplier} (hm : m.value = n)
    {events : List RecordedEvent} (hne : events ≠ [])
    (ordered : events.Pairwise fun a b => a.recvNs ≤ b.recvNs)
    (brief : gap events (events.length - 1) < 2 ^ 53) (late think : Nat)
    {ls : List (TimedEvent PlayEvent)} {s : Timed Player}
    (h : run (Timed.step (act (Rate.multiplier m).scaledNs)) ⟨0, start events⟩ ls = some s)
    {k : Nat} {x : Nat × Text} (hk : s.state.sent[k]? = some x) :
    x.2 = frameAt events (k % events.length) ∧
    k / events.length * (gap events (events.length - 1) / n) +
      gap events (k % events.length) / n ≤ x.1 ∧
    (Throughout (Timed.step (act (Rate.multiplier m).scaledNs)) (Punctual late think)
        ⟨0, start events⟩ ls →
      x.1 ≤ k / events.length *
          (gap events (events.length - 1) / n + late + (events.length + 1) * think) +
        gap events (k % events.length) / n + late + (k % events.length + 1) * think) := by
  have hpos := List.length_pos_of_ne_nil hne
  -- at a whole rate every offset is divided exactly, and division keeps the order
  have hoff : ∀ i < events.length,
      offset (Rate.multiplier m).scaledNs events i = gap events i / n := fun i hi =>
    Rate.scaledNs_whole hm (Nat.lt_of_le_of_lt (gap_mono ordered (Nat.le_sub_one_of_lt hi)
      (Nat.sub_lt hpos Nat.zero_lt_one)) brief)
  have hmono : ∀ i j, i ≤ j → j < events.length →
      offset (Rate.multiplier m).scaledNs events i ≤
        offset (Rate.multiplier m).scaledNs events j := by
    intro i j hij hj
    rw [hoff i (Nat.lt_of_le_of_lt hij hj), hoff j hj]
    exact Nat.div_le_div_right (gap_mono ordered hij hj)
  have hsent := sent_ordered hne hmono late think h hk
  rwa [hoff _ (Nat.mod_lt k hpos), hoff _ (Nat.sub_lt hpos Nat.zero_lt_one)] at hsent

/-- **A replay at any rate.**  A fixture in order that spans less than 104 days is replayed at a
    rate at which a pass takes less than 292 years.  Every item sent is the fixture's next; it comes
    no earlier than its time divided by the rate, and in a prompt run no later than the consumer and
    one late sleep for each pass make it, but for a nanosecond and one part in `2 ^ 53` of the
    passes and of the item's own time.

    `sent_ordered` for any scale that keeps the order, and `Rate.scaledNs_bounds` for what the two
    roundings of one offset can take and add. -/
theorem replay_at_rate (m : Multiplier) (events : List RecordedEvent) (hne : events ≠ [])
    (ordered : events.Pairwise fun a b => a.recvNs ≤ b.recvNs)
    (brief : gap events (events.length - 1) < 2 ^ 53)
    (long : (gap events (events.length - 1) : ℚ) ≤ 2 ^ 63 * m.value) (late think : Nat)
    (ls : List (TimedEvent PlayEvent)) (s : Timed Player)
    (h : run (Timed.step (act (Rate.multiplier m).scaledNs)) ⟨0, start events⟩ ls = some s)
    (k : Nat) (x : Nat × Text) (hk : s.state.sent[k]? = some x) :
    let pass : ℚ := gap events (events.length - 1) / m.value
    let item : ℚ := gap events (k % events.length) / m.value
    x.2 = frameAt events (k % events.length) ∧
    (k / events.length : Nat) * (pass * (1 - 1 / 2 ^ 53) - 1) + (item * (1 - 1 / 2 ^ 53) - 1) <
      x.1 ∧
    (Throughout (Timed.step (act (Rate.multiplier m).scaledNs)) (Punctual late think)
        ⟨0, start events⟩ ls →
      x.1 ≤ (k / events.length : Nat) *
          (pass * (1 + 1 / 2 ^ 53) + late + (events.length + 1) * think) +
        item * (1 + 1 / 2 ^ 53) + late + (k % events.length + 1 : Nat) * think) := by
  intro pass item
  have hpos := List.length_pos_of_ne_nil hne
  have hlast : events.length - 1 < events.length := Nat.sub_lt hpos Nat.zero_lt_one
  -- every item comes before the last, so what is asked of the last holds of all
  have hgap : ∀ i < events.length, gap events i ≤ gap events (events.length - 1) := fun i hi =>
    gap_mono ordered (Nat.le_sub_one_of_lt hi) hlast
  have hlong : ∀ i < events.length, (gap events i : ℚ) ≤ 2 ^ 63 * m.value := fun i hi =>
    le_trans (Nat.cast_le.mpr (hgap i hi)) long
  have hmono : ∀ i j, i ≤ j → j < events.length →
      offset (Rate.multiplier m).scaledNs events i ≤
        offset (Rate.multiplier m).scaledNs events j := fun i j hij hj =>
    Rate.scaledNs_mono (gap_mono ordered hij hj) (Nat.lt_of_le_of_lt (hgap j hj) brief) (hlong j hj)
  -- the two errors of one item, and then those of all passes before it
  have hbounds : ∀ i < events.length,
      (gap events i : ℚ) / m.value * (1 - 1 / 2 ^ 53) - 1 <
          offset (Rate.multiplier m).scaledNs events i ∧
        (offset (Rate.multiplier m).scaledNs events i : ℚ) ≤
          gap events i / m.value * (1 + 1 / 2 ^ 53) := fun i hi =>
    Rate.scaledNs_bounds (Nat.lt_of_le_of_lt (hgap i hi) brief) (hlong i hi)
  obtain ⟨hlow, hhigh⟩ := hbounds _ (Nat.mod_lt k hpos)
  obtain ⟨hpassLow, hpassHigh⟩ := hbounds _ hlast
  obtain ⟨hframe, hearly, hprompt⟩ := sent_ordered hne hmono late think h hk
  have hpasses : (0 : ℚ) ≤ (k / events.length : Nat) := Nat.cast_nonneg _
  refine ⟨hframe, ?_, fun hthrough => ?_⟩
  · have hcast := (Nat.cast_le (α := ℚ)).mpr hearly
    rw [Nat.cast_add, Nat.cast_mul] at hcast
    refine lt_of_lt_of_le (add_lt_add_of_le_of_lt ?_ hlow) hcast
    exact mul_le_mul_of_nonneg_left hpassLow.le hpasses
  · have hcast := (Nat.cast_le (α := ℚ)).mpr (hprompt hthrough)
    push_cast at hcast ⊢
    refine hcast.trans ?_
    gcongr

/-- Two items ten apart, at two and a half times the pace; the second wakes one late. -/
theorem replay_at_rate_faster :
    let events : List RecordedEvent := [⟨100, "x".toList⟩, ⟨110, "y".toList⟩]
    let m : Multiplier := ⟨5 / 2, by norm_num⟩
    let step := Timed.step (act (Rate.multiplier m).scaledNs)
    let ls : List (TimedEvent PlayEvent) := [.act .poll, .act .poll, .elapse 5, .act .wake]
    ∃ s, Rate.parse "2.5x".toList = .ok (.multiplier m) ∧
      run step ⟨0, start events⟩ ls = some s ∧
      s.state.sent = [(0, frameAt events 0), (5, frameAt events 1)] ∧
      ∀ x, s.state.sent[1]? = some x → (x.1 : ℚ) ≤ 4 * (1 + 1 / 2 ^ 53) + 1 := by
  intro events m step ls
  obtain ⟨s, hs, hsent⟩ := Option.map_eq_some_iff.mp
    (show (run step ⟨0, start events⟩ ls).map (fun s => s.state.sent) =
      some [(0, frameAt events 0), (5, frameAt events 1)] from by decide +kernel)
  have hprompt : Throughout step (Punctual 1 0) ⟨0, start events⟩ ls := by decide +kernel
  refine ⟨s, by decide +kernel, hs, hsent, fun x hx => ?_⟩
  have hbound := (replay_at_rate m events (by simp [events]) (by decide) (by decide)
    (by decide +kernel) 1 0 ls s hs 1 x hx).2.2 hprompt
  have hgap : gap events 1 = 10 := rfl
  have hvalue : m.value = 5 / 2 := rfl
  have hlength : events.length = 2 := rfl
  rw [hlength, show (1 : Nat) / 2 = 0 by decide, show (1 : Nat) % 2 = 1 by decide, hgap, hvalue]
    at hbound
  norm_num at hbound ⊢
  exact hbound

end Player

end RtsPipeline.Replay
