/-
  The histograms of `hdrhistogram`, as far as the program uses them.

  A histogram is the list of the values it accepted.  `hdrhistogram` refuses values above the
  highest trackable one, and the code drops that error; `high` stands for that highest value.

  A quantile is a value the histogram reports: it keeps three significant figures of what was
  recorded.  `Hdr` stands for the part of the crate that decides which.  `Hdr.Ranks` says how the
  crate finds a quantile; `Hdr.Reports`, that it is one of the values, is all that many results
  need.
-/
import Mathlib.Data.List.Sort
import Mathlib.Data.UInt
import RtsPipeline.Lib.Rank

namespace RtsPipeline

open Lib

/-- `Histogram<u64>`: the recorded values. -/
structure Histogram where
  samples : List UInt64
deriving DecidableEq, Repr

namespace Histogram

/-- `Histogram::new_with_bounds`. -/
def empty : Histogram := { samples := [] }

/-- `let _ = histogram.record(v)`. -/
def record (high : UInt64) (h : Histogram) (v : UInt64) : Histogram :=
  if v ≤ high then { samples := h.samples ++ [v] } else h

/-- `let _ = histogram.add(other)`, of two histograms with the same bounds. -/
def add (h other : Histogram) : Histogram := { samples := h.samples ++ other.samples }

/-- `is_empty`. -/
def isEmpty (h : Histogram) : Bool := h.samples.isEmpty

/-- `len`, a `u64` in the crate. -/
def len (h : Histogram) : Nat := h.samples.length

/-- A recorded value was there or is the new one, which is in range then. -/
theorem mem_record {high v x : UInt64} {h : Histogram} (hx : x ∈ (h.record high v).samples) :
    x ∈ h.samples ∨ x = v ∧ v ≤ high := by
  unfold record at hx
  split at hx
  · rename_i hv
    rcases List.mem_append.mp hx with hx | hx
    · exact Or.inl hx
    · exact Or.inr ⟨List.mem_singleton.mp hx, hv⟩
  · exact Or.inl hx

end Histogram

/-- `u64::try_from(d.as_nanos()).unwrap_or(u64::MAX).max(1)`. -/
def nanos (d : Nat) : UInt64 :=
  if d < UInt64.size then max (UInt64.ofNat d) 1 else UInt64.ofNat (UInt64.size - 1)

/-- The quantiles the program asks for. -/
inductive Quantile
  | p50
  | p90
  | p99
  | p999
deriving DecidableEq, Repr

/-- The parts of `hdrhistogram` that are not in the repository. -/
structure Hdr where
  high : UInt64                                 -- the highest trackable value
  reported : UInt64 → UInt64                    -- what stands for a recorded value
  valueAtQuantile : Histogram → Quantile → UInt64

/-- `value_at_quantile` of a histogram that is not empty reports one of its values. -/
def Hdr.Reports (hdr : Hdr) : Prop :=
  ∀ (h : Histogram) (q : Quantile), h.samples ≠ [] →
    ∃ v ∈ h.samples, hdr.valueAtQuantile h q = hdr.reported v

/-- `value_at_quantile` counts the values from the smallest on and reports the one it stops at; how
    far it counts depends on their number only.  What is reported is monotone. -/
structure Hdr.Ranks (hdr : Hdr) : Prop where
  reported_mono : ∀ {v w : UInt64}, v ≤ w → hdr.reported v ≤ hdr.reported w
  ranked : ∀ q : Quantile, ∃ rank : Nat → Nat, ∀ h : Histogram, h.samples ≠ [] →
    ∃ v, IsRanked h.samples (rank h.len) v ∧ hdr.valueAtQuantile h q = hdr.reported v

theorem Hdr.Ranks.reports {hdr : Hdr} (hr : hdr.Ranks) : hdr.Reports := by
  intro h q hne
  obtain ⟨rank, hrank⟩ := hr.ranked q
  obtain ⟨v, hv, heq⟩ := hrank h hne
  exact ⟨v, hv.mem, heq⟩

/-- A quantile as a fraction. -/
def Quantile.fraction : Quantile → Nat × Nat
  | p50 => (50, 100)
  | p90 => (90, 100)
  | p99 => (99, 100)
  | p999 => (999, 1000)

/-- The highest value with the same eleven leading binary digits. -/
def highestEquivalent (v : UInt64) : UInt64 :=
  if v < 2048 then v else v ||| ((1 <<< (v.log2 - 10)) - 1)

/-- `new_with_bounds(1, 60_000_000_000, 3)`: eleven binary digits of a value are kept, and a
    quantile is the highest value equivalent to the sample of that rank. -/
def Hdr.program : Hdr where
  high := 68719476735
  reported := highestEquivalent
  valueAtQuantile h q :=
    let rank := (h.samples.length * q.fraction.1 + (q.fraction.2 - 1)) / q.fraction.2
    highestEquivalent ((h.samples.mergeSort fun a b => decide (a ≤ b)).getD (rank - 1) 0)

/-! ## The histograms of the program are monotone

`highestEquivalent` sets the low digits of a value to ones, so it maps an interval of values to its
upper end.  Of two values, either both are in one interval, or the intervals are apart and in order;
the number of digits kept grows with the value, so a longer value has its end further up. -/

/-- The digits that are not kept are all ones. -/
theorem toNat_highestEquivalent {v : UInt64} (h : 2048 ≤ v.toNat) :
    (highestEquivalent v).toNat = v.toNat ||| (2 ^ (v.toNat.log2 - 10) - 1) := by
  -- no step of the computation wraps around: the shift is by less than 64 and leaves at least one
  have hlt : v.toNat.log2 < 64 := (Nat.log2_lt (by omega)).mpr v.toNat_lt
  have hlog : v.log2.toNat = v.toNat.log2 := rfl
  have hten : 10 ≤ v.toNat.log2 := (Nat.le_log2 (by omega)).mpr (by omega)
  have hsub : (v.log2 - 10).toNat = v.toNat.log2 - 10 := by
    rw [UInt64.toNat_sub_of_le _ _ (UInt64.le_iff_toNat_le.mpr (hlog ▸ hten)), hlog]
    rfl
  have hpow : 2 ^ (v.toNat.log2 - 10) < 2 ^ 64 := Nat.pow_lt_pow_right (by decide) (by omega)
  have hshift : ((1 : UInt64) <<< (v.log2 - 10)).toNat = 2 ^ (v.toNat.log2 - 10) := by
    rw [UInt64.toNat_shiftLeft, hsub, Nat.mod_eq_of_lt (show v.toNat.log2 - 10 < 64 by omega),
      Nat.shiftLeft_eq]
    exact (congrArg (· % 2 ^ 64) (Nat.one_mul _)).trans (Nat.mod_eq_of_lt hpow)
  have hone : (1 : UInt64) ≤ 1 <<< (v.log2 - 10) := by
    rw [UInt64.le_iff_toNat_le, hshift]
    exact Nat.one_le_two_pow
  have hv : ¬ v < 2048 := fun hlow => Nat.not_lt.mpr h (UInt64.lt_iff_toNat_lt.mp hlow)
  rw [highestEquivalent, if_neg hv, UInt64.toNat_or, UInt64.toNat_sub_of_le _ _ hone, hshift]
  rfl

/-- Setting the low digits, arithmetically. -/
theorem or_two_pow_sub_one (x e : Nat) : x ||| (2 ^ e - 1) = 2 ^ e * (x / 2 ^ e) + (2 ^ e - 1) := by
  have hpos : 0 < 2 ^ e := Nat.two_pow_pos e
  have hmod : x % 2 ^ e < 2 ^ e := Nat.mod_lt x hpos
  have hlow : x % 2 ^ e ||| (2 ^ e - 1) = 2 ^ e - 1 := by
    refine Nat.le_antisymm ?_ Nat.right_le_or
    have := Nat.or_lt_two_pow hmod (show 2 ^ e - 1 < 2 ^ e by omega)
    omega
  have hx : x = 2 ^ e * (x / 2 ^ e) ||| x % 2 ^ e := by
    rw [← Nat.two_pow_add_eq_or_of_lt hmod, Nat.div_add_mod]
  rw [Nat.two_pow_add_eq_or_of_lt (by omega)]
  conv_lhs => rw [hx, Nat.or_assoc, hlow]

theorem le_highestEquivalent (v : UInt64) : v ≤ highestEquivalent v := by
  by_cases h : v < 2048
  · rw [highestEquivalent, if_pos h]; exact UInt64.le_refl _
  · have h' : 2048 ≤ v.toNat := UInt64.le_iff_toNat_le.mp (UInt64.not_lt.mp h)
    rw [UInt64.le_iff_toNat_le, toNat_highestEquivalent h']
    exact Nat.left_le_or

/-- What is reported is monotone. -/
theorem highestEquivalent_mono {v w : UInt64} (h : v ≤ w) :
    highestEquivalent v ≤ highestEquivalent w := by
  by_cases hv : v < 2048
  · rw [highestEquivalent, if_pos hv]
    exact UInt64.le_trans h (le_highestEquivalent w)
  · have hv' : 2048 ≤ v.toNat := UInt64.le_iff_toNat_le.mp (UInt64.not_lt.mp hv)
    have hvw : v.toNat ≤ w.toNat := UInt64.le_iff_toNat_le.mp h
    rw [UInt64.le_iff_toNat_le, toNat_highestEquivalent hv',
      toNat_highestEquivalent (Nat.le_trans hv' hvw)]
    by_cases hlog : v.toNat.log2 = w.toNat.log2
    · -- the same digits are kept of both
      rw [hlog, or_two_pow_sub_one, or_two_pow_sub_one]
      exact Nat.add_le_add_right (Nat.mul_le_mul_left _ (Nat.div_le_div_right hvw)) _
    -- a power of two lies between them, and setting digits does not reach it
    · have hlt : v.toNat < 2 ^ w.toNat.log2 := by
        refine (Nat.log2_lt (by omega)).mp ?_
        have : v.toNat.log2 ≤ w.toNat.log2 :=
          (Nat.le_log2 (by omega)).mpr (Nat.le_trans (Nat.log2_self_le (by omega)) hvw)
        omega
      have hpow : 2 ^ (v.toNat.log2 - 10) ≤ 2 ^ w.toNat.log2 := by
        refine Nat.pow_le_pow_right (by decide) ?_
        have := (Nat.log2_lt (n := v.toNat) (by omega)).mpr hlt
        omega
      have hpos := Nat.two_pow_pos (v.toNat.log2 - 10)
      have hor := Nat.or_lt_two_pow hlt
        (show 2 ^ (v.toNat.log2 - 10) - 1 < 2 ^ w.toNat.log2 by omega)
      have hw := Nat.log2_self_le (n := w.toNat) (by omega)
      have := Nat.left_le_or (n := w.toNat) (m := 2 ^ (w.toNat.log2 - 10) - 1)
      omega

/-- `Hdr.program` counts the recorded values from the smallest on, up to a rank that depends on
    their number only. -/
theorem Hdr.program_ranks : Hdr.program.Ranks where
  reported_mono := highestEquivalent_mono
  ranked := by
    intro q
    refine ⟨fun n => (n * q.fraction.1 + (q.fraction.2 - 1)) / q.fraction.2 - 1, ?_⟩
    intro h hne
    have hpos := List.length_pos_iff.mpr hne
    have hlt : (h.samples.length * q.fraction.1 + (q.fraction.2 - 1)) / q.fraction.2 - 1 <
        (h.samples.mergeSort fun a b => decide (a ≤ b)).length := by
      rw [List.length_mergeSort]
      cases q <;> simp only [Quantile.fraction] <;> omega
    have hsorted := List.pairwise_mergeSort' (· ≤ ·) h.samples
    refine ⟨_, (isRanked_of_sorted hsorted hlt).perm (List.mergeSort_perm _ _), ?_⟩
    show highestEquivalent (List.getD _ _ _) = highestEquivalent _
    rw [List.getD_eq_getElem?_getD, List.getElem?_eq_getElem hlt, Option.getD_some]

theorem Hdr.program_reports : Hdr.program.Reports := program_ranks.reports

end RtsPipeline
