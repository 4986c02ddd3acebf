/-
  Binary floating-point numbers, over exact rationals.

  A format keeps `prec` binary digits of a number and none below `2 ^ low`.  Rounding goes to the
  nearest number of the format, and of two to the one with an even last digit.  Here are only
  numbers that are not negative: the sign of a number plays no part in how it is rounded.

  1. `nearestEven` — the nearest integer, and of two the even one.
  2. `Format.round` — the same at the last place that the format keeps of a number.
  3. `Format.round_mono`, `Format.round_exact`, `Format.abs_round_sub_le` — rounding keeps the order
     and the numbers of the format, and is off by half a last place at most.
  4. `Binary64` — the double precision numbers; `ofRat_isFinite_iff`, infinite from their limit on.
-/
import Mathlib.Algebra.Order.Field.Power
import Mathlib.Algebra.Order.Floor.Ring
import Mathlib.Data.Int.Log
import Mathlib.Data.Rat.Floor
import Mathlib.Tactic.Linarith

namespace RtsPipeline.Lib

universe u

section Nearest

variable {K : Type u} [Field K] [LinearOrder K] [FloorRing K]

/-! ## The nearest integer

It is the floor or the number after it, and the fraction decides.  Between two integers the order is
kept because the fraction grows; across an integer, because that integer is kept. -/

/-- The nearest integer, and of two the even one. -/
def nearestEven (x : K) : ℤ :=
  if Int.fract x < 1 / 2 ∨ Int.fract x = 1 / 2 ∧ ⌊x⌋ % 2 = 0 then ⌊x⌋ else ⌊x⌋ + 1

theorem floor_le_nearestEven (x : K) : ⌊x⌋ ≤ nearestEven x := by
  unfold nearestEven
  split
  · exact le_refl _
  · exact (lt_add_one _).le

theorem nearestEven_le_floor_add_one (x : K) : nearestEven x ≤ ⌊x⌋ + 1 := by
  unfold nearestEven
  split
  · exact (lt_add_one _).le
  · exact le_refl _

variable [IsStrictOrderedRing K]

theorem nearestEven_intCast (n : ℤ) : nearestEven (n : K) = n := by
  have hfract : Int.fract (n : K) < 1 / 2 := by
    rw [Int.fract_intCast]
    exact one_half_pos
  rw [nearestEven, if_pos (Or.inl hfract), Int.floor_intCast]

theorem nearestEven_mono {x y : K} (h : x ≤ y) : nearestEven x ≤ nearestEven y := by
  rcases (Int.floor_le_floor h).lt_or_eq with hlt | heq
  · exact (nearestEven_le_floor_add_one x).trans (hlt.trans_le (floor_le_nearestEven y))
  -- between the same two integers, the fractions decide
  have hfract : Int.fract x ≤ Int.fract y := by
    rw [Int.fract, Int.fract, heq]
    exact sub_le_sub_right h _
  by_cases hx : Int.fract x < 1 / 2 ∨ Int.fract x = 1 / 2 ∧ ⌊x⌋ % 2 = 0
  · rw [nearestEven, if_pos hx, heq]
    exact floor_le_nearestEven y
  · obtain ⟨hhalf, hodd⟩ := not_or.mp hx
    have hy : ¬ (Int.fract y < 1 / 2 ∨ Int.fract y = 1 / 2 ∧ ⌊y⌋ % 2 = 0) := by
      rintro (hlt | ⟨hy, heven⟩)
      · exact hhalf (hfract.trans_lt hlt)
      · refine hodd ⟨le_antisymm (hfract.trans hy.le) (not_lt.mp hhalf), ?_⟩
        rw [heq]
        exact heven
    rw [nearestEven, nearestEven, if_neg hx, if_neg hy, heq]

/-- The nearest integer is half a unit away at most. -/
theorem abs_nearestEven_sub_le (x : K) : |(nearestEven x : K) - x| ≤ 1 / 2 := by
  have hx : (⌊x⌋ : K) + Int.fract x = x := Int.floor_add_fract x
  have hlt := Int.fract_lt_one x
  have hpos := Int.fract_nonneg x
  unfold nearestEven
  split
  · rename_i hdown
    have hhalf : Int.fract x ≤ 1 / 2 := hdown.elim le_of_lt fun h => h.1.le
    rw [abs_le]
    exact ⟨by linarith, by linarith⟩
  · rename_i hup
    have hhalf : 1 / 2 ≤ Int.fract x := not_lt.mp fun h => hup (Or.inl h)
    rw [Int.cast_add, Int.cast_one, abs_le]
    exact ⟨by linarith, by linarith⟩

end Nearest

/-! ## Formats

A format is given by its precision and its smallest exponent; rounding is to the nearest multiple
of a power of two, and of two equally near ones to the even one. -/

/-- How many binary digits are kept of a number, and the least digit there is. -/
structure FloatFormat where
  prec : Nat
  low : ℤ
  positive : 0 < prec

namespace FloatFormat

variable {K : Type u} [Field K] [LinearOrder K] [FloorRing K]

/-- The place of the last digit that is kept of a number. -/
def lastPlace (f : FloatFormat) (x : K) : ℤ := max (Int.log 2 x + 1 - f.prec) f.low

/-- The nearest number of the format, and of two the one with an even last digit. -/
def round (f : FloatFormat) (x : K) : K :=
  nearestEven (x / 2 ^ f.lastPlace x) * 2 ^ f.lastPlace x

/-- A number with a digit at some place has a whole number of every lower place. -/
theorem multiple_of_le {j k : ℤ} (h : j ≤ k) (n : ℤ) :
    ∃ m : ℤ, (n : K) * 2 ^ k = m * 2 ^ j := by
  have hsub : ((k - j).toNat : ℤ) = k - j := Int.toNat_of_nonneg (sub_nonneg.mpr h)
  refine ⟨n * 2 ^ (k - j).toNat, ?_⟩
  rw [Int.cast_mul, Int.cast_pow, Int.cast_ofNat, mul_assoc, ← zpow_natCast (2 : K), hsub,
    ← zpow_add₀ two_ne_zero, sub_add_cancel]

variable [IsStrictOrderedRing K]

theorem two_zpow_pos (k : ℤ) : (0 : K) < 2 ^ k := zpow_pos two_pos k

theorem round_le_multiple (f : FloatFormat) {x : K} {n : ℤ} (h : x ≤ n * 2 ^ f.lastPlace x) :
    f.round x ≤ n * 2 ^ f.lastPlace x := by
  have hquot : x / 2 ^ f.lastPlace x ≤ n := (div_le_iff₀ (two_zpow_pos _)).mpr h
  have hround := nearestEven_mono hquot
  rw [nearestEven_intCast] at hround
  exact mul_le_mul_of_nonneg_right (Int.cast_le.mpr hround) (two_zpow_pos _).le

theorem multiple_le_round (f : FloatFormat) {x : K} {n : ℤ} (h : n * 2 ^ f.lastPlace x ≤ x) :
    n * 2 ^ f.lastPlace x ≤ f.round x := by
  have hquot : (n : K) ≤ x / 2 ^ f.lastPlace x := (le_div_iff₀ (two_zpow_pos _)).mpr h
  have hround := nearestEven_mono hquot
  rw [nearestEven_intCast] at hround
  exact mul_le_mul_of_nonneg_right (Int.cast_le.mpr hround) (two_zpow_pos _).le

/-! ## What rounding keeps

The last place depends on the number, so two numbers may be rounded at different places.  A multiple
of a place is a multiple of every lower one; so whatever lies between the two at the higher place is
kept by both, and a power of two does, when the places differ. -/

theorem round_nonneg (f : FloatFormat) {x : K} (h : 0 ≤ x) : 0 ≤ f.round x := by
  have hzero : ((0 : ℤ) : K) * 2 ^ f.lastPlace x ≤ x := by rwa [Int.cast_zero, zero_mul]
  have hround := f.multiple_le_round hzero
  rwa [Int.cast_zero, zero_mul] at hround

theorem lastPlace_mono (f : FloatFormat) {x y : K} (hx : 0 < x) (h : x ≤ y) :
    f.lastPlace x ≤ f.lastPlace y :=
  max_le_max (sub_le_sub_right (add_le_add_left (Int.log_mono_right hx h) 1) _) (le_refl _)

/-- Rounding keeps the order. -/
theorem round_mono (f : FloatFormat) {x y : K} (hx : 0 ≤ x) (h : x ≤ y) :
    f.round x ≤ f.round y := by
  rcases hx.eq_or_lt with rfl | hx
  · have hzero : f.round (0 : K) = 0 := by
      rw [round, zero_div, ← Int.cast_zero, nearestEven_intCast, Int.cast_zero, zero_mul]
    rw [hzero]
    exact f.round_nonneg h
  rcases (f.lastPlace_mono hx h).eq_or_lt with heq | hlt
  · have hquot : x / 2 ^ f.lastPlace x ≤ y / 2 ^ f.lastPlace y := by
      rw [heq]
      exact div_le_div_of_nonneg_right h (two_zpow_pos _).le
    rw [round, round, heq]
    rw [heq] at hquot
    exact mul_le_mul_of_nonneg_right (Int.cast_le.mpr (nearestEven_mono hquot))
      (two_zpow_pos _).le
  -- a power of two lies between them, and both places divide it
  have hy : 0 < y := hx.trans_le h
  have hlow : f.low ≤ f.lastPlace x := le_max_right _ _
  have hplace : f.lastPlace y = Int.log 2 y + 1 - f.prec := by
    rcases max_choice (Int.log 2 y + 1 - (f.prec : ℤ)) f.low with hmax | hmax
    · exact hmax
    · exact absurd (hlt.trans_eq hmax) (not_lt.mpr hlow)
  have hxlog : Int.log 2 x + 1 - f.prec ≤ f.lastPlace x := le_max_left _ _
  have hprec := f.positive
  obtain ⟨m, hm⟩ := multiple_of_le (K := K) (j := f.lastPlace x) (k := Int.log 2 y) (by omega) 1
  obtain ⟨l, hl⟩ := multiple_of_le (K := K) (j := f.lastPlace y) (k := Int.log 2 y) (by omega) 1
  rw [Int.cast_one, one_mul] at hm hl
  have hbelow : x ≤ (2 : K) ^ Int.log 2 y := by
    have hpow := (Int.lt_zpow_iff_log_lt one_lt_two hx).mpr
      (show Int.log 2 x < Int.log 2 y by omega)
    rw [Nat.cast_ofNat] at hpow
    exact hpow.le
  have habove : (2 : K) ^ Int.log 2 y ≤ y := by
    have hpow := Int.zpow_log_le_self one_lt_two hy
    rwa [Nat.cast_ofNat] at hpow
  calc f.round x ≤ m * 2 ^ f.lastPlace x := f.round_le_multiple (hm ▸ hbelow)
    _ = l * 2 ^ f.lastPlace y := hm.symm.trans hl
    _ ≤ f.round y := f.multiple_le_round (hl ▸ habove)

/-- Half the last place is the most that rounding takes or adds. -/
theorem abs_round_sub_le (f : FloatFormat) (x : K) : |f.round x - x| ≤ 2 ^ f.lastPlace x / 2 := by
  have hpos : (0 : K) < 2 ^ f.lastPlace x := two_zpow_pos _
  have hquot := abs_nearestEven_sub_le (x / 2 ^ f.lastPlace x)
  have hscale : f.round x - x =
      (nearestEven (x / 2 ^ f.lastPlace x) - x / 2 ^ f.lastPlace x) * 2 ^ f.lastPlace x := by
    rw [sub_mul, div_mul_cancel₀ _ hpos.ne', round]
  rw [hscale, abs_mul, abs_of_pos hpos]
  calc |(nearestEven (x / 2 ^ f.lastPlace x) : K) - x / 2 ^ f.lastPlace x| * 2 ^ f.lastPlace x
      ≤ 1 / 2 * 2 ^ f.lastPlace x := mul_le_mul_of_nonneg_right hquot hpos.le
    _ = 2 ^ f.lastPlace x / 2 := one_div_mul_eq_div _ _

/-- Of a number that has all its digits, relative to the number. -/
theorem abs_round_sub_le_self (f : FloatFormat) {x : K} (hx : 2 ^ (f.low + f.prec) ≤ x) :
    |f.round x - x| ≤ x / 2 ^ f.prec := by
  have hpos : 0 < x := (two_zpow_pos _).trans_le hx
  have hlog : f.low + f.prec ≤ Int.log 2 x :=
    (Int.zpow_le_iff_le_log one_lt_two hpos).mp (by rwa [Nat.cast_ofNat])
  have hplace : f.lastPlace x = Int.log 2 x + 1 - f.prec := max_eq_left (by omega)
  have hself : (2 : K) ^ Int.log 2 x ≤ x := by
    have hpow := Int.zpow_log_le_self one_lt_two hpos
    rwa [Nat.cast_ofNat] at hpow
  refine (f.abs_round_sub_le x).trans ?_
  rw [hplace, zpow_sub₀ two_ne_zero, zpow_add_one₀ two_ne_zero, zpow_natCast, div_right_comm,
    mul_div_cancel_right₀ _ two_ne_zero]
  exact div_le_div_of_nonneg_right hself (pow_pos two_pos _).le

theorem round_multiple (f : FloatFormat) {x : K} {n : ℤ} (h : x = n * 2 ^ f.lastPlace x) :
    f.round x = x := by
  have hquot : x / 2 ^ f.lastPlace x = n := (div_eq_iff (two_zpow_pos _).ne').mpr h
  rw [round, hquot, nearestEven_intCast]
  exact h.symm

/-- A number with no more digits than are kept is kept. -/
theorem round_exact (f : FloatFormat) {n : Nat} {k : ℤ} (hn : n < 2 ^ f.prec) (hk : f.low ≤ k) :
    f.round ((n : K) * 2 ^ k) = n * 2 ^ k := by
  rcases Nat.eq_zero_or_pos n with rfl | hpos
  · rw [Nat.cast_zero, zero_mul]
    exact f.round_multiple (by rw [Int.cast_zero, zero_mul])
  have hx : (0 : K) < n * 2 ^ k := mul_pos (Nat.cast_pos.mpr hpos) (two_zpow_pos k)
  have hlt : (n : K) * 2 ^ k < ((2 : Nat) : K) ^ ((f.prec : ℤ) + k) := by
    rw [Nat.cast_ofNat, zpow_add₀ two_ne_zero, zpow_natCast]
    refine mul_lt_mul_of_pos_right ?_ (two_zpow_pos k)
    exact_mod_cast hn
  have hlog := (Int.lt_zpow_iff_log_lt one_lt_two hx).mp hlt
  have hplace : f.lastPlace ((n : K) * 2 ^ k) ≤ k := max_le (by omega) hk
  obtain ⟨m, hm⟩ := multiple_of_le (K := K) hplace n
  rw [Int.cast_natCast] at hm
  exact f.round_multiple hm

/-- A whole number that is small enough is kept. -/
theorem round_natCast (f : FloatFormat) {n : Nat} (hn : n < 2 ^ f.prec) (hlow : f.low ≤ 0) :
    f.round (n : K) = n := by
  have hround := f.round_exact (K := K) hn hlow
  rwa [zpow_zero, mul_one] at hround

end FloatFormat

/-! ## Double precision

A format has no greatest number; a double has.  What would be rounded to `2 ^ 1024` or more is
infinite, and as rounding keeps the order, this is so from one number on. -/

/-- 53 digits, and none below `2 ^ -1074`. -/
def binary64 : FloatFormat := { prec := 53, low := -1074, positive := by decide }

/-- A double precision number.  Zero has no sign here. -/
inductive Binary64
  | finite (x : ℚ)
  | infinite (negative : Bool)
  | nan
deriving DecidableEq

namespace Binary64

/-- The nearest one; from half a last place below `2 ^ 1024` on it is infinite. -/
def ofRat (x : ℚ) : Binary64 :=
  if binary64.round |x| < 2 ^ 1024 then
    .finite (if x < 0 then -binary64.round |x| else binary64.round |x|)
  else .infinite (decide (x < 0))

/-- The quotient by a finite number above zero. -/
def divPos : Binary64 → ℚ → Binary64
  | finite x, m => ofRat (x / m)
  | infinite negative, _ => infinite negative
  | nan, _ => nan

/-- From half a last place below `2 ^ 1024` on, the nearest one is infinite. -/
def limit : ℚ := 2 ^ 1024 - 2 ^ 970

/-- `is_finite`. -/
def isFinite : Binary64 → Bool
  | finite _ => true
  | _ => false

/-- Not below zero. -/
def isNonneg : Binary64 → Bool
  | finite x => decide (0 ≤ x)
  | infinite negative => !negative
  | nan => false

/-- Above zero. -/
def isPos : Binary64 → Bool
  | finite x => decide (0 < x)
  | infinite negative => !negative
  | nan => false

/-- The whole number towards zero, and the nearest bound where that is out of range. -/
def toNatUpTo (bound : Nat) : Binary64 → Nat
  | finite x => min ⌊x⌋.toNat bound
  | infinite negative => if negative then 0 else bound
  | nan => 0

theorem ofRat_of_nonneg {x : ℚ} (hx : 0 ≤ x) (hfit : binary64.round x < 2 ^ 1024) :
    ofRat x = .finite (binary64.round x) := by
  rw [ofRat, abs_of_nonneg hx, if_pos hfit, if_neg (not_lt.mpr hx)]

/-- The limit lies halfway between two numbers of 53 digits, and goes to the even one. -/
theorem round_limit : binary64.round limit = 2 ^ 1024 := by decide +kernel

/-- Below `2 ^ 1024`, no last place is above 971. -/
theorem lastPlace_le {x : ℚ} (hx : 0 < x) (h : x < 2 ^ 1024) : binary64.lastPlace x ≤ 971 := by
  have hpow : x < ((2 : Nat) : ℚ) ^ ((1024 : Nat) : ℤ) := by
    rw [Nat.cast_ofNat, zpow_natCast]
    exact h
  have hlog : Int.log 2 x < 1024 := (Int.lt_zpow_iff_log_lt one_lt_two hx).mp hpow
  have hprec : (binary64.prec : ℤ) = 53 := rfl
  exact max_le (by omega) (by decide)

/-- **Finite** exactly below the limit: there, half a last place does not reach `2 ^ 1024`. -/
theorem ofRat_isFinite_iff {x : ℚ} (hx : 0 ≤ x) : (ofRat x).isFinite = true ↔ x < limit := by
  have hround : (ofRat x).isFinite = true ↔ binary64.round x < 2 ^ 1024 := by
    rw [ofRat, abs_of_nonneg hx]
    split
    · rename_i hfit
      exact iff_of_true rfl hfit
    · rename_i hover
      exact iff_of_false Bool.false_ne_true hover
  rw [hround]
  constructor
  -- from the limit on: rounding keeps the order, and rounds the limit to `2 ^ 1024`
  · refine fun hfit => not_le.mp fun hle => not_le.mpr hfit ?_
    rw [← round_limit]
    exact binary64.round_mono (by decide +kernel) hle
  · intro hlt
    rcases hx.eq_or_lt with rfl | hpos
    · exact (binary64.round_natCast (K := ℚ) (n := 0) (by decide) (by decide)).trans_lt (by simp)
    -- below it: what rounding adds is half a last place, `2 ^ 970` at most
    have hsplit : limit + 2 ^ 970 = 2 ^ 1024 := sub_add_cancel _ _
    have hbelow : x < 2 ^ 1024 := by
      rw [← hsplit]
      exact hlt.trans (lt_add_of_pos_right _ (by positivity))
    have hplace : (2 : ℚ) ^ binary64.lastPlace x ≤ 2 ^ (970 : Nat) * 2 := by
      rw [← pow_succ, ← zpow_natCast]
      exact zpow_le_zpow_right₀ one_le_two (lastPlace_le hpos hbelow)
    have herror := (abs_le.mp (binary64.abs_round_sub_le x)).2
    calc binary64.round x ≤ x + 2 ^ binary64.lastPlace x / 2 := by linarith
      _ ≤ x + 2 ^ 970 := by
        refine add_le_add_right ?_ x
        rwa [div_le_iff₀ two_pos]
      _ < limit + 2 ^ 970 := add_lt_add_left hlt _
      _ = 2 ^ 1024 := hsplit

/-- A whole number below `2 ^ 53`. -/
theorem ofRat_natCast {n : Nat} (hn : n < 2 ^ 53) : ofRat n = .finite n := by
  have hround : binary64.round (n : ℚ) = n := binary64.round_natCast hn (by decide)
  have hfit : (n : ℚ) < 2 ^ 1024 := by
    have hbig : (2 : ℚ) ^ 53 ≤ 2 ^ 1024 := pow_le_pow_right₀ one_le_two (by decide)
    exact lt_of_lt_of_le (by exact_mod_cast hn) hbig
  rw [ofRat_of_nonneg (Nat.cast_nonneg n) (by rwa [hround]), hround]

end Binary64

end RtsPipeline.Lib
