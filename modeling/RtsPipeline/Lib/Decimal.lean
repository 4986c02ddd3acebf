/-
  Decimal numerals, as Rust and Python read a floating-point number.

  1. `mantissa?`, `exponent?`, `numeral?` — a numeral without a sign, as an exact rational.
  2. `Binary64.ofText?` — the nearest double, and the words for what is no number.
  3. `ofText?_digits` — digits alone are read as the number they say.
-/
import Mathlib.Data.List.TakeWhile
import RtsPipeline.Lib.Binary64

namespace RtsPipeline.Lib

/-! ## Numerals

Digits with a point somewhere among them, and their value as a fraction.  At least one digit is
asked for, before the point or after it. -/

/-- A sign, if there is one, and the rest. -/
def sign (s : List Char) : Bool × List Char :=
  match s with
  | '-' :: rest => (true, rest)
  | '+' :: rest => (false, rest)
  | _ => (false, s)

/-- The same word, whatever the case of its letters. -/
def eqIgnoreAsciiCase (s t : List Char) : Bool := s.map Char.toLower == t.map Char.toLower

/-- Digits, with a point before, between or after them or without one. -/
def mantissa? (num : List Char) : Option ℚ :=
  let whole := num.takeWhile Char.isDigit
  match num.dropWhile Char.isDigit with
  | [] => if whole = [] then none else some (Nat.ofDigitChars 10 whole 0)
  | c :: frac =>
    if c = '.' ∧ frac.all Char.isDigit = true ∧ whole ++ frac ≠ [] then
      some (Nat.ofDigitChars 10 (whole ++ frac) 0 / 10 ^ frac.length)
    else none

theorem mantissa?_nonneg {num : List Char} {x : ℚ} (h : mantissa? num = some x) : 0 ≤ x := by
  simp only [mantissa?] at h
  split at h
  · split at h
    · cases h
    · obtain rfl := Option.some.inj h
      exact Nat.cast_nonneg _
  · split at h
    · obtain rfl := Option.some.inj h
      exact div_nonneg (Nat.cast_nonneg _) (pow_nonneg (by norm_num) _)
    · cases h

/-- Nothing, or a mark that was looked for before, a sign if there is one, and digits. -/
def exponent? (s : List Char) : Option ℤ :=
  match s with
  | [] => some 0
  | _ :: rest =>
    let (negative, digits) := sign rest
    if digits ≠ [] ∧ digits.all Char.isDigit = true then
      some (if negative then -Nat.ofDigitChars 10 digits 0 else Nat.ofDigitChars 10 digits 0)
    else none

/-- Not the mark of an exponent. -/
def beforeExponent (c : Char) : Bool := !(c == 'e' || c == 'E')

/-- A number without a sign. -/
def numeral? (s : List Char) : Option ℚ :=
  match mantissa? (s.takeWhile beforeExponent), exponent? (s.dropWhile beforeExponent) with
  | some x, some e => some (x * 10 ^ e)
  | _, _ => none

/-- A numeral or a word for what is none, with or without a sign. -/
def Binary64.ofText? (s : List Char) : Option Binary64 :=
  let (negative, body) := sign s
  match numeral? body with
  | some x => some (.ofRat (if negative then -x else x))
  | none =>
    if eqIgnoreAsciiCase body "nan".toList then some .nan
    else if eqIgnoreAsciiCase body "inf".toList || eqIgnoreAsciiCase body "infinity".toList then
      some (.infinite negative)
    else none

/-! ## Digits alone

What a program prints of a natural number has none of the rest: no sign, no point and no exponent.
So each of the tests above comes out the same way, and the value is that of the digits. -/

/-- A digit is no sign, no mark of an exponent and no letter.  All of it is about characters outside
    `0`..`9`. -/
theorem digit_facts {c : Char} (h : c.isDigit = true) :
    c ≠ '-' ∧ c ≠ '+' ∧ beforeExponent c = true ∧ c.toLower ≠ 'm' := by
  have hrange : 48 ≤ c.toNat ∧ c.toNat ≤ 57 := Char.isDigit_iff_toNat.mp h
  have hne : ∀ d : Char, d.toNat < 48 ∨ 57 < d.toNat → c ≠ d := by
    rintro d hd rfl
    omega
  have hlower : c.toLower = c := by
    refine dif_neg ?_
    rintro ⟨hA, _⟩
    have : 65 ≤ c.toNat := hA
    omega
  have he : (c == 'e') = false := beq_false_of_ne (hne _ (by decide))
  have hE : (c == 'E') = false := beq_false_of_ne (hne _ (by decide))
  refine ⟨hne _ (by decide), hne _ (by decide), ?_, ?_⟩
  · rw [beforeExponent, he, hE]
    rfl
  · rw [hlower]
    exact hne _ (by decide)

theorem sign_digits {digits : List Char} (h : ∀ c ∈ digits, c.isDigit = true) :
    sign digits = (false, digits) := by
  cases digits with
  | nil => rfl
  | cons d rest =>
    obtain ⟨hminus, hplus, _⟩ := digit_facts (h d List.mem_cons_self)
    unfold sign
    split
    · rename_i heq
      exact absurd (List.cons.inj heq).1 hminus
    · rename_i heq
      exact absurd (List.cons.inj heq).1 hplus
    · rfl

/-- Digits alone are read as the number they say. -/
theorem Binary64.ofText?_digits {digits : List Char} (hne : digits ≠ [])
    (h : ∀ c ∈ digits, c.isDigit = true) :
    ofText? digits = some (.ofRat (Nat.ofDigitChars 10 digits 0 : ℚ)) := by
  have hbefore : ∀ c ∈ digits, beforeExponent c = true := fun c hc => (digit_facts (h c hc)).2.2.1
  have hmant : mantissa? digits = some (Nat.ofDigitChars 10 digits 0 : ℚ) := by
    rw [mantissa?, List.takeWhile_eq_self_iff.mpr h, List.dropWhile_eq_nil_iff.mpr h]
    exact if_neg hne
  have hnumeral : numeral? digits = some (Nat.ofDigitChars 10 digits 0 : ℚ) := by
    rw [numeral?, List.takeWhile_eq_self_iff.mpr hbefore, List.dropWhile_eq_nil_iff.mpr hbefore,
      hmant]
    simp only [exponent?, zpow_zero, mul_one]
  simp only [ofText?, sign_digits h, hnumeral, Bool.false_eq_true, if_false]

end RtsPipeline.Lib
