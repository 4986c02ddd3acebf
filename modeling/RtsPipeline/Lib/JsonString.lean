/-
  The characters of a JSON string, written with the escapes that are necessary and read back.

  `escape` is what stands for one character between the quotes: the quote, the backslash and the
  control characters are escaped, everything else stands for itself.  `read` reads to the closing
  quote and gives back what follows it.  It takes each `\u` escape for a character, so it does not
  read the surrogate pairs that some writers make; `escape` makes none.

  The lemmas keep what follows a character in view (`read_escape`), so that strings can be read
  inside a longer text (`read_escaped`).
-/
import Mathlib.Data.List.Basic

namespace RtsPipeline.Lib.JsonString

/-- The characters with an escape of one letter, and the letter. -/
def letters : List (Char × Char) :=
  [('"', '"'), ('\\', '\\'), ('\x08', 'b'), ('\x0c', 'f'), ('\n', 'n'), ('\r', 'r'), ('\t', 't')]

/-- The letter that a character is escaped by. -/
def letter? (c : Char) : Option Char := (letters.find? (·.1 = c)).map Prod.snd

/-- The character that a letter is the escape of. -/
def ofLetter? (e : Char) : Option Char :=
  if e = '/' then some '/' else (letters.find? (·.2 = e)).map Prod.fst

/-- What stands for a character between the quotes. -/
def escape (c : Char) : List Char :=
  match letter? c with
  | some e => ['\\', e]
  | none =>
    if c.toNat < 32 then
      ['\\', 'u', '0', '0', Nat.digitChar (c.toNat / 16), Nat.digitChar (c.toNat % 16)]
    else [c]

/-- The value of a hexadecimal digit. -/
def hexValue (c : Char) : Option Nat :=
  if '0' ≤ c ∧ c ≤ '9' then some (c.toNat - '0'.toNat)
  else if 'a' ≤ c ∧ c ≤ 'f' then some (c.toNat - 'a'.toNat + 10)
  else if 'A' ≤ c ∧ c ≤ 'F' then some (c.toNat - 'A'.toNat + 10)
  else none

/-- The character with this number. -/
def ofCode (n : Nat) : Option Char := if n.isValidChar then some (Char.ofNat n) else none

/-- One more character in front of what was read. -/
def push (c : Char) (r : List Char × List Char) : List Char × List Char := (c :: r.1, r.2)

/-- Where in an escape the reader is. -/
inductive Pending
  | plain
  | backslash
  | hex (n : Nat) (left : Nat)   -- the value of the digits so far, and how many come after the next
deriving DecidableEq, Repr

/-- Read on, after the beginning of an escape. -/
def readFrom : Pending → List Char → Option (List Char × List Char)
  | _, [] => none
  | .plain, c :: text =>
    if c = '"' then some ([], text)
    else if c = '\\' then readFrom .backslash text
    else if c.toNat < 32 then none   -- a control character has to be escaped
    else (readFrom .plain text).map (push c)
  | .backslash, c :: text =>
    if c = 'u' then readFrom (.hex 0 3) text
    else (ofLetter? c).bind fun c => (readFrom .plain text).map (push c)
  | .hex n (left + 1), c :: text =>
    (hexValue c).bind fun v => readFrom (.hex (16 * n + v) left) text
  | .hex n 0, c :: text =>
    (hexValue c).bind fun v => (ofCode (16 * n + v)).bind fun c =>
      (readFrom .plain text).map (push c)

/-- The string up to its closing quote, and what follows the quote. -/
def read (text : List Char) : Option (List Char × List Char) := readFrom .plain text

/-! ## One character

There are three kinds of characters: those with a letter, control characters without one, and all
others.  In each case the reader comes to the end of the escape with the character in hand, and back
to where it was. -/

theorem letter?_mem {c e : Char} (h : letter? c = some e) : (c, e) ∈ letters := by
  obtain ⟨⟨c', e'⟩, hfind, rfl⟩ := Option.map_eq_some_iff.mp h
  have hc : c' = c := by simpa using List.find?_some hfind
  exact hc ▸ List.mem_of_find?_eq_some hfind

theorem ofLetter?_of_mem : ∀ p ∈ letters, p.2 ≠ 'u' ∧ ofLetter? p.2 = some p.1 := by decide

/-- A character without a letter is neither the quote nor the backslash. -/
theorem ne_of_letter?_none {c : Char} (h : letter? c = none) : c ≠ '"' ∧ c ≠ '\\' := by
  constructor
  · rintro rfl
    exact absurd h (by decide)
  · rintro rfl
    exact absurd h (by decide)

theorem hexValue_digitChar : ∀ n < 16, hexValue (Nat.digitChar n) = some n := by decide

/-- The escape of a control character. -/
theorem readFrom_control {c : Char} (h : c.toNat < 32) (text : List Char) :
    readFrom (.hex 0 3)
        ('0' :: '0' :: Nat.digitChar (c.toNat / 16) :: Nat.digitChar (c.toNat % 16) :: text) =
      (readFrom .plain text).map (push c) := by
  have hzero : hexValue '0' = some 0 := by decide
  have hhigh := hexValue_digitChar (c.toNat / 16) (by omega)
  have hlow := hexValue_digitChar (c.toNat % 16) (by omega)
  have hn : 16 * (c.toNat / 16) + c.toNat % 16 = c.toNat := by omega
  have hcode : ofCode c.toNat = some c := by
    rw [ofCode, if_pos (Or.inl (by omega)), Char.ofNat_toNat]
  simp only [readFrom, hzero, hhigh, hlow, Option.bind_some, Nat.mul_zero, Nat.zero_add, hn, hcode]

/-- **One character** is read back, and the rest is read after it. -/
theorem read_escape (c : Char) (text : List Char) :
    read (escape c ++ text) = (read text).map (push c) := by
  unfold escape read
  -- a letter for the seven that have one, four hex digits for the other control characters
  cases hl : letter? c with
  | some e =>
    obtain ⟨hu, he⟩ := ofLetter?_of_mem _ (letter?_mem hl)
    show readFrom .plain ('\\' :: e :: text) = _
    rw [readFrom, if_neg (by decide), if_pos rfl, readFrom, if_neg hu, he, Option.bind_some]
  | none =>
    obtain ⟨hquote, hback⟩ := ne_of_letter?_none hl
    by_cases hc : c.toNat < 32
    · show readFrom .plain ((if c.toNat < 32 then _ else _) ++ text) = _
      rw [if_pos hc]
      show readFrom .plain ('\\' :: 'u' :: '0' :: '0' :: _ :: _ :: text) = _
      rw [readFrom, if_neg (by decide), if_pos rfl, readFrom, if_pos rfl, readFrom_control hc]
    · show readFrom .plain ((if c.toNat < 32 then _ else _) ++ text) = _
      rw [if_neg hc, List.singleton_append, readFrom, if_neg hquote, if_neg hback, if_neg hc]

/-! ## Whole strings

The induction is on the string; what follows its closing quote is never looked at. -/

/-- **A string** is read back up to its quote. -/
theorem read_escaped (s text : List Char) :
    read (s.flatMap escape ++ '"' :: text) = some (s, text) := by
  induction s with
  | nil => rfl
  | cons c s ih =>
    rw [List.flatMap_cons, List.append_assoc, read_escape, ih]
    rfl

/-- **A string that was read** does not depend on what comes later. -/
theorem readFrom_append {p : Pending} {text s rest : List Char} (more : List Char)
    (h : readFrom p text = some (s, rest)) : readFrom p (text ++ more) = some (s, rest ++ more) := by
  -- by the reader's own recursion; each case takes one character and goes on, or fails
  induction p, text using readFrom.induct generalizing s with
  | case1 p => cases p <;> exact nomatch h
  | case2 text =>
    rw [readFrom, if_pos rfl] at h
    obtain ⟨rfl, rfl⟩ := Prod.mk.inj (Option.some.inj h)
    rw [List.cons_append, readFrom, if_pos rfl]
  | case3 text hquote ih =>
    rw [readFrom, if_neg hquote, if_pos rfl] at h
    rw [List.cons_append, readFrom, if_neg hquote, if_pos rfl]
    exact ih h
  | case4 c text hquote hback hcontrol =>
    rw [readFrom, if_neg hquote, if_neg hback, if_pos hcontrol] at h
    exact nomatch h
  | case5 c text hquote hback hcontrol ih =>
    rw [readFrom, if_neg hquote, if_neg hback, if_neg hcontrol] at h
    obtain ⟨r, hr, hs⟩ := Option.map_eq_some_iff.mp h
    obtain ⟨rfl, rfl⟩ := Prod.mk.inj hs
    rw [List.cons_append, readFrom, if_neg hquote, if_neg hback, if_neg hcontrol, ih hr]
    rfl
  | case6 text ih =>
    rw [readFrom, if_pos rfl] at h
    rw [List.cons_append, readFrom, if_pos rfl]
    exact ih h
  | case7 c text hu ih =>
    rw [readFrom, if_neg hu] at h
    obtain ⟨d, hd, hrest⟩ := Option.bind_eq_some_iff.mp h
    obtain ⟨r, hr, hs⟩ := Option.map_eq_some_iff.mp hrest
    obtain ⟨rfl, rfl⟩ := Prod.mk.inj hs
    rw [List.cons_append, readFrom, if_neg hu, hd, Option.bind_some, ih hr]
    rfl
  | case8 n left c text ih =>
    rw [readFrom] at h
    obtain ⟨v, hv, hr⟩ := Option.bind_eq_some_iff.mp h
    rw [List.cons_append, readFrom, hv, Option.bind_some]
    exact ih v hr
  | case9 n c text ih =>
    rw [readFrom] at h
    obtain ⟨v, hv, hcode⟩ := Option.bind_eq_some_iff.mp h
    obtain ⟨d, hd, hrest⟩ := Option.bind_eq_some_iff.mp hcode
    obtain ⟨r, hr, hs⟩ := Option.map_eq_some_iff.mp hrest
    obtain ⟨rfl, rfl⟩ := Prod.mk.inj hs
    rw [List.cons_append, readFrom, hv, Option.bind_some, hd, Option.bind_some, ih hr]
    rfl

/-- The characters of an escape are no control characters.  An escape is written with the letters,
    the hex digits, or the character itself. -/
theorem not_control_of_mem_escape {c b : Char} (h : b ∈ escape c) : ¬ b.toNat < 32 := by
  have hletters : ∀ p ∈ letters, ¬ p.2.toNat < 32 := by decide
  have hdigits : ∀ n < 16, ¬ (Nat.digitChar n).toNat < 32 := by decide
  unfold escape at h
  cases hl : letter? c with
  | some e =>
    rw [hl] at h
    rcases List.mem_pair.mp h with rfl | rfl
    · decide
    · exact hletters _ (letter?_mem hl)
  | none =>
    rw [hl] at h
    by_cases hc : c.toNat < 32
    · simp only [hc, if_true, List.mem_cons, List.not_mem_nil, or_false] at h
      rcases h with rfl | rfl | rfl | rfl | rfl | rfl
      · decide
      · decide
      · decide
      · decide
      · exact hdigits _ (by omega)
      · exact hdigits _ (by omega)
    · simp only [hc, if_false, List.mem_singleton] at h
      exact h ▸ hc

/-- No control character is left in an escaped string. -/
theorem not_mem_escaped {b : Char} (hb : b.toNat < 32) (s : List Char) :
    b ∉ s.flatMap escape := by
  intro h
  obtain ⟨c, _, hc⟩ := List.mem_flatMap.mp h
  exact not_control_of_mem_escape hc hb

end RtsPipeline.Lib.JsonString
