/-
  The envelope of a recorded payload, one line of a fixture.

  The JSON syntax belongs to `serde_json`, which is not part of the repository: `SerdeJson` stands
  for what `record` writes an envelope as and for what `load_fixture` makes of a line.  What they
  rely on is `Lawful`: an envelope written is read back, it is written as an object, and its text
  has no raw line break.

  `compact` is the form in which `serde_json` writes the object, with a reader of that form.
-/
import RtsPipeline.Core.Event
import RtsPipeline.Lib.JsonString

namespace RtsPipeline.Replay

open Lib

/-- `Envelope`. -/
structure Envelope where
  recvNs : UInt64
  data : Text
deriving DecidableEq, Repr

/-- `serde_json`: `to_vec` of the object of an envelope, and `from_str::<Envelope>`. -/
structure SerdeJson (ε : Type) where
  toVec : Envelope → Text
  fromStr : Text → Except ε Envelope

/-- What a recording relies on. -/
structure SerdeJson.Lawful {ε : Type} (serde : SerdeJson ε) : Prop where
  inverts : ∀ env, serde.fromStr (serde.toVec env) = .ok env
  noLf : ∀ env, '\n' ∉ serde.toVec env
  noCr : ∀ env, '\r' ∉ serde.toVec env
  brace : ∀ env, '{' ∈ serde.toVec env

/-! ## The compact form

That there is a lawful writer at all is shown by giving one, with the text that `serde_json` does
write: no spaces, the keys in alphabetical order, since a JSON object is a sorted map there, and in
the string no more escapes than are needed. -/

/-- The text before the data. -/
def opening : Text := "\x7b\"data\":\"".toList

/-- The text between the data's closing quote and the number. -/
def middle : Text := ",\"recv_ns\":".toList

/-- The number and the text after it. -/
def closing (n : Nat) : Text := Nat.toDigits 10 n ++ ['}']

/-- The compact text of an envelope, the keys in alphabetical order. -/
def toCompact (env : Envelope) : Text :=
  opening ++ (env.data.flatMap JsonString.escape ++ '"' :: (middle ++ closing env.recvNs.toNat))

/-- The number that a closing text begins with. -/
def closingNumber (text : Text) : Nat := Nat.ofDigitChars 10 (text.takeWhile Char.isDigit) 0

/-- Read the compact text. -/
def ofCompact (text : Text) : Option Envelope := do
  let text ← opening.isPrefixOf? text
  let (data, text) ← JsonString.read text
  let text ← middle.isPrefixOf? text
  let n := closingNumber text
  if text = closing n ∧ n < UInt64.size then some { recvNs := .ofNat n, data := data } else none

/-- The compact form as `serde_json`. -/
def compact : SerdeJson Unit where
  toVec := toCompact
  fromStr text := (ofCompact text).elim (.error ()) .ok

theorem closingNumber_closing (n : Nat) : closingNumber (closing n) = n := by
  have hdigits : ∀ c ∈ Nat.toDigits 10 n, c.isDigit = true :=
    fun _ hc => Nat.isDigit_of_mem_toDigits (by decide) (by decide) hc
  rw [closingNumber, closing, List.takeWhile_append_of_pos hdigits,
    List.takeWhile_cons_of_neg (by decide), List.append_nil, Nat.ofDigitChars_ten_toDigits]

/-- A text after a prefix it was given. -/
theorem isPrefixOf?_append (before text : Text) :
    before.isPrefixOf? (before ++ text) = some text :=
  List.isPrefixOf?_eq_some_iff_append_eq.mpr rfl

theorem ofCompact_toCompact (env : Envelope) : ofCompact (toCompact env) = some env := by
  have hn : closing env.recvNs.toNat = closing (closingNumber (closing env.recvNs.toNat)) ∧
      closingNumber (closing env.recvNs.toNat) < UInt64.size := by
    rw [closingNumber_closing]
    exact ⟨rfl, env.recvNs.toNat_lt⟩
  simp only [ofCompact, toCompact, isPrefixOf?_append, JsonString.read_escaped, Option.bind_eq_bind,
    Option.bind_some]
  rw [if_pos hn, closingNumber_closing, UInt64.ofNat_toNat]

/-- A control character is not in the compact text. -/
theorem not_mem_toCompact {b : Char} (hb : b.toNat < 32) (hopen : b ∉ opening) (hmid : b ∉ middle)
    (env : Envelope) : b ∉ toCompact env := by
  have hdigits : b ∉ Nat.toDigits 10 env.recvNs.toNat := by
    intro hmem
    have hdigit := Nat.isDigit_of_mem_toDigits (by decide) (by decide) hmem
    have : 48 ≤ b.toNat := (Char.isDigit_iff_toNat.mp hdigit).1
    omega
  have hquote : b ≠ '"' := by
    rintro rfl
    exact absurd hb (by decide)
  have hbrace : b ≠ '}' := by
    rintro rfl
    exact absurd hb (by decide)
  simp only [toCompact, closing, List.mem_append, List.mem_cons, List.not_mem_nil, or_false, not_or]
  exact ⟨hopen, JsonString.not_mem_escaped hb env.data, hquote, hmid, hdigits, hbrace⟩

/-- **The compact form** is lawful. -/
theorem compact_lawful : compact.Lawful where
  inverts env := by
    show (ofCompact (toCompact env)).elim _ _ = _
    rw [ofCompact_toCompact]
    rfl
  noLf := not_mem_toCompact (by decide) (by decide) (by decide)
  noCr := not_mem_toCompact (by decide) (by decide) (by decide)
  brace env := List.mem_append_left _ (by decide)

end RtsPipeline.Replay
