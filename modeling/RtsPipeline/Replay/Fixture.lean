/-
  `load_fixture` of `rts-replay/src/play.rs`: a fixture read into memory, line by line.

  A file that was opened is the list of what `next_line` gives, a line or an error, before it gives
  `None`; `textLines` is that list for a file whose text can be read.  The kinds of an I/O error and
  of a JSON error are parameters.

  1. `loadLines`, `loadFixture` — the code.
  2. `loadLines_append` — the lines that are blank or envelopes, whatever comes after them.
  3. `loadFixture_envelopes`, `loadFixture_badEnvelope` — a fixture that loads, and the line an
     error names.
  4. `loadFixture_written` — a file of envelopes, each on a line of its own.
-/
import RtsPipeline.Lib.Lines
import RtsPipeline.Replay.Envelope
import RtsPipeline.Replay.Play

namespace RtsPipeline.Replay

open Lib

variable {ε ι : Type}

/-- `PlayError`. -/
inductive PlayError (ε ι : Type)
  | io (source : ι)
  | empty (path : Text)
  | badEnvelope (line : Nat) (source : ε)
deriving DecidableEq, Repr

/-- `char::is_whitespace`. -/
def isWhitespace (c : Char) : Bool :=
  9 ≤ c.toNat ∧ c.toNat ≤ 13 ∨ c.toNat ∈ [0x20, 0x85, 0xA0, 0x1680] ∨
    0x2000 ≤ c.toNat ∧ c.toNat ≤ 0x200A ∨ c.toNat ∈ [0x2028, 0x2029, 0x202F, 0x205F, 0x3000]

/-- The line is empty when trimmed. -/
def isBlank (line : Text) : Bool := line.all isWhitespace

/-- The event of an envelope. -/
def Envelope.event (env : Envelope) : RecordedEvent :=
  { recvNs := env.recvNs.toNat, data := env.data }

/-- The loop of `load_fixture`, after `lineNo` lines and the events `out`. -/
def loadLines (serde : SerdeJson ε) :
    Nat → List RecordedEvent → List (Except ι Text) → Except (PlayError ε ι) (List RecordedEvent)
  | _, out, [] => .ok out
  | _, _, .error source :: _ => .error (.io source)
  | lineNo, out, .ok line :: lines =>
    if isBlank line then loadLines serde (lineNo + 1) out lines
    else
      match serde.fromStr line with
      | .error source => .error (.badEnvelope (lineNo + 1) source)
      | .ok env => loadLines serde (lineNo + 1) (out ++ [env.event]) lines

/-- `load_fixture`. -/
def loadFixture (serde : SerdeJson ε) (path : Text) (file : Except ι (List (Except ι Text))) :
    Except (PlayError ε ι) (List RecordedEvent) :=
  match file with
  | .error source => .error (.io source)
  | .ok lines =>
    match loadLines serde 0 [] lines with
    | .error e => .error e
    | .ok out => if out = [] then .error (.empty path) else .ok out

/-- What `next_line` gives for a file of this text. -/
def textLines (text : Text) : List (Except ι Text) := (bufLines text).map .ok

/-- The lines that hold an envelope. -/
def filled (texts : List Text) : List Text := texts.filter fun line => !isBlank line

/-- **Good lines** are passed over one by one. -/
theorem loadLines_append {serde : SerdeJson ε} (rest : List (Except ι Text)) (texts : List Text) :
    ∀ {envs : List Envelope} (lineNo : Nat) (out : List RecordedEvent),
    (filled texts).map serde.fromStr = envs.map .ok →
    loadLines serde lineNo out (texts.map .ok ++ rest) =
      loadLines serde (lineNo + texts.length) (out ++ envs.map Envelope.event) rest := by
  -- induction on the lines passed over; each is counted, blank or not
  induction texts with
  | nil =>
    intro envs lineNo out h
    obtain rfl : envs = [] := List.map_eq_nil_iff.mp h.symm
    show loadLines serde lineNo out rest = loadLines serde lineNo (out ++ []) rest
    rw [List.append_nil]
  | cons line texts ih =>
    intro envs lineNo out h
    rw [List.map_cons, List.cons_append, loadLines, List.length_cons, Nat.add_comm texts.length 1,
      ← Nat.add_assoc]
    by_cases hblank : isBlank line = true
    · rw [if_pos hblank]
      rw [filled, List.filter_cons_of_neg (by simp [hblank])] at h
      exact ih (lineNo + 1) out h
    · rw [if_neg hblank]
      rw [filled, List.filter_cons_of_pos (by simp [hblank]), List.map_cons] at h
      obtain ⟨env, envs', rfl, hline, hrest⟩ := List.map_eq_cons_iff.mp h.symm
      rw [← hline]
      show loadLines serde (lineNo + 1) (out ++ [env.event]) _ = _
      rw [ih (lineNo + 1) (out ++ [env.event]) hrest.symm, List.append_assoc, List.map_cons]
      rfl

/-- **A fixture loads** if its lines are blank or envelopes, and one is an envelope. -/
theorem loadFixture_envelopes {serde : SerdeJson ε} (path : Text) {texts : List Text}
    {envs : List Envelope} (h : (filled texts).map serde.fromStr = envs.map .ok) (hne : envs ≠ []) :
    loadFixture (ι := ι) serde path (.ok (texts.map .ok)) = .ok (envs.map Envelope.event) := by
  have hlines := loadLines_append (ι := ι) [] texts 0 [] h
  rw [List.append_nil, List.nil_append] at hlines
  rw [loadFixture, hlines, loadLines]
  exact if_neg fun hnil => hne (List.map_eq_nil_iff.mp hnil)

/-- **The error names the line**: the first that is neither. -/
theorem loadFixture_badEnvelope {serde : SerdeJson ε} (path : Text) {texts : List Text}
    {envs : List Envelope} (h : (filled texts).map serde.fromStr = envs.map .ok) {line : Text}
    (hblank : isBlank line = false) {source : ε} (hbad : serde.fromStr line = .error source)
    (rest : List (Except ι Text)) :
    loadFixture serde path (.ok (texts.map .ok ++ .ok line :: rest)) =
      .error (.badEnvelope (texts.length + 1) source) := by
  rw [loadFixture, loadLines_append _ texts 0 [] h, loadLines, if_neg (by simp [hblank]), hbad,
    Nat.zero_add]

/-! ## A file of envelopes

An envelope has no line break inside and is never blank, so the lines of the file are the envelopes,
one by one.  These are the facts about `serde_json` that a recording depends on. -/

/-- The line of an envelope in a recording. -/
def ndjsonLine (serde : SerdeJson ε) (env : Envelope) : Text := serde.toVec env ++ ['\n']

theorem isBlank_toVec {serde : SerdeJson ε} (hserde : serde.Lawful) (env : Envelope) :
    isBlank (serde.toVec env) = false := by
  rw [isBlank, List.all_eq_false]
  exact ⟨'{', hserde.brace env, by decide⟩

/-- The lines of a recording are the texts of its envelopes. -/
theorem bufLines_recording {serde : SerdeJson ε} (hserde : serde.Lawful) (envs : List Envelope) :
    bufLines (envs.flatMap (ndjsonLine serde)) = envs.map serde.toVec := by
  induction envs with
  | nil => rfl
  | cons env envs ih =>
    rw [List.flatMap_cons, ndjsonLine, List.append_assoc, List.singleton_append,
      bufLines_line (hserde.noLf env), stripCr_of_not_mem (hserde.noCr env), ih, List.map_cons]

/-- **A recording loads** as the envelopes written. -/
theorem loadFixture_written {serde : SerdeJson ε} (hserde : serde.Lawful) (path : Text)
    {envs : List Envelope} (hne : envs ≠ []) :
    loadFixture (ι := ι) serde path (.ok (textLines (envs.flatMap (ndjsonLine serde)))) =
      .ok (envs.map Envelope.event) := by
  have hfilled : filled (envs.map serde.toVec) = envs.map serde.toVec := by
    refine List.filter_eq_self.mpr fun line hline => ?_
    obtain ⟨env, _, rfl⟩ := List.mem_map.mp hline
    rw [isBlank_toVec hserde env]
    rfl
  have hread : (filled (envs.map serde.toVec)).map serde.fromStr = envs.map .ok := by
    rw [hfilled, List.map_map]
    exact List.map_congr_left fun env _ => hserde.inverts env
  rw [textLines, bufLines_recording hserde]
  exact loadFixture_envelopes path hread hne

end RtsPipeline.Replay
