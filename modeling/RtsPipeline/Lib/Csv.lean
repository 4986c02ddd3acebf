/-
  Files of comma-separated values, as Python's `csv` reads them.

  `Reader.feed` is the automaton of `csv.reader` in its default dialect: commas, double quotes that
  are doubled inside a quoted cell, and any line ending.  It is fed the characters of the text and,
  after each line, a mark for the end of the line.

  1. `lineMarks` — the characters and the marks.
  2. `Reader.feed`, `csvRows` — the automaton, and the rows of a text.
  3. `csvRows_lines` — of lines of plain cells, the cells.
  4. `DictRow`, `dictRows` — `csv.DictReader`: the rows by the names in the first one.
-/
import Mathlib.Data.List.Basic

namespace RtsPipeline.Lib

/-! ## The automaton

The states of the reader, and how a character or the end of a line moves it.  A row is complete when
its line is, and an empty line gives an empty row. -/

/-- The characters of a text, and `none` after each line.  `begun` is set inside a line. -/
def lineMarks : Bool → List Char → List (Option Char)
  | begun, [] => if begun then [none] else []
  | _, '\r' :: '\n' :: text => some '\r' :: some '\n' :: none :: lineMarks false text
  | _, c :: text =>
    if c = '\n' ∨ c = '\r' then some c :: none :: lineMarks false text
    else some c :: lineMarks true text

/-- Where the automaton stands in a row. -/
inductive CsvState
  | startRecord
  | startField
  | inField
  | inQuotedField
  | quoteInQuotedField
  | eatCrnl
deriving DecidableEq, Repr

/-- The cell that is read, the cells of its row before it, and the rows before these. -/
structure Reader where
  state : CsvState
  field : List Char
  fields : List (List Char)
  rows : List (List (List Char))
deriving DecidableEq, Repr

namespace Reader

/-- Before the first character. -/
def start : Reader := { state := .startRecord, field := [], fields := [], rows := [] }

/-- The cell has ended. -/
def save (r : Reader) (state : CsvState) : Reader :=
  { r with state := state, field := [], fields := r.fields ++ [r.field] }

/-- A character of the cell. -/
def add (r : Reader) (state : CsvState) (c : Char) : Reader :=
  { r with state := state, field := r.field ++ [c] }

/-- The row has ended. -/
def emit (r : Reader) : Reader :=
  { state := .startRecord, field := [], fields := [], rows := r.rows ++ [r.fields] }

/-- A character at the start of a cell. -/
def feedStart (r : Reader) (c : Char) : Reader :=
  if c = '\n' ∨ c = '\r' then r.save .eatCrnl
  else if c = '"' then { r with state := .inQuotedField }
  else if c = ',' then r.save .startField
  else r.add .inField c

/-- A character, or the end of a line.  A carriage return inside a line is an error. -/
def feed (r : Reader) (mark : Option Char) : Option Reader :=
  match r.state, mark with
  | .startRecord, none => some r.emit
  | .startRecord, some c =>
    some (if c = '\n' ∨ c = '\r' then { r with state := .eatCrnl } else r.feedStart c)
  | .startField, none => some (r.save .startRecord).emit
  | .startField, some c => some (r.feedStart c)
  | .inField, none => some (r.save .startRecord).emit
  | .inField, some c =>
    some (if c = '\n' ∨ c = '\r' then r.save .eatCrnl
      else if c = ',' then r.save .startField
      else r.add .inField c)
  -- a line may end inside quotes, and the cell goes on
  | .inQuotedField, none => some r
  | .inQuotedField, some c =>
    some (if c = '"' then { r with state := .quoteInQuotedField } else r.add .inQuotedField c)
  | .quoteInQuotedField, none => some (r.save .startRecord).emit
  | .quoteInQuotedField, some c =>
    some (if c = '"' then r.add .inQuotedField c
      else if c = ',' then r.save .startField
      else if c = '\n' ∨ c = '\r' then r.save .eatCrnl
      else r.add .inField c)
  -- after a line ending only more of it may come
  | .eatCrnl, none => some r.emit
  | .eatCrnl, some c => if c = '\n' ∨ c = '\r' then some r else none

/-- At the end of the text, a cell that was begun still counts. -/
def finish (r : Reader) : List (List (List Char)) :=
  if r.field ≠ [] ∨ r.state = .inQuotedField then (r.save .startRecord).emit.rows else r.rows

end Reader

/-- `csv.reader`. -/
def csvRows (text : List Char) : Option (List (List (List Char))) :=
  ((lineMarks false text).foldlM Reader.feed .start).map Reader.finish

/-! ## Lines of plain cells

In front of a cell the automaton is at `startField`, inside it at `inField`, and of plain characters
it does nothing but collect them.  So a cell is read by induction on its characters and a line by
induction on its cells.  Only the first cell of a row is different: a line ending there would be an
empty row. -/

/-- A character that stands for itself. -/
def isPlain (c : Char) : Bool := !(c == ',' || c == '"' || c == '\n' || c == '\r')

/-- A row as a line, without quotes. -/
def csvLine (cells : List (List Char)) : List Char := List.intercalate [','] cells ++ ['\n']

theorem isPlain_ne {c : Char} (h : isPlain c = true) :
    c ≠ ',' ∧ c ≠ '"' ∧ ¬ (c = '\n' ∨ c = '\r') := by
  simp only [isPlain, Bool.not_eq_true', Bool.or_eq_false_iff, beq_eq_false_iff_ne] at h
  tauto

theorem mem_intercalate {sep c : Char} :
    ∀ {cells : List (List Char)}, c ∈ List.intercalate [sep] cells →
      c = sep ∨ ∃ cell ∈ cells, c ∈ cell
  | [], hc => absurd hc List.not_mem_nil
  | [cell], hc => by
    rw [List.intercalate_singleton] at hc
    exact Or.inr ⟨cell, List.mem_cons_self, hc⟩
  | cell :: next :: cells, hc => by
    rw [List.intercalate_cons_cons, List.append_assoc] at hc
    rcases List.mem_append.mp hc with hcell | hrest
    · exact Or.inr ⟨cell, List.mem_cons_self, hcell⟩
    rcases List.mem_cons.mp hrest with rfl | hrest
    · exact Or.inl rfl
    exact (mem_intercalate hrest).imp_right fun ⟨d, hd, hmem⟩ =>
      ⟨d, List.mem_cons_of_mem cell hd, hmem⟩

/-- A line of the text is its characters and one mark. -/
theorem lineMarks_line {line : List Char} (h : ∀ c ∈ line, c ≠ '\n' ∧ c ≠ '\r') (text : List Char) :
    ∀ begun, lineMarks begun (line ++ '\n' :: text) =
      (line.map some ++ [some '\n', none]) ++ lineMarks false text := by
  induction line with
  | nil =>
    intro begun
    rw [List.nil_append, lineMarks]
    · exact if_pos (Or.inl rfl)
    · exact fun _ heq => absurd heq (by decide)
  | cons c line ih =>
    intro begun
    obtain ⟨hlf, hcr⟩ := h c List.mem_cons_self
    rw [List.cons_append, lineMarks, if_neg (not_or.mpr ⟨hlf, hcr⟩),
      ih (fun d hd => h d (List.mem_cons_of_mem _ hd))]
    · rfl
    · exact fun _ heq => absurd heq hcr

namespace Reader

/-- Where the automaton stands after plain characters of a cell. -/
def begun (cell : List Char) : CsvState := if cell = [] then .startField else .inField

/-- Plain characters are added to the cell. -/
theorem feed_plain {r : Reader} (hr : r.state = begun r.field) :
    ∀ {cell : List Char}, cell.all isPlain = true →
      (cell.map some).foldlM feed r =
        some { r with state := begun (r.field ++ cell), field := r.field ++ cell }
  | [], _ => by
    rw [List.append_nil, ← hr]
    rfl
  | c :: cell, h => by
    obtain ⟨hc, hcell⟩ := Bool.and_eq_true_iff.mp (List.all_cons.symm.trans h)
    obtain ⟨hcomma, hquote, hend⟩ := isPlain_ne hc
    have hadded : begun (r.field ++ [c]) = .inField :=
      if_neg (List.append_ne_nil_of_right_ne_nil _ (List.cons_ne_nil c []))
    have hfeed : r.feed (some c) = some (r.add .inField c) := by
      by_cases hfield : r.field = []
      · have hstate : r.state = .startField := hr.trans (if_pos hfield)
        simp only [feed, hstate, feedStart, if_neg hend, if_neg hquote, if_neg hcomma]
      · have hstate : r.state = .inField := hr.trans (if_neg hfield)
        simp only [feed, hstate, if_neg hend, if_neg hcomma]
    rw [List.map_cons, List.foldlM_cons, hfeed]
    refine (feed_plain (r := r.add .inField c) hadded.symm hcell).trans ?_
    simp only [add, List.append_assoc, List.singleton_append]

/-- After a cell, a comma or the end of the line. -/
theorem feed_saved {r : Reader} (hr : r.state = begun r.field) :
    r.feed (some ',') = some (r.save .startField) ∧ r.feed (some '\n') = some (r.save .eatCrnl) := by
  have hcomma : ¬ (',' = '\n' ∨ ',' = '\r') := by decide
  have hquote : ¬ ',' = '"' := by decide
  by_cases hfield : r.field = []
  · have hstate : r.state = .startField := hr.trans (if_pos hfield)
    simp only [feed, hstate, feedStart, if_neg hcomma, if_neg hquote, true_or, if_true, and_self]
  · have hstate : r.state = .inField := hr.trans (if_neg hfield)
    simp only [feed, hstate, if_neg hcomma, true_or, if_true, and_self]

/-- The cells of a line, from the start of one of them. -/
theorem feed_cells {r : Reader} (hr : r.state = .startField) (hfield : r.field = []) :
    ∀ {cells : List (List Char)}, cells ≠ [] → (∀ cell ∈ cells, cell.all isPlain = true) →
      ((List.intercalate [','] cells).map some ++ [some '\n', none]).foldlM feed r =
        some { start with rows := r.rows ++ [r.fields ++ cells] }
  | [], hne, _ => absurd rfl hne
  | [cell], _, h => by
    have hstart : r.state = begun r.field := by rw [hr, hfield]; rfl
    rw [List.intercalate_singleton, List.foldlM_append,
      feed_plain hstart (h cell List.mem_cons_self), hfield, List.nil_append]
    simp only [Option.bind_eq_bind, Option.bind_some, List.foldlM_cons, List.foldlM_nil]
    rw [(feed_saved rfl).2]
    rfl
  | cell :: next :: cells, _, h => by
    have hstart : r.state = begun r.field := by rw [hr, hfield]; rfl
    rw [List.intercalate_cons_cons, List.map_append, List.map_append, List.append_assoc,
      List.append_assoc, List.foldlM_append, feed_plain hstart (h cell List.mem_cons_self), hfield,
      List.nil_append]
    simp only [Option.bind_eq_bind, Option.bind_some, List.map_cons, List.map_nil, List.cons_append,
      List.nil_append, List.foldlM_cons]
    rw [(feed_saved rfl).1]
    refine (feed_cells (r := Reader.save _ .startField) rfl rfl (List.cons_ne_nil next cells)
      fun d hd => h d (List.mem_cons_of_mem cell hd)).trans ?_
    simp only [save, List.append_assoc, List.singleton_append]

/-- At the start of a row a character is read as at the start of a cell, but for a line ending. -/
theorem feed_startRecord {r : Reader} (hr : r.state = .startRecord) {c : Char}
    (hc : ¬ (c = '\n' ∨ c = '\r')) :
    r.feed (some c) = { r with state := .startField }.feed (some c) := by
  simp only [feed, hr, if_neg hc]
  simp only [feedStart, save, add]

/-- A row that can be told from an empty line, of cells that stand for themselves. -/
def Plain (cells : List (List Char)) : Prop :=
  cells ≠ [] ∧ cells ≠ [[]] ∧ ∀ cell ∈ cells, cell.all isPlain = true

instance (cells : List (List Char)) : Decidable (Plain cells) :=
  inferInstanceAs (Decidable (_ ∧ _))

theorem Plain.not_nil {cells : List (List Char)} (h : Plain cells) :
    List.intercalate [','] cells ≠ [] := by
  obtain ⟨hne, hempty, _⟩ := h
  match cells with
  | [] => exact absurd rfl hne
  | [cell] =>
    rw [List.intercalate_singleton]
    rintro rfl
    exact hempty rfl
  | cell :: next :: cells =>
    rw [List.intercalate_cons_cons]
    exact List.append_ne_nil_of_left_ne_nil
      (List.append_ne_nil_of_right_ne_nil _ (List.cons_ne_nil ',' [])) _

/-- There is no line ending inside the line. -/
theorem Plain.no_end {cells : List (List Char)} (h : Plain cells) :
    ∀ c ∈ List.intercalate [','] cells, c ≠ '\n' ∧ c ≠ '\r' := by
  intro c hc
  rcases mem_intercalate hc with rfl | ⟨cell, hcell, hmem⟩
  · decide
  · exact not_or.mp (isPlain_ne (List.all_eq_true.mp (h.2.2 cell hcell) c hmem)).2.2

/-- **A line is a row.** -/
theorem feed_line {r : Reader} (hr : r.state = .startRecord) (hfield : r.field = [])
    (hfields : r.fields = []) {cells : List (List Char)} (h : Plain cells) :
    ((List.intercalate [','] cells).map some ++ [some '\n', none]).foldlM feed r =
      some { start with rows := r.rows ++ [cells] } := by
  have hcells := feed_cells (r := { r with state := .startField }) rfl hfield h.1 h.2.2
  obtain ⟨c, line, hline⟩ := List.exists_cons_of_ne_nil h.not_nil
  have hc : ¬ (c = '\n' ∨ c = '\r') := not_or.mpr (h.no_end c (hline ▸ List.mem_cons_self))
  rw [hline, List.map_cons, List.cons_append, List.foldlM_cons] at hcells ⊢
  rw [feed_startRecord hr hc, hcells, hfields]
  rfl

end Reader

/-- **Lines of plain cells** are read as their cells. -/
theorem csvRows_lines {rows : List (List (List Char))} (h : ∀ cells ∈ rows, Reader.Plain cells) :
    csvRows (rows.flatMap csvLine) = some rows := by
  have hfold : ∀ (before rest : List (List (List Char))), (∀ cells ∈ rest, Reader.Plain cells) →
      (lineMarks false (rest.flatMap csvLine)).foldlM Reader.feed
          { Reader.start with rows := before } =
        some { Reader.start with rows := before ++ rest } := by
    intro before rest
    induction rest generalizing before with
    | nil =>
      intro _
      rw [List.append_nil]
      rfl
    | cons cells rest ih =>
      intro hrest
      have hcells := hrest cells List.mem_cons_self
      rw [List.flatMap_cons, csvLine, List.append_assoc, List.singleton_append,
        lineMarks_line hcells.no_end, List.foldlM_append, Reader.feed_line rfl rfl rfl hcells]
      refine (ih (before ++ [cells]) fun d hd => hrest d (List.mem_cons_of_mem cells hd)).trans ?_
      rw [List.append_assoc, List.singleton_append]
  have hrows := hfold [] rows h
  rw [List.nil_append] at hrows
  rw [csvRows, show Reader.start = { Reader.start with rows := [] } from rfl, hrows]
  rfl

/-! ## Rows by name -/

/-- A row by the names of the first one. -/
structure DictRow where
  names : List (List Char)
  cells : List (List Char)
deriving DecidableEq, Repr

/-- `row.get(name)`: a name without a cell has `None`, and the last of two equal names counts. -/
def DictRow.get (row : DictRow) (name : List Char) : Option (Option (List Char)) :=
  let values := row.cells.map some ++ List.replicate (row.names.length - row.cells.length) none
  (row.names.zip values).reverse.lookup name

/-- `csv.DictReader`, which passes over empty lines. -/
def dictRows : List (List (List Char)) → List DictRow
  | [] => []
  | names :: rows => (rows.filter (· ≠ [])).map fun cells => { names := names, cells := cells }

end RtsPipeline.Lib
