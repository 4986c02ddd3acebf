/-
  `load_csv_metrics` of `scripts/plot_latency.py`: what is read of the files that `dump_csv` wrote.

  The pipelines write their numbers in Rust and the scripts read them in Python.

  1. `pyFloat?`, `pyInt?` — `float` and `int` of a text.
  2. `loadFile`, `loadCsvMetrics` — the code.
  3. `csvFile_rows`, `loadFile_dump` — a dumped file is read as the snapshot it was made of.
-/
import Mathlib.Algebra.GroupWithZero.Nat
import RtsPipeline.Core.Metrics
import RtsPipeline.Lib.Csv
import RtsPipeline.Lib.Decimal

namespace RtsPipeline

open Lib

/-- `dump_csv`: the text of the file. -/
def Metrics.csvFile (hdr : Hdr) (m : Metrics) : List Char :=
  (m.dumpCsv hdr).flatMap fun line => line.toList ++ ['\n']

namespace Report

/-! ## Numbers in Python

`float` and `int` take more than the numerals that the pipelines print: space around them,
underscores between digits, signs.  All this is in the model, although no dumped file has any of it,
since the loader reads whatever is in the directory.  Digits other than the ten of ASCII are not. -/

/-- `str.isspace` of one character. -/
def isSpace (c : Char) : Bool :=
  let n := c.toNat
  decide (9 ≤ n ∧ n ≤ 13 ∨ 28 ≤ n ∧ n ≤ 32 ∨ 0x2000 ≤ n ∧ n ≤ 0x200A) ||
    [0x85, 0xA0, 0x1680, 0x2028, 0x2029, 0x202F, 0x205F, 0x3000].contains n

/-- `str.strip`. -/
def strip (s : List Char) : List Char :=
  ((s.dropWhile isSpace).reverse.dropWhile isSpace).reverse

/-- Without the underscores, which may only stand between digits; `prev` is the character before. -/
def dropUnderscores (prev : Char) : List Char → Option (List Char)
  | [] => if prev = '_' then none else some []
  | c :: rest =>
    if c = '_' then if prev.isDigit then dropUnderscores c rest else none
    else if prev = '_' ∧ c.isDigit = false then none
    else (dropUnderscores c rest).map (c :: ·)

/-- `float(text)`, or a `ValueError`. -/
def pyFloat? (text : List Char) : Option Binary64 :=
  (dropUnderscores ' ' (strip text)).bind Binary64.ofText?

/-- `int(text)`, or a `ValueError`. -/
def pyInt? (text : List Char) : Option Int :=
  (dropUnderscores ' ' (strip text)).bind fun body =>
    let (negative, digits) := sign body
    if digits ≠ [] ∧ digits.all Char.isDigit = true then
      some (if negative then -Nat.ofDigitChars 10 digits 0 else Nat.ofDigitChars 10 digits 0)
    else none

/-! ## The loader

`load_csv_metrics`, with the conversions Python makes of a cell: an empty one counts as zero, and
a row whose numbers do not parse is passed over. -/

/-- What is kept of a row. -/
structure Percentiles where
  p50 : Binary64
  p90 : Binary64
  p99 : Binary64
  p999 : Binary64
  n : Int
deriving DecidableEq

/-- A `dict`, in the order in which its keys came. -/
abbrev Dict (κ ν : Type) := List (κ × ν)

/-- `d[key] = value`: a key that is there stays where it is. -/
def setItem {κ ν : Type} [DecidableEq κ] (d : Dict κ ν) (key : κ) (value : ν) : Dict κ ν :=
  if key ∈ d.map Prod.fst then d.map fun e => if e.1 = key then (key, value) else e
  else d ++ [(key, value)]

/-- `row.get(name, 0) or 0`, where `none` is `0`. -/
def cell? (row : DictRow) (name : String) : Option (List Char) :=
  match row.get name.toList with
  | some (some text) => if text = [] then none else some text
  | _ => none

/-- `float(row.get(name, 0) or 0)`. -/
def floatCell? (row : DictRow) (name : String) : Option Binary64 :=
  match cell? row name with
  | some text => pyFloat? text
  | none => some (.finite 0)

/-- `int(row.get(name, 0) or 0)`. -/
def intCell? (row : DictRow) (name : String) : Option Int :=
  match cell? row name with
  | some text => pyInt? text
  | none => some 0

/-- `row.get("metric", "")`, a key of the file's `dict`. -/
def metric (row : DictRow) : Option (List Char) :=
  match row.get "metric".toList with
  | some value => value
  | none => some []

/-- The numbers of a row, or a `ValueError`. -/
def percentiles? (row : DictRow) : Option Percentiles :=
  match floatCell? row "p50", floatCell? row "p90", floatCell? row "p99", floatCell? row "p99.9",
    intCell? row "sample_count" with
  | some p50, some p90, some p99, some p999, some n => some ⟨p50, p90, p99, p999, n⟩
  | _, _, _, _, _ => none

/-- The rows of a file by their metric; a row with a `ValueError` is passed over. -/
def loadRow (data : Dict (Option (List Char)) Percentiles) (row : DictRow) :
    Dict (Option (List Char)) Percentiles :=
  match percentiles? row with
  | some p => setItem data (metric row) p
  | none => data

/-- The body of the loop over the files. -/
def loadFile (text : List Char) : Option (Dict (Option (List Char)) Percentiles) :=
  (csvRows text).map fun rows => (dictRows rows).foldl loadRow []

/-- What is loaded of the files of a directory, by their stems. -/
abbrev Loaded := Dict (List Char) (Dict (Option (List Char)) Percentiles)

/-- `load_csv_metrics`, of the files of a directory as stems and texts.  A malformed file raises. -/
def loadCsvMetrics (files : List (List Char × List Char)) : Option Loaded :=
  files.foldlM (fun data file =>
    if file.1 = "benchmark_summary".toList then some data
    else (loadFile file.2).map fun d => if d = [] then data else setItem data file.1 d) []

/-! ## Reading back what was dumped

A cell that is printed is a word or a row of digits.  None has a comma, a quote or a line break, so
the lines are split where they were joined; and `float` finds nothing to strip in a row of
digits. -/

/-- A row of the file, cell by cell. -/
def cells (r : CsvRow) : List (List Char) :=
  [r.metric.toList, Nat.toDigits 10 r.p50.toNat, Nat.toDigits 10 r.p90.toNat,
    Nat.toDigits 10 r.p99.toNat, Nat.toDigits 10 r.p999.toNat, Nat.toDigits 10 r.sampleCount]

/-- The first row. -/
def header : List (List Char) :=
  ["metric".toList, "p50".toList, "p90".toList, "p99".toList, "p99.9".toList,
    "sample_count".toList]

theorem toList_toString (n : Nat) : (toString n).toList = Nat.toDigits 10 n := by
  rw [Nat.toString_eq_repr, Nat.toList_repr]

theorem toList_toString_uint64 (v : UInt64) : (toString v).toList = Nat.toDigits 10 v.toNat :=
  toList_toString v.toNat

theorem line_cells (r : CsvRow) : r.line.toList ++ ['\n'] = csvLine (cells r) := by
  rw [CsvRow.line, String.toList_intercalate, csvLine, cells]
  simp only [List.map_cons, List.map_nil, toList_toString, toList_toString_uint64]
  rfl

theorem line_header :
    "metric,p50,p90,p99,p99.9,sample_count".toList ++ ['\n'] = csvLine header := by
  decide

/-- The file, row by row. -/
theorem csvFile_rows (hdr : Hdr) (m : Metrics) :
    m.csvFile hdr = (header :: (m.snapshot hdr).rows.map cells).flatMap csvLine := by
  rw [Metrics.csvFile, Metrics.dumpCsv, List.flatMap_cons, List.flatMap_cons, List.flatMap_map,
    List.flatMap_map, line_header]
  exact congrArg (csvLine header ++ ·) (List.flatMap_congr fun r _ => line_cells r)

/-! ### Digits -/

section Digits

variable {digits : List Char} (h : ∀ c ∈ digits, c.isDigit = true)

theorem digit_range {c : Char} (h : c.isDigit = true) : 48 ≤ c.toNat ∧ c.toNat ≤ 57 :=
  Char.isDigit_iff_toNat.mp h

theorem digit_ne {c d : Char} (h : c.isDigit = true) (hd : d.toNat < 48 ∨ 57 < d.toNat) : c ≠ d := by
  rintro rfl
  have := digit_range h
  omega

theorem isPlain_digit {c : Char} (h : c.isDigit = true) : isPlain c = true := by
  have hcomma := digit_ne h (d := ',') (by decide)
  have hquote := digit_ne h (d := '"') (by decide)
  have hlf := digit_ne h (d := '\n') (by decide)
  have hcr := digit_ne h (d := '\r') (by decide)
  simp [isPlain, hcomma, hquote, hlf, hcr]

theorem isSpace_digit {c : Char} (h : c.isDigit = true) : isSpace c = false := by
  have hrange := digit_range h
  rw [isSpace, Bool.or_eq_false_iff]
  refine ⟨decide_eq_false (by omega), ?_⟩
  rw [List.contains_eq_mem, decide_eq_false_iff_not]
  intro hmem
  simp only [List.mem_cons, List.not_mem_nil, or_false] at hmem
  omega

include h

theorem strip_digits : strip digits = digits := by
  have hdrop : ∀ {s : List Char}, (∀ c ∈ s, c.isDigit = true) → s.dropWhile isSpace = s := by
    intro s hs
    cases s with
    | nil => rfl
    | cons c s =>
      rw [List.dropWhile_cons_of_neg]
      rw [isSpace_digit (hs c List.mem_cons_self)]
      decide
  rw [strip, hdrop h, hdrop fun c hc => h c (List.mem_reverse.mp hc), List.reverse_reverse]

theorem dropUnderscores_digits {prev : Char} (hprev : prev ≠ '_') :
    dropUnderscores prev digits = some digits := by
  induction digits generalizing prev with
  | nil => exact if_neg hprev
  | cons c rest ih =>
    have hc : c ≠ '_' := digit_ne (h c List.mem_cons_self) (by decide)
    rw [dropUnderscores, if_neg hc, if_neg fun hbad => hprev hbad.1,
      ih (fun d hd => h d (List.mem_cons_of_mem c hd)) hc]
    rfl

end Digits

section Numbers

variable (n : Nat)

theorem toDigits_digits : ∀ c ∈ Nat.toDigits 10 n, c.isDigit = true :=
  fun _ hc => Nat.isDigit_of_mem_toDigits (by decide) (by decide) hc

/-- A number that was printed is read as the double next to it. -/
theorem pyFloat?_toDigits : pyFloat? (Nat.toDigits 10 n) = some (.ofRat n) := by
  have hdigits := toDigits_digits n
  rw [pyFloat?, strip_digits hdigits, dropUnderscores_digits hdigits (by decide), Option.bind_some,
    Binary64.ofText?_digits Nat.toDigits_ne_nil hdigits, Nat.ofDigitChars_ten_toDigits]

/-- And as an integer as itself. -/
theorem pyInt?_toDigits : pyInt? (Nat.toDigits 10 n) = some (n : Int) := by
  have hdigits := toDigits_digits n
  rw [pyInt?, strip_digits hdigits, dropUnderscores_digits hdigits (by decide), Option.bind_some,
    sign_digits hdigits]
  simp only [Nat.ofDigitChars_ten_toDigits, Bool.false_eq_true, if_false]
  exact if_pos ⟨Nat.toDigits_ne_nil, List.all_eq_true.mpr hdigits⟩

end Numbers

/-! ### Rows -/

/-- What is read of a row that was written. -/
def ofRow (r : CsvRow) : Percentiles :=
  { p50 := .ofRat r.p50.toNat
    p90 := .ofRat r.p90.toNat
    p99 := .ofRat r.p99.toNat
    p999 := .ofRat r.p999.toNat
    n := r.sampleCount }

section Row

variable (r : CsvRow)

/-- The cells of a row under their names. -/
theorem get_cells :
    let row : DictRow := { names := header, cells := cells r }
    row.get "metric".toList = some (some r.metric.toList) ∧
      row.get "p50".toList = some (some (Nat.toDigits 10 r.p50.toNat)) ∧
      row.get "p90".toList = some (some (Nat.toDigits 10 r.p90.toNat)) ∧
      row.get "p99".toList = some (some (Nat.toDigits 10 r.p99.toNat)) ∧
      row.get "p99.9".toList = some (some (Nat.toDigits 10 r.p999.toNat)) ∧
      row.get "sample_count".toList = some (some (Nat.toDigits 10 r.sampleCount)) :=
  ⟨rfl, rfl, rfl, rfl, rfl, rfl⟩

theorem metric_cells : metric { names := header, cells := cells r } = some r.metric.toList := by
  rw [metric, (get_cells r).1]

theorem percentiles?_cells : percentiles? { names := header, cells := cells r } = some (ofRow r) := by
  obtain ⟨_, h50, h90, h99, h999, hcount⟩ := get_cells r
  simp only [percentiles?, floatCell?, intCell?, cell?, h50, h90, h99, h999, hcount,
    if_neg Nat.toDigits_ne_nil, pyFloat?_toDigits, pyInt?_toDigits, ofRow]

end Row

/-- Keys that are new come after the others, in their order. -/
theorem foldl_setItem {α κ ν : Type} [DecidableEq κ] (key : α → κ) (value : α → ν) {rest : List α}
    {d : Dict κ ν} (h : (d.map Prod.fst ++ rest.map key).Nodup) :
    rest.foldl (fun d x => setItem d (key x) (value x)) d =
      d ++ rest.map fun x => (key x, value x) := by
  induction rest generalizing d with
  | nil => exact (List.append_nil d).symm
  | cons x rest ih =>
    rw [List.map_cons, ← List.singleton_append, ← List.append_assoc] at h
    have hnew : key x ∉ d.map Prod.fst := fun hmem =>
      (List.nodup_append.mp (List.nodup_append.mp h).1).2.2 _ hmem _ List.mem_cons_self rfl
    have hset : setItem d (key x) (value x) = d ++ [(key x, value x)] := if_neg hnew
    rw [List.foldl_cons, hset, ih]
    · rw [List.map_cons, List.append_assoc, List.singleton_append]
    · rw [List.map_append, List.map_singleton]
      exact h

/-- **Rows that were written** with names of their own are read as they are. -/
theorem loadFile_rows {rs : List CsvRow}
    (hplain : ∀ r ∈ rs, r.metric.toList.all isPlain = true)
    (hnames : (rs.map CsvRow.metric).Nodup) :
    loadFile ((header :: rs.map cells).flatMap csvLine) =
      some (rs.map fun r => (some r.metric.toList, ofRow r)) := by
  -- every row can be told from an empty line, and its cells stand for themselves
  have hcells : ∀ row ∈ header :: rs.map cells, Reader.Plain row := by
    intro row hrow
    rcases List.mem_cons.mp hrow with rfl | hrow
    · decide
    obtain ⟨r, hr, rfl⟩ := List.mem_map.mp hrow
    refine ⟨List.cons_ne_nil _ _, ?_, ?_⟩
    · rintro heq
      exact absurd (congrArg List.length heq) (by simp [cells])
    intro cell hcell
    simp only [cells, List.mem_cons, List.not_mem_nil, or_false] at hcell
    rcases hcell with rfl | rfl | rfl | rfl | rfl | rfl
    · exact hplain r hr
    all_goals exact List.all_eq_true.mpr fun c hc => isPlain_digit (toDigits_digits _ c hc)
  have hrow : ∀ (d : Dict (Option (List Char)) Percentiles) (r : CsvRow),
      loadRow d { names := header, cells := cells r } =
        setItem d (some r.metric.toList) (ofRow r) := by
    intro d r
    rw [loadRow, percentiles?_cells, metric_cells]
  have hkept : (rs.map cells).filter (· ≠ []) = rs.map cells := by
    refine List.filter_eq_self.mpr fun row hrow => ?_
    obtain ⟨r, _, rfl⟩ := List.mem_map.mp hrow
    rfl
  -- the metrics are different, so no row takes the place of another
  have hkeys : (rs.map fun r => some r.metric.toList).Nodup := by
    have hinj : Function.Injective fun name : String => some name.toList := fun a b hab =>
      String.toList_injective (Option.some.inj hab)
    have hmap := hnames.map hinj
    rwa [List.map_map] at hmap
  rw [loadFile, csvRows_lines hcells, Option.map_some, dictRows, hkept, List.foldl_map,
    List.foldl_map]
  simp only [hrow]
  exact congrArg some (foldl_setItem _ _ hkeys)

/-- **A dumped file** is read as the snapshot it was made of. -/
theorem loadFile_dump (hdr : Hdr) (m : Metrics) :
    loadFile (m.csvFile hdr) =
      some ((m.snapshot hdr).rows.map fun r => (some r.metric.toList, ofRow r)) := by
  rw [csvFile_rows]
  refine loadFile_rows ?_ ?_
  · simp only [MetricsSnapshot.rows, List.forall_mem_cons]
    exact ⟨by decide, by decide, by decide, fun _ hr => absurd hr List.not_mem_nil⟩
  · simp only [MetricsSnapshot.rows, List.map_cons, List.map_nil]
    decide

end Report

end RtsPipeline
