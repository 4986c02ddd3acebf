/-
  The lines of a text, as `BufRead::lines` cuts it and as an event stream is cut.

  `bufLines` ends a line at each LF and drops one CR before it; what follows the last LF is a line
  of its own, its characters kept as they are.  `eventLines` ends a line at each LF, CR or CR LF,
  and what follows the last of these is no line.

  Both are one pass over the characters that carries the line begun, so what a text after a
  terminator contributes does not depend on what came before it (`bufLinesFrom_append_lf`,
  `eventLinesFrom_append_lf`).  The lemmas are stated of the pass, with the line begun as an
  argument, and by induction on the text for every line begun; what is used elsewhere is the case of
  an empty one.

  A text may also stop anywhere.  `endedLines` are the lines that have their terminator; they are
  what is certain of a text of which more may come, and grow with it (`endedLines_mono`).
-/
import Mathlib.Data.List.Basic

namespace RtsPipeline.Lib

/-- A line without the CR of its CR LF. -/
def stripCr (line : List Char) : List Char :=
  if line.getLast? = some '\r' then line.dropLast else line

/-- `bufLines` after the characters `cur` of a line that has not ended. -/
def bufLinesFrom : List Char → List Char → List (List Char)
  | cur, [] => if cur = [] then [] else [cur]
  | cur, c :: text =>
    if c = '\n' then stripCr cur :: bufLinesFrom [] text else bufLinesFrom (cur ++ [c]) text

/-- `BufRead::lines`. -/
def bufLines (text : List Char) : List (List Char) := bufLinesFrom [] text

/-- `eventLines` after the characters `cur` of a line that has not ended.  `cr` is set right after a
    CR, which takes an LF with it. -/
def eventLinesFrom : Bool → List Char → List Char → List (List Char)
  | _, _, [] => []
  | cr, cur, c :: text =>
    if c = '\n' then
      if cr then eventLinesFrom false [] text else cur :: eventLinesFrom false [] text
    else if c = '\r' then cur :: eventLinesFrom true [] text
    else eventLinesFrom false (cur ++ [c]) text

/-- The lines of an event stream. -/
def eventLines (text : List Char) : List (List Char) := eventLinesFrom false [] text

theorem stripCr_of_not_mem {line : List Char} (h : '\r' ∉ line) : stripCr line = line :=
  if_neg fun hl => h (List.mem_of_getLast? hl)

theorem stripCr_append_cr (line : List Char) : stripCr (line ++ ['\r']) = line := by
  rw [stripCr, if_pos List.getLast?_concat, List.dropLast_concat]

theorem length_stripCr_le (line : List Char) : (stripCr line).length ≤ line.length := by
  unfold stripCr
  split
  · rw [List.length_dropLast]; exact Nat.sub_le _ _
  · exact Nat.le_refl _

theorem stripCr_append {before : List Char} (h : before.getLast? ≠ some '\r') (line : List Char) :
    stripCr (before ++ line) = before ++ stripCr line := by
  by_cases hl : line = []
  · subst hl
    rw [List.append_nil, stripCr, if_neg h]
    exact (List.append_nil before).symm
  · unfold stripCr
    rw [List.getLast?_append_of_ne_nil _ hl]
    split
    · exact List.dropLast_append_of_ne_nil hl
    · rfl

/-- Only a CR at the end is lost. -/
theorem length_stripCr_eq {line : List Char} (h : (stripCr line).length = line.length) :
    line.getLast? ≠ some '\r' := by
  intro hl
  rw [stripCr, if_pos hl, List.length_dropLast] at h
  have : line ≠ [] := by
    rintro rfl
    exact nomatch hl
  have := List.length_pos_iff.mpr this
  omega

/-! ## One line at a time

What the two readers make of one whole line.  A stream that is known to be a list of lines can then
be read line by line, and nobody has to look at characters again. -/

/-- A line of `BufRead::lines` and its LF. -/
theorem bufLinesFrom_line {cur body text : List Char} (h : '\n' ∉ body) :
    bufLinesFrom cur (body ++ '\n' :: text) = stripCr (cur ++ body) :: bufLines text := by
  induction body generalizing cur with
  | nil => rw [List.nil_append, bufLinesFrom, if_pos rfl, List.append_nil, bufLines]
  | cons c body ih =>
    have hc : c ≠ '\n' := fun he => h (he ▸ List.mem_cons_self)
    rw [List.cons_append, bufLinesFrom, if_neg hc, ih fun hm => h (List.mem_cons_of_mem _ hm),
      List.append_assoc, List.singleton_append]

theorem bufLines_line {body text : List Char} (h : '\n' ∉ body) :
    bufLines (body ++ '\n' :: text) = stripCr body :: bufLines text :=
  bufLinesFrom_line h

/-- The characters of an event line before its terminator. -/
theorem eventLinesFrom_body {cur body text : List Char} (hlf : '\n' ∉ body) (hcr : '\r' ∉ body) :
    eventLinesFrom false cur (body ++ text) = eventLinesFrom false (cur ++ body) text := by
  induction body generalizing cur with
  | nil => rw [List.nil_append, List.append_nil]
  | cons c body ih =>
    have h1 : c ≠ '\n' := fun he => hlf (he ▸ List.mem_cons_self)
    have h2 : c ≠ '\r' := fun he => hcr (he ▸ List.mem_cons_self)
    rw [List.cons_append, eventLinesFrom, if_neg h1, if_neg h2,
      ih (fun hm => hlf (List.mem_cons_of_mem _ hm)) fun hm => hcr (List.mem_cons_of_mem _ hm),
      List.append_assoc, List.singleton_append]

/-- An event line and the first character of its terminator. -/
theorem eventLinesFrom_break {cur body text : List Char} (hlf : '\n' ∉ body) (hcr : '\r' ∉ body)
    {b : Char} (hb : b = '\n' ∨ b = '\r') :
    eventLinesFrom false cur (body ++ b :: text) =
      (cur ++ body) :: eventLinesFrom (decide (b = '\r')) [] text := by
  rw [eventLinesFrom_body hlf hcr]
  rcases hb with rfl | rfl <;> rfl

/-- An event line and its LF. -/
theorem eventLinesFrom_lf {cur body text : List Char} (hlf : '\n' ∉ body) (hcr : '\r' ∉ body) :
    eventLinesFrom false cur (body ++ '\n' :: text) = (cur ++ body) :: eventLines text := by
  rw [eventLinesFrom_body hlf hcr]
  rfl

/-- An event line and its CR LF. -/
theorem eventLinesFrom_crlf {cur body text : List Char} (hlf : '\n' ∉ body) (hcr : '\r' ∉ body) :
    eventLinesFrom false cur (body ++ '\r' :: '\n' :: text) = (cur ++ body) :: eventLines text := by
  rw [eventLinesFrom_body hlf hcr]
  rfl

/-! ## What follows an LF starts afresh

After an LF neither reader remembers anything, so a text can be cut there and read in two parts. -/

theorem bufLinesFrom_append_lf (cur before text : List Char) :
    bufLinesFrom cur (before ++ '\n' :: text) =
      bufLinesFrom cur (before ++ ['\n']) ++ bufLines text := by
  induction before generalizing cur with
  | nil => rfl
  | cons c before ih =>
    rw [List.cons_append, List.cons_append, bufLinesFrom, bufLinesFrom]
    by_cases hc : c = '\n'
    · rw [if_pos hc, if_pos hc, ih, List.cons_append]
    · rw [if_neg hc, if_neg hc, ih]

theorem eventLinesFrom_append_lf (cr : Bool) (cur before text : List Char) :
    eventLinesFrom cr cur (before ++ '\n' :: text) =
      eventLinesFrom cr cur (before ++ ['\n']) ++ eventLines text := by
  induction before generalizing cr cur with
  | nil => cases cr <;> rfl
  | cons c before ih =>
    rw [List.cons_append, List.cons_append, eventLinesFrom, eventLinesFrom]
    by_cases hc : c = '\n'
    · rw [if_pos hc, if_pos hc]
      cases cr with
      | true => exact ih false []
      | false => exact congrArg (cur :: ·) (ih false [])
    · rw [if_neg hc, if_neg hc]
      by_cases hr : c = '\r'
      · rw [if_pos hr, if_pos hr, ih, List.cons_append]
      · rw [if_neg hr, if_neg hr, ih]

/-! ## Texts that stop anywhere

A connection may break inside a line.  The line reader has the lines that had ended, and the line
begun as well if the stream only ended; the event reader leaves it out. -/

/-- The lines of `bufLines` that have ended. -/
def endedLinesFrom : List Char → List Char → List (List Char)
  | _, [] => []
  | cur, c :: text =>
    if c = '\n' then stripCr cur :: endedLinesFrom [] text else endedLinesFrom (cur ++ [c]) text

/-- What `BufRead::lines` yields before an error. -/
def endedLines (text : List Char) : List (List Char) := endedLinesFrom [] text

/-- At the end of the text `bufLines` adds the line begun, if there is one, which is not blank. -/
theorem bufLinesFrom_ended (cur text : List Char) :
    ∃ rest, bufLinesFrom cur text = endedLinesFrom cur text ++ rest ∧ [] ∉ rest := by
  induction text generalizing cur with
  | nil =>
    unfold bufLinesFrom
    by_cases hc : cur = []
    · exact ⟨[], by rw [if_pos hc]; rfl, List.not_mem_nil⟩
    · refine ⟨[cur], by rw [if_neg hc]; rfl, ?_⟩
      rw [List.mem_singleton]
      exact Ne.symm hc
  | cons c text ih =>
    rw [bufLinesFrom, endedLinesFrom]
    by_cases hc : c = '\n'
    · obtain ⟨rest, hrest, hblank⟩ := ih []
      exact ⟨rest, by rw [if_pos hc, if_pos hc, hrest, List.cons_append], hblank⟩
    · rw [if_neg hc, if_neg hc]
      exact ih (cur ++ [c])

/-- The lines that have ended stay when more comes. -/
theorem endedLinesFrom_append (cur before text : List Char) :
    ∃ cur', endedLinesFrom cur (before ++ text) =
      endedLinesFrom cur before ++ endedLinesFrom cur' text := by
  induction before generalizing cur with
  | nil => exact ⟨cur, rfl⟩
  | cons c before ih =>
    rw [List.cons_append, endedLinesFrom, endedLinesFrom]
    by_cases hc : c = '\n'
    · obtain ⟨cur', h⟩ := ih []
      exact ⟨cur', by rw [if_pos hc, if_pos hc, h, List.cons_append]⟩
    · rw [if_neg hc, if_neg hc]
      exact ih (cur ++ [c])

/-- Reading goes on from the state after `before`, whatever its last line end was. -/
theorem eventLinesFrom_append (cr : Bool) (cur before text : List Char) :
    ∃ cr' cur', eventLinesFrom cr cur (before ++ text) =
      eventLinesFrom cr cur before ++ eventLinesFrom cr' cur' text := by
  induction before generalizing cr cur with
  | nil => exact ⟨cr, cur, rfl⟩
  | cons c before ih =>
    rw [List.cons_append, eventLinesFrom, eventLinesFrom]
    by_cases hc : c = '\n'
    · obtain ⟨cr', cur', h⟩ := ih false []
      refine ⟨cr', cur', ?_⟩
      rw [if_pos hc, if_pos hc, h]
      cases cr <;> rfl
    · rw [if_neg hc, if_neg hc]
      by_cases hr : c = '\r'
      · obtain ⟨cr', cur', h⟩ := ih true []
        exact ⟨cr', cur', by rw [if_pos hr, if_pos hr, h, List.cons_append]⟩
      · rw [if_neg hr, if_neg hr]
        exact ih false (cur ++ [c])

/-- A line that has ended. -/
theorem endedLinesFrom_line {cur body text : List Char} (h : '\n' ∉ body) :
    endedLinesFrom cur (body ++ '\n' :: text) = stripCr (cur ++ body) :: endedLines text := by
  induction body generalizing cur with
  | nil => rw [List.nil_append, endedLinesFrom, if_pos rfl, List.append_nil, endedLines]
  | cons c body ih =>
    have hc : c ≠ '\n' := fun he => h (he ▸ List.mem_cons_self)
    rw [List.cons_append, endedLinesFrom, if_neg hc, ih fun hm => h (List.mem_cons_of_mem _ hm),
      List.append_assoc, List.singleton_append]

theorem endedLines_line {body text : List Char} (h : '\n' ∉ body) :
    endedLines (body ++ '\n' :: text) = stripCr body :: endedLines text :=
  endedLinesFrom_line h

/-- A line that has not ended is one for `bufLines`, as it stands. -/
theorem lines_unended {cur text : List Char} (h : '\n' ∉ text) :
    endedLinesFrom cur text = [] ∧
      bufLinesFrom cur text = if cur ++ text = [] then [] else [cur ++ text] := by
  induction text generalizing cur with
  | nil => rw [List.append_nil]; exact ⟨rfl, rfl⟩
  | cons c text ih =>
    have hc : c ≠ '\n' := fun he => h (he ▸ List.mem_cons_self)
    obtain ⟨hended, hbuf⟩ := @ih (cur ++ [c]) fun hm => h (List.mem_cons_of_mem _ hm)
    rw [List.append_assoc, List.singleton_append] at hbuf
    rw [endedLinesFrom, bufLinesFrom, if_neg hc, if_neg hc]
    exact ⟨hended, hbuf⟩

theorem endedLines_mono {before text : List Char} (h : before <+: text) :
    endedLines before <+: endedLines text := by
  obtain ⟨rest, rfl⟩ := h
  obtain ⟨cur', h⟩ := endedLinesFrom_append [] before rest
  exact ⟨_, h.symm⟩

theorem eventLines_mono {before text : List Char} (h : before <+: text) :
    eventLines before <+: eventLines text := by
  obtain ⟨rest, rfl⟩ := h
  obtain ⟨cr', cur', h⟩ := eventLinesFrom_append false [] before rest
  exact ⟨_, h.symm⟩

/-! ## No characters are added

The lines of a text have no more characters than the text. -/

/-- An LF is counted in the text and is in no line. -/
theorem length_bufLinesFrom_le (cur text : List Char) :
    (bufLinesFrom cur (text ++ ['\n'])).flatten.length ≤ cur.length + text.length := by
  induction text generalizing cur with
  | nil =>
    show (stripCr cur :: []).flatten.length ≤ cur.length
    rw [List.flatten_singleton]
    exact length_stripCr_le cur
  | cons c text ih =>
    rw [List.cons_append, bufLinesFrom]
    by_cases hc : c = '\n'
    · rw [if_pos hc, List.flatten_cons, List.length_append]
      have := ih []
      have := length_stripCr_le cur
      simp only [List.length_nil, List.length_cons] at *
      omega
    · rw [if_neg hc]
      have := ih (cur ++ [c])
      simp only [List.length_append, List.length_cons, List.length_nil] at this ⊢
      omega

theorem length_eventLinesFrom_le (cr : Bool) (cur text : List Char) :
    (eventLinesFrom cr cur (text ++ ['\n'])).flatten.length ≤ cur.length + text.length := by
  -- induction on the text: a character is kept in the line begun, or it ends the line
  induction text generalizing cr cur with
  | nil =>
    cases cr with
    | true => exact Nat.zero_le _
    | false =>
      have hline : (cur :: []).flatten.length = cur.length := by rw [List.flatten_singleton]
      exact Nat.le_of_eq hline
  | cons c text ih =>
    rw [List.cons_append, eventLinesFrom]
    have h0 := ih false []
    have h1 := ih true []
    have h2 := ih false (cur ++ [c])
    simp only [List.length_append, List.length_cons, List.length_nil] at h0 h1 h2 ⊢
    by_cases hc : c = '\n'
    · rw [if_pos hc]
      cases cr with
      | true => simp only [if_true]; omega
      | false =>
        show (cur :: eventLinesFrom false [] (text ++ ['\n'])).flatten.length ≤ _
        rw [List.flatten_cons, List.length_append]
        omega
    · rw [if_neg hc]
      by_cases hr : c = '\r'
      · rw [if_pos hr, List.flatten_cons, List.length_append]
        omega
      · rw [if_neg hr]
        omega

end RtsPipeline.Lib
