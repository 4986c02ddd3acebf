/-
  Event streams: how the lines of a `text/event-stream` become payloads.

  A line is a field; a blank line closes the block begun; the values of a block's data fields,
  joined by LF, are its payload.  `decode` follows the specification to the letter, with its data
  buffer and the LF it appends after each value and removes at the dispatch.  `payloads` keeps the
  values apart instead and takes the reading of a data line as a parameter, so it also describes
  decoders that read data lines in another way; `dispatch_eq` says that `decode` is one of its
  instances.

  A byte order mark at the start of a stream, which a decoder drops, is not described here.

  1. `decode` — the specification.
  2. `payloads` — the same over values, and `dispatch_eq`.
  3. `blocks` — a payload depends on the lines of its own block only.
  4. `filterMap_eq_iff` — when two readings of the same blocks agree.
  5. `length_payloads_le` — a payload has no more characters than the lines it comes from.
-/
import Mathlib.Data.List.Basic
import RtsPipeline.Lib.Lines

namespace RtsPipeline.Lib.Sse

/-- The value of a field without the space that may stand after its colon. -/
def dropSpace : List Char → List Char
  | ' ' :: value => value
  | value => value

/-- The name and the value of a field.  A comment has the empty name. -/
def field (line : List Char) : List Char × List Char :=
  (line.takeWhile (· ≠ ':'), dropSpace ((line.dropWhile (· ≠ ':')).drop 1))

/-- The value of a data field. -/
def dataValue (line : List Char) : Option (List Char) :=
  if (field line).1 = "data".toList then some (field line).2 else none

/-- The payloads dispatched after the data buffer `buffer`. -/
def dispatch : List Char → List (List Char) → List (List Char)
  | _, [] => []
  | buffer, line :: lines =>
    if line = [] then
      if buffer = [] then dispatch [] lines else buffer.dropLast :: dispatch [] lines
    else
      match dataValue line with
      | some value => dispatch (buffer ++ value ++ ['\n']) lines
      | none => dispatch buffer lines

/-- The payloads of a stream. -/
def decode (text : List Char) : List (List Char) := dispatch [] (eventLines text)

/-! ## The values of a block

The specification appends an LF to every value and takes the last one away; a decoder in a program
joins the values by LF. The two are the same, but for a block without values, which both leave
out. -/

/-- The values of a block as one payload. -/
def join (values : List (List Char)) : List Char := ['\n'].intercalate values

@[simp] theorem join_nil : join [] = [] := rfl

@[simp] theorem join_singleton (value : List Char) : join [value] = value :=
  List.intercalate_singleton

theorem join_cons {values : List (List Char)} (h : values ≠ []) (value : List Char) :
    join (value :: values) = value ++ '\n' :: join values := by
  rw [join, List.intercalate_cons_of_ne_nil h, List.append_assoc]
  rfl

/-- A payload has the characters of its values and one LF between two of them. -/
theorem length_join {values : List (List Char)} (h : values ≠ []) :
    (join values).length + 1 = values.flatten.length + values.length := by
  induction values with
  | nil => exact absurd rfl h
  | cons value values ih =>
    by_cases hv : values = []
    · subst hv
      simp
    · have := ih hv
      rw [join_cons hv]
      simp only [List.length_append, List.length_cons, List.flatten_cons]
      omega

/-- The payloads completed by `lines` after the values `values` of a block. -/
def payloads (value? : List Char → Option (List Char)) :
    List (List Char) → List (List Char) → List (List Char)
  | _, [] => []
  | values, line :: lines =>
    if line = [] then
      if values = [] then payloads value? [] lines
      else join values :: payloads value? [] lines
    else payloads value? (values ++ (value? line).toList) lines

/-- The data buffer that holds `values`. -/
def buffer (values : List (List Char)) : List Char := values.flatMap (· ++ ['\n'])

theorem buffer_eq_nil {values : List (List Char)} : buffer values = [] ↔ values = [] := by
  cases values with
  | nil => exact ⟨fun _ => rfl, fun _ => rfl⟩
  | cons value values => simp [buffer]

/-- The buffer ends with the LF that the dispatch removes. -/
theorem buffer_eq {values : List (List Char)} (h : values ≠ []) :
    buffer values = join values ++ ['\n'] := by
  induction values with
  | nil => exact absurd rfl h
  | cons value values ih =>
    by_cases hv : values = []
    · subst hv
      simp [buffer]
    · rw [join_cons hv, buffer, List.flatMap_cons]
      show value ++ ['\n'] ++ buffer values = _
      rw [ih hv]
      simp

/-- The specification keeps the values of a block in order.  The LF that `dispatch` appends at once
    is put between the values by `join`. -/
theorem dispatch_eq (values lines : List (List Char)) :
    dispatch (buffer values) lines = payloads dataValue values lines := by
  induction lines generalizing values with
  | nil => rfl
  | cons line lines ih =>
    rw [dispatch, payloads]
    by_cases hl : line = []
    · rw [if_pos hl, if_pos hl]
      by_cases hv : values = []
      · rw [if_pos (buffer_eq_nil.mpr hv), if_pos hv]
        exact ih []
      · rw [if_neg fun hb => hv (buffer_eq_nil.mp hb), if_neg hv, buffer_eq hv,
          List.dropLast_concat]
        exact congrArg (join values :: ·) (ih [])
    · rw [if_neg hl, if_neg hl]
      cases hd : dataValue line with
      | none =>
        rw [Option.toList_none, List.append_nil]
        exact ih values
      | some value =>
        rw [Option.toList_some, ← ih]
        show dispatch (buffer values ++ value ++ ['\n']) lines = _
        congr 1
        simp [buffer]

theorem decode_eq (text : List Char) : decode text = payloads dataValue [] (eventLines text) :=
  dispatch_eq [] (eventLines text)

/-! ## Data fields

Which lines are data fields, and what is left of them.  The bare name counts as a field with an
empty value. -/

/-- A data field is the bare name or has a value after the colon. -/
theorem dataValue_eq_some {line value : List Char} :
    dataValue line = some value ↔
      line = "data".toList ∧ value = [] ∨
        ∃ rest, line = "data:".toList ++ rest ∧ value = dropSpace rest := by
  unfold dataValue field
  constructor
  · intro h
    split at h
    · rename_i hname
      obtain rfl := Option.some.inj h
      have hline := List.takeWhile_append_dropWhile (p := (· ≠ ':')) (l := line)
      rw [show line.takeWhile (· ≠ ':') = "data".toList from hname] at hline
      cases hd : line.dropWhile (· ≠ ':') with
      | nil =>
        rw [hd, List.append_nil] at hline
        exact Or.inl ⟨hline.symm, rfl⟩
      | cons c rest =>
        rw [hd] at hline
        -- what stopped the name is a colon
        have hc : c = ':' := by
          have := List.head?_dropWhile_not (· ≠ ':') line
          rw [hd] at this
          simpa using this
        refine Or.inr ⟨rest, ?_, rfl⟩
        rw [← hline, hc]
        rfl
    · exact nomatch h
  · rintro (⟨rfl, rfl⟩ | ⟨rest, rfl, rfl⟩)
    · rfl
    · have h1 : ("data:".toList ++ rest).takeWhile (· ≠ ':') = "data".toList := by
        simp
      have h2 : ("data:".toList ++ rest).dropWhile (· ≠ ':') = ':' :: rest := by
        simp
      rw [h1, h2, if_pos rfl]
      rfl

/-- At most one space is removed. -/
theorem length_dropSpace (rest : List Char) :
    (dropSpace rest).length ≤ rest.length ∧ rest.length ≤ (dropSpace rest).length + 1 := by
  unfold dropSpace
  split
  · simp
  · simp

/-- The characters of a data line outlast its value by more than the LF. -/
theorem length_dataValue (line value : List Char) (h : dataValue line = some value) :
    value.length + 1 ≤ line.length := by
  rcases dataValue_eq_some.mp h with ⟨rfl, rfl⟩ | ⟨rest, rfl, rfl⟩
  · decide
  · have := (length_dropSpace rest).1
    rw [List.length_append]
    show (dropSpace rest).length + 1 ≤ 5 + rest.length
    omega

/-! ## One block at a time

A blank line forgets everything before it.  So a stream is the list of its blocks, and a statement
about two decoders is one about two readings of a block. -/

/-- The blocks closed by a blank line, after the lines `block` of one begun. -/
def blocks : List (List Char) → List (List Char) → List (List (List Char))
  | _, [] => []
  | block, line :: lines =>
    if line = [] then block :: blocks [] lines else blocks (block ++ [line]) lines

section

variable (value? : List Char → Option (List Char))

/-- The payload of one block. -/
def payload (block : List (List Char)) : Option (List Char) :=
  if block.filterMap value? = [] then none else some (join (block.filterMap value?))

theorem payloads_eq (block lines : List (List Char)) :
    payloads value? (block.filterMap value?) lines =
      (blocks block lines).filterMap (payload value?) := by
  induction lines generalizing block with
  | nil => rfl
  | cons line lines ih =>
    rw [payloads, blocks]
    by_cases hl : line = []
    · rw [if_pos hl, if_pos hl]
      by_cases hv : block.filterMap value? = []
      · rw [if_pos hv, List.filterMap_cons_none (by rw [payload, if_pos hv])]
        exact ih []
      · rw [if_neg hv, List.filterMap_cons_some (by rw [payload, if_neg hv])]
        exact congrArg _ (ih [])
    · rw [if_neg hl, if_neg hl, ← ih, List.filterMap_append]
      congr 2

/-- A block of one data line. -/
theorem payloads_single {line value : List Char} (hne : line ≠ []) (h : value? line = some value) :
    payloads value? [] [line, []] = [value] := by
  rw [payloads, if_neg hne, h, Option.toList_some, List.nil_append, payloads, if_pos rfl,
    if_neg (by simp), join_singleton, payloads]

/-- What follows a blank line starts with no block begun. -/
theorem payloads_append (values before lines : List (List Char)) :
    payloads value? values (before ++ [] :: lines) =
      payloads value? values (before ++ [[]]) ++ payloads value? [] lines := by
  induction before generalizing values with
  | nil =>
    show payloads value? values ([] :: lines) = payloads value? values [[]] ++ _
    rw [payloads, payloads, if_pos rfl, if_pos rfl]
    by_cases hv : values = []
    · rw [if_pos hv, if_pos hv, payloads, List.nil_append]
    · rw [if_neg hv, if_neg hv, payloads, List.cons_append, List.nil_append]
  | cons line before ih =>
    rw [List.cons_append, List.cons_append, payloads, payloads]
    by_cases hl : line = []
    · rw [if_pos hl, if_pos hl]
      by_cases hv : values = []
      · rw [if_pos hv, if_pos hv, ih]
      · rw [if_neg hv, if_neg hv, ih, List.cons_append]
    · rw [if_neg hl, if_neg hl, ih]

/-- Payloads that were completed stay when more lines come. -/
theorem payloads_more (values before lines : List (List Char)) :
    ∃ values', payloads value? values (before ++ lines) =
      payloads value? values before ++ payloads value? values' lines := by
  induction before generalizing values with
  | nil => exact ⟨values, rfl⟩
  | cons line before ih =>
    rw [List.cons_append, payloads, payloads]
    by_cases hl : line = []
    · obtain ⟨values', h⟩ := ih []
      refine ⟨values', ?_⟩
      rw [if_pos hl, if_pos hl, h]
      by_cases hv : values = []
      · rw [if_pos hv, if_pos hv]
      · rw [if_neg hv, if_neg hv, List.cons_append]
    · rw [if_neg hl, if_neg hl]
      exact ih _

theorem payloads_mono {before lines : List (List Char)} (h : before <+: lines) :
    payloads value? [] before <+: payloads value? [] lines := by
  obtain ⟨rest, rfl⟩ := h
  obtain ⟨values', h⟩ := payloads_more value? [] before rest
  exact ⟨_, h.symm⟩

/-- Without a blank line no payload is completed. -/
theorem payloads_unblank {lines : List (List Char)} (h : [] ∉ lines) (values : List (List Char)) :
    payloads value? values lines = [] := by
  induction lines generalizing values with
  | nil => rfl
  | cons line lines ih =>
    rw [List.mem_cons, not_or] at h
    rw [payloads, if_neg (Ne.symm h.1)]
    exact ih h.2 _

/-- A line that has not ended completes no payload, so it makes no difference whether it is read. -/
theorem payloads_bufLines (text : List Char) :
    payloads value? [] (bufLines text) = payloads value? [] (endedLines text) := by
  obtain ⟨rest, hrest, hblank⟩ := bufLinesFrom_ended [] text
  obtain ⟨values', h⟩ := payloads_more value? [] (endedLines text) rest
  rw [bufLines, hrest]
  exact h.trans (by rw [payloads_unblank value? hblank, List.append_nil])

end

/-! ## Two readings of the same blocks

When the payloads of a stream are compared, it is not clear from which blocks they come.  But if one
reading has a payload wherever the other has, the two lists can only be equal if nothing was left
out. -/

/-- Where one reading gives a payload for every block the other gives one for, the payloads are
    the same only if they are so block by block. -/
theorem filterMap_eq_iff {α β : Type*} {f g : α → Option β} {l : List α}
    (h : ∀ a ∈ l, (f a).isSome → (g a).isSome) :
    l.filterMap f = l.filterMap g ↔ ∀ a ∈ l, f a = g a := by
  have hle : ∀ {l : List α}, (∀ a ∈ l, (f a).isSome → (g a).isSome) →
      (l.filterMap f).length ≤ (l.filterMap g).length := by
    intro l hl
    rw [List.length_filterMap_eq_countP, List.length_filterMap_eq_countP]
    exact List.countP_mono_left hl
  refine ⟨fun heq => ?_, fun heq => List.filterMap_congr heq⟩
  induction l with
  | nil => exact fun a ha => absurd ha List.not_mem_nil
  | cons a l ih =>
    have htail : ∀ b ∈ l, (f b).isSome → (g b).isSome :=
      fun b hb => h b (List.mem_cons_of_mem a hb)
    have hhead : f a = g a ∧ l.filterMap f = l.filterMap g := by
      cases hf : f a with
      | none =>
        rw [List.filterMap_cons_none hf] at heq
        cases hg : g a with
        | none => exact ⟨rfl, by rw [heq, List.filterMap_cons_none hg]⟩
        | some y =>
          -- the other side is one payload ahead and stays so
          rw [List.filterMap_cons_some hg] at heq
          have hlen := hle htail
          rw [heq, List.length_cons] at hlen
          exact absurd hlen (by omega)
      | some x =>
        obtain ⟨y, hg⟩ := Option.isSome_iff_exists.mp (h a List.mem_cons_self (by rw [hf]; rfl))
        rw [List.filterMap_cons_some hf, List.filterMap_cons_some hg] at heq
        obtain ⟨rfl, htl⟩ := List.cons.inj heq
        exact ⟨hg.symm, htl⟩
    intro b hb
    rcases List.mem_cons.mp hb with rfl | hb
    · exact hhead.1
    · exact ih htail hhead.2 b hb

/-! ## No characters are added

A bound for whoever has to know that a payload fits where its stream did. -/

theorem length_join_concat_le (values : List (List Char)) (value : List Char) :
    (join (values ++ [value])).length ≤ (join values).length + (value.length + 1) := by
  have hne : values ++ [value] ≠ [] := by simp
  have h := length_join hne
  rw [List.flatten_append, List.length_append, List.flatten_singleton, List.length_append,
    List.length_singleton] at h
  by_cases hv : values = []
  · subst hv
    simp
  · have := length_join hv
    omega

/-- Payloads have no more characters than the lines they come from, where a line outlasts its
    value. -/
theorem length_payloads_le {value? : List Char → Option (List Char)}
    (hv : ∀ line value, value? line = some value → value.length + 1 ≤ line.length)
    (values lines : List (List Char)) :
    (payloads value? values lines).flatten.length ≤
      (join values).length + lines.flatten.length := by
  -- induction on the lines; what a block has gathered counts as if it were a payload already
  induction lines generalizing values with
  | nil => exact Nat.zero_le _
  | cons line lines ih =>
    rw [payloads, List.flatten_cons, List.length_append]
    by_cases hl : line = []
    · rw [if_pos hl]
      have hnil := ih []
      rw [join_nil, List.length_nil] at hnil
      by_cases hvs : values = []
      · rw [if_pos hvs]
        omega
      · rw [if_neg hvs, List.flatten_cons, List.length_append]
        omega
    · rw [if_neg hl]
      cases h : value? line with
      | none =>
        rw [Option.toList_none, List.append_nil]
        have := ih values
        omega
      | some value =>
        have h1 := hv line value h
        have h2 := length_join_concat_le values value
        have h3 := ih (values ++ [value])
        rw [Option.toList_some]
        omega

end RtsPipeline.Lib.Sse
