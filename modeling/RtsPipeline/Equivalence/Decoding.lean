/-
  The two ingests side by side: which payloads each of them makes of one text stream.

  The async ingest leaves the framing to `eventsource_stream`, of which it is assumed here that it
  follows the rules of the specification for data fields and blocks, on the texts that a theorem is
  about and on no others.  The threaded ingest has its
  own framing loop, with three departures: it removes all leading spaces of a value, it does not
  know a data field without a colon, and it hands over an empty payload.  They agree on a stream
  exactly when none of its blocks is touched by one of the three.

  That each departure shows is the harder half: three differences in one block might cancel each
  other in the joined payload.  They cannot, because all of them go the same way.  The threaded
  reading of a field has never more characters than the standard one and has fewer fields, so the
  `weight` of a block, its characters and its lines, is the same only if every field is read alike.
  And a stream is compared block by block, though an empty payload moves the later ones up: the
  async side has no empty payloads, so the first difference is one of the blocks themselves.

  1. `StreamLine` — streams of LF- or CRLF-terminated lines, and what both ingests do with one.
  2. `DataField` — the two readings of a data field.
  3. `Plain` — the blocks without a departure, and `payload_eq_iff`: block by block.
  4. `decoding_alike_iff` — whole streams.
-/
import Mathlib.Data.Set.Operations
import RtsPipeline.Async.Ingest
import RtsPipeline.Threaded.Ingest

namespace RtsPipeline.Equivalence

open Lib

/-! ## Streams

A stream is given as lines with their terminators, so that both builds read the same lines of it,
whether they are ended by LF or by CR LF. -/

/-- A line of a text stream, with LF or CR LF after it. -/
structure StreamLine where
  content : Text
  crlf : Bool
  noLf : '\n' ∉ content
  noCr : '\r' ∉ content

/-- The line as it is sent. -/
def StreamLine.text (l : StreamLine) : Text :=
  l.content ++ if l.crlf then ['\r', '\n'] else ['\n']

/-- The stream of these lines. -/
def streamText (ls : List StreamLine) : Text := ls.flatMap StreamLine.text

/-- `eventsource_stream` follows the rules of the specification for data fields and blocks on these
    texts.  A byte order mark is not among the rules: the specification has one removed when bytes
    become text, and a text is what there is after that.  Of a text where a CR stands alone, nothing
    is asked unless it is among `texts`. -/
def ImplementsSse (eventsource : Text → List Async.Frame) (texts : Set Text) : Prop :=
  ∀ text ∈ texts, eventsource text = (Sse.decode text).map Async.Frame.event

/-- What the threaded `read_stream` hands to its sink, without limit or cancellation. -/
def threadedCalls (text : Text) : List Text :=
  (Threaded.readStream none (.start .never) (.opened (bufLines text) .eof)).2.calls

/-- What the async `run_sse` hands to its sink, without limit or cancellation. -/
def asyncCalls (eventsource : Text → List Async.Frame) (text : Text) : List Text :=
  (Async.runSse (.ok ()) none (.start .never) [.success (eventsource text)]).2.calls

theorem bufLines_streamText (ls : List StreamLine) :
    bufLines (streamText ls) = ls.map StreamLine.content := by
  induction ls with
  | nil => rfl
  | cons l ls ih =>
    rw [streamText, List.flatMap_cons, StreamLine.text, List.map_cons]
    cases hcr : l.crlf with
    | true =>
      -- the CR belongs to the line until it is stripped
      have hlf : '\n' ∉ l.content ++ ['\r'] := by
        rw [List.mem_append, not_or]
        exact ⟨l.noLf, by decide⟩
      show bufLines ((l.content ++ ['\r', '\n']) ++ streamText ls) = _
      rw [show (l.content ++ ['\r', '\n']) ++ streamText ls =
        (l.content ++ ['\r']) ++ '\n' :: streamText ls by simp, bufLines_line hlf,
        stripCr_append_cr, ih]
    | false =>
      show bufLines ((l.content ++ ['\n']) ++ streamText ls) = _
      rw [List.append_assoc, List.singleton_append, bufLines_line l.noLf,
        stripCr_of_not_mem l.noCr, ih]

theorem eventLines_streamText (ls : List StreamLine) :
    eventLines (streamText ls) = ls.map StreamLine.content := by
  induction ls with
  | nil => rfl
  | cons l ls ih =>
    rw [streamText, List.flatMap_cons, StreamLine.text, List.map_cons]
    cases hcr : l.crlf with
    | true =>
      show eventLines ((l.content ++ ['\r', '\n']) ++ streamText ls) = _
      rw [List.append_assoc]
      show eventLinesFrom false [] (l.content ++ '\r' :: '\n' :: streamText ls) = _
      rw [eventLinesFrom_crlf l.noLf l.noCr, ih, List.nil_append]
    | false =>
      show eventLines ((l.content ++ ['\n']) ++ streamText ls) = _
      rw [List.append_assoc]
      show eventLinesFrom false [] (l.content ++ '\n' :: streamText ls) = _
      rw [eventLinesFrom_lf l.noLf l.noCr, ih, List.nil_append]

/-- The threaded ingest hands over the payloads of its framing loop. -/
theorem threadedCalls_eq (text : Text) :
    threadedCalls text = Sse.payloads Threaded.dataLine [] (bufLines text) := by
  unfold threadedCalls
  rw [Threaded.readStream_through (Flag.not_setWithin_never _) rfl]
  rfl

/-- The async ingest hands over the events that are not empty. -/
theorem asyncCalls_eq {eventsource : Text → List Async.Frame} {texts : Set Text}
    (h : ImplementsSse eventsource texts) {text : Text} (htext : text ∈ texts) :
    asyncCalls eventsource text = (Sse.decode text).filter (· ≠ []) := by
  show (Async.runLoop none (.start .never) [.success (eventsource text)]).2.calls = _
  rw [Async.runLoop_never, h text htext, List.filterMap_map, ← List.filterMap_eq_filter]
  refine List.filterMap_congr fun data _ => ?_
  show (if data = [] then none else some data) = Option.guard _ data
  by_cases hd : data = [] <;> simp [hd, Option.guard]

/-! ## Data fields

The two readings of one line: the specification removes one space after the colon, the threaded
ingest all of them, and only the specification takes a bare name for a field. -/

/-- A data field: the bare name, or what comes after its colon. -/
inductive DataField
  | bare
  | value (rest : Text)
deriving DecidableEq, Repr

/-- The data field of a line. -/
def dataField? (line : Text) : Option DataField :=
  if line = "data".toList then some .bare
  else ("data:".toList.isPrefixOf? line).map .value

namespace DataField

/-- What the threaded ingest reads. -/
def threaded : DataField → Option Text
  | bare => none
  | value rest => some (rest.dropWhile (· = ' '))

/-- What the specification reads. -/
def standard : DataField → Text
  | bare => []
  | value rest => Sse.dropSpace rest

end DataField

theorem dataLine_eq (line : Text) :
    Threaded.dataLine line = (dataField? line).bind DataField.threaded := by
  unfold Threaded.dataLine dataField?
  by_cases hl : line = "data".toList
  · subst hl
    rfl
  · rw [if_neg hl]
    cases "data:".toList.isPrefixOf? line <;> rfl

theorem dataValue_eq (line : Text) :
    Sse.dataValue line = (dataField? line).map DataField.standard := by
  unfold dataField?
  by_cases hl : line = "data".toList
  · subst hl
    rfl
  · rw [if_neg hl]
    cases hp : "data:".toList.isPrefixOf? line with
    | none =>
      refine Option.eq_none_iff_forall_ne_some.mpr fun v hv => ?_
      rcases Sse.dataValue_eq_some.mp hv with ⟨h, _⟩ | ⟨rest, h, _⟩
      · exact hl h
      · rw [List.isPrefixOf?_eq_some_iff_append_eq.mpr h.symm] at hp
        exact nomatch hp
    | some rest =>
      rw [List.isPrefixOf?_eq_some_iff_append_eq] at hp
      exact Sse.dataValue_eq_some.mpr (Or.inr ⟨rest, hp.symm, rfl⟩)

/-- The threaded reading of a value is a tail of the standard one. -/
theorem dropWhile_suffix_dropSpace (rest : Text) :
    rest.dropWhile (· = ' ') <:+ Sse.dropSpace rest := by
  unfold Sse.dropSpace
  split
  · rename_i value
    rw [List.dropWhile_cons_of_pos (by simp)]
    exact List.dropWhile_suffix _
  · exact List.dropWhile_suffix _

/-- The two readings of a value differ exactly when it starts with two spaces. -/
theorem dropWhile_eq_dropSpace {rest : Text} :
    rest.dropWhile (· = ' ') = Sse.dropSpace rest ↔ ¬ [' ', ' '] <+: rest := by
  cases rest with
  | nil => simp [Sse.dropSpace]
  | cons c rest =>
    by_cases hc : c = ' '
    · subst hc
      show (' ' :: rest).dropWhile (· = ' ') = rest ↔ _
      rw [List.dropWhile_cons_of_pos (by simp), List.cons_prefix_cons]
      cases rest with
      | nil => simp
      | cons d rest =>
        by_cases hd : d = ' '
        · subst hd
          rw [List.dropWhile_cons_of_pos (by simp)]
          refine iff_of_false (fun h => ?_) fun h => h ⟨rfl, rest, rfl⟩
          have := (List.dropWhile_suffix (p := (· = ' ')) (l := rest)).length_le
          rw [h, List.length_cons] at this
          omega
        · rw [List.dropWhile_cons_of_neg (by simpa using hd)]
          apply iff_of_true rfl
          rw [List.cons_prefix_cons]
          exact fun h => hd h.2.1.symm
    · rw [List.dropWhile_cons_of_neg (by simpa using hc), List.cons_prefix_cons]
      have hdrop : Sse.dropSpace (c :: rest) = c :: rest := by
        unfold Sse.dropSpace
        split
        · rename_i h
          exact absurd (List.cons.inj h).1 hc
        · rfl
      exact iff_of_true hdrop.symm fun h => hc h.1.symm

/-! ## One block

  A block's payload is made of its data fields only, so both readings are compared over a list of
  these.  What a reading gives is nothing if there is no field, and the fields' values joined by
  line breaks otherwise; the async ingest drops the empty one. -/

/-- Data fields without a departure: no value starts with two spaces, a bare field stands alone,
    and no empty value does. -/
def PlainFields (fields : List DataField) : Prop :=
  (∀ rest, .value rest ∈ fields → ¬ [' ', ' '] <+: rest) ∧
    (.bare ∈ fields → fields = [.bare]) ∧ fields ≠ [.value []] ∧ fields ≠ [.value [' ']]

/-- A block without a departure. -/
def Plain (block : List Text) : Prop := PlainFields (block.filterMap dataField?)

/-- What the threaded ingest makes of a block. -/
def threadedPayload (block : List Text) : Option Text := Sse.payload Threaded.dataLine block

/-- What the async ingest makes of a block. -/
def asyncPayload (block : List Text) : Option Text :=
  (Sse.payload Sse.dataValue block).filter (· ≠ [])

/-- The characters and the number of some values: one more than their payload has characters. -/
def weight (values : List Text) : Nat := values.flatten.length + values.length

theorem weight_nil : weight [] = 0 := rfl

theorem weight_cons (value : Text) (values : List Text) :
    weight (value :: values) = value.length + 1 + weight values := by
  simp only [weight, List.flatten_cons, List.length_append, List.length_cons]
  omega

theorem weight_join {values : List Text} (h : values ≠ []) :
    (Sse.join values).length + 1 = weight values := Sse.length_join h

/-- The threaded reading weighs no more, and less unless it is the standard one. -/
theorem weight_le (fields : List DataField) :
    weight (fields.filterMap DataField.threaded) ≤ weight (fields.map DataField.standard) ∧
      (weight (fields.map DataField.standard) ≤ weight (fields.filterMap DataField.threaded) →
        ∀ f ∈ fields, f.threaded = some f.standard) := by
  -- induction on the fields; a bare one has a weight in one reading only
  induction fields with
  | nil => exact ⟨Nat.le_refl _, fun _ f hf => absurd hf List.not_mem_nil⟩
  | cons f fields ih =>
    obtain ⟨hle, heq⟩ := ih
    rw [List.map_cons, weight_cons]
    cases f with
    | bare =>
      rw [List.filterMap_cons_none rfl]
      constructor
      · omega
      · intro h
        omega
    | value rest =>
      have hsuffix := dropWhile_suffix_dropSpace rest
      have hread : (DataField.value rest).threaded = some (rest.dropWhile (· = ' ')) := rfl
      rw [List.filterMap_cons_some hread, weight_cons]
      show _ ≤ (Sse.dropSpace rest).length + 1 + _ ∧
        ((Sse.dropSpace rest).length + 1 + _ ≤ _ → _)
      have := hsuffix.length_le
      -- what is left by dropping more is a suffix, and one of the same length is the same
      refine ⟨by omega, fun h g hg => ?_⟩
      rcases List.mem_cons.mp hg with rfl | hg
      · exact congrArg some (hsuffix.eq_of_length (by omega))
      · exact heq (by omega) g hg

/-- Values that make no payload.  The LF between two values has a weight of its own, so there is one
    value at most. -/
theorem join_eq_nil {values : List Text} (h : Sse.join values = []) :
    values = [] ∨ values = [[]] := by
  by_cases hv : values = []
  · exact Or.inl hv
  · have hw := weight_join hv
    rw [h, List.length_nil] at hw
    cases values with
    | nil => exact absurd rfl hv
    | cons value values =>
      rw [weight_cons] at hw
      cases values with
      | nil =>
        rw [weight_nil] at hw
        rw [List.length_eq_zero_iff.mp (show value.length = 0 by omega)]
        exact Or.inr rfl
      | cons value' values =>
        rw [weight_cons] at hw
        omega

theorem dropSpace_eq_nil {rest : Text} : Sse.dropSpace rest = [] ↔ rest = [] ∨ rest = [' '] := by
  unfold Sse.dropSpace
  split
  · rename_i value
    simp
  · rename_i h
    refine ⟨Or.inl, fun h' => h'.elim id fun h' => ?_⟩
    exact absurd h' (h [])

/-- The threaded payload of some data fields. -/
def threadedJoin (fields : List DataField) : Option Text :=
  if fields.filterMap DataField.threaded = [] then none
  else some (Sse.join (fields.filterMap DataField.threaded))

/-- The standard payload of some data fields, unless it is empty. -/
def standardJoin (fields : List DataField) : Option Text :=
  (if fields.map DataField.standard = [] then none
    else some (Sse.join (fields.map DataField.standard))).filter (· ≠ [])

theorem standardJoin_eq_none {fields : List DataField} :
    standardJoin fields = none ↔
      fields.map DataField.standard = [] ∨ fields.map DataField.standard = [[]] := by
  unfold standardJoin
  constructor
  · intro h
    by_cases hV : fields.map DataField.standard = []
    · exact Or.inl hV
    · rw [if_neg hV, Option.filter_some] at h
      refine join_eq_nil (by_contra fun hne => ?_)
      rw [if_pos (by simpa using hne)] at h
      exact nomatch h
  · rintro (h | h) <;> rw [h] <;> rfl

theorem standardJoin_eq_some {fields : List DataField} {payload : Text} :
    standardJoin fields = some payload ↔
      Sse.join (fields.map DataField.standard) = payload ∧ payload ≠ [] := by
  unfold standardJoin
  rw [Option.filter_eq_some_iff]
  by_cases hV : fields.map DataField.standard = []
  · rw [if_pos hV, hV, Sse.join_nil]
    refine iff_of_false (fun h => nomatch h.1) fun h => h.2 h.1.symm
  · rw [if_neg hV, Option.some_inj, decide_eq_true_iff]

/-- A bare field is read by the specification only. -/
theorem threaded_eq_nil {fields : List DataField}
    (h : fields.filterMap DataField.threaded = []) : ∀ f ∈ fields, f = .bare := by
  intro f hf
  have := List.filterMap_eq_nil_iff.mp h f hf
  cases f with
  | bare => rfl
  | value rest => exact nomatch this

/-- **Block by block**, over data fields. -/
theorem plainFields_iff (fields : List DataField) :
    threadedJoin fields = standardJoin fields ↔ PlainFields fields := by
  unfold threadedJoin
  by_cases hT : fields.filterMap DataField.threaded = []
  · -- the threaded ingest sees no data
    rw [if_pos hT, eq_comm, standardJoin_eq_none, List.map_eq_nil_iff]
    have hbare := threaded_eq_nil hT
    constructor
    · rintro (rfl | h)
      · exact ⟨fun _ hm => absurd hm List.not_mem_nil, fun hm => absurd hm List.not_mem_nil,
          by decide, by decide⟩
      · obtain ⟨f, rfl, _⟩ := List.map_eq_singleton_iff.mp h
        obtain rfl := hbare f List.mem_cons_self
        refine ⟨fun rest hm => ?_, fun _ => rfl, by decide, by decide⟩
        exact nomatch List.mem_singleton.mp hm
    · rintro ⟨_, halone, _, _⟩
      cases fields with
      | nil => exact Or.inl rfl
      | cons f fields =>
        obtain rfl := hbare f List.mem_cons_self
        rw [halone List.mem_cons_self]
        exact Or.inr rfl
  · rw [if_neg hT, eq_comm, standardJoin_eq_some]
    obtain ⟨_, hagree⟩ := weight_le fields
    constructor
    · -- equal payloads weigh the same, so every field is read alike
      rintro ⟨hjoin, hne⟩
      have hV : fields.map DataField.standard ≠ [] := by
        intro h
        rw [h, Sse.join_nil] at hjoin
        exact hne hjoin.symm
      have halike := hagree (Nat.le_of_eq (by rw [← weight_join hV, ← weight_join hT, hjoin]))
      refine ⟨fun rest hm => ?_, fun hm => (nomatch halike _ hm), ?_, ?_⟩
      · exact dropWhile_eq_dropSpace.mp (Option.some.inj (halike _ hm))
      · rintro rfl
        exact hne hjoin.symm
      · rintro rfl
        exact hne hjoin.symm
    · rintro ⟨hspaces, halone, hempty, hspace⟩
      -- a bare field would stand alone, but the threaded ingest sees data
      have hbare : .bare ∉ fields := by
        intro hm
        rw [halone hm] at hT
        exact hT rfl
      have halike : ∀ f ∈ fields, f.threaded = some f.standard := by
        intro f hf
        cases f with
        | bare => exact absurd hf hbare
        | value rest => exact congrArg some (dropWhile_eq_dropSpace.mpr (hspaces rest hf))
      have hsame : fields.filterMap DataField.threaded = fields.map DataField.standard := by
        rw [List.filterMap_congr halike, ← List.filterMap_eq_map]
        rfl
      rw [hsame] at hT ⊢
      refine ⟨rfl, fun hjoin => ?_⟩
      rcases join_eq_nil hjoin with h | h
      · exact hT h
      · obtain ⟨f, rfl, hf⟩ := List.map_eq_singleton_iff.mp h
        cases f with
        | bare => exact hbare List.mem_cons_self
        | value rest =>
          rcases dropSpace_eq_nil.mp hf with rfl | rfl
          · exact hempty rfl
          · exact hspace rfl

/-- Where the threaded payload is not empty, there is a standard one.  The standard values are at
    least as long, so they are not all empty either. -/
theorem standardJoin_isSome {fields : List DataField} {payload : Text}
    (h : threadedJoin fields = some payload) (hne : payload ≠ []) :
    (standardJoin fields).isSome := by
  unfold threadedJoin at h
  split at h
  · exact nomatch h
  · rename_i hT
    obtain rfl := Option.some.inj h
    have hle := (weight_le fields).1
    have hpos := List.length_pos_iff.mpr hne
    have hwT := weight_join hT
    have hV : fields.map DataField.standard ≠ [] := by
      intro hV
      rw [hV, weight_nil] at hle
      omega
    have hwV := weight_join hV
    rw [Option.isSome_iff_exists]
    refine ⟨_, standardJoin_eq_some.mpr ⟨rfl, List.length_pos_iff.mp ?_⟩⟩
    omega

theorem threadedPayload_eq (block : List Text) :
    threadedPayload block = threadedJoin (block.filterMap dataField?) := by
  have hT : block.filterMap Threaded.dataLine =
      (block.filterMap dataField?).filterMap DataField.threaded := by
    rw [List.filterMap_filterMap]
    exact List.filterMap_congr fun line _ => dataLine_eq line
  rw [threadedPayload, Sse.payload, hT, threadedJoin]

theorem asyncPayload_eq (block : List Text) :
    asyncPayload block = standardJoin (block.filterMap dataField?) := by
  have hV : block.filterMap Sse.dataValue =
      (block.filterMap dataField?).map DataField.standard := by
    rw [List.map_filterMap]
    exact List.filterMap_congr fun line _ => dataValue_eq line
  rw [asyncPayload, Sse.payload, hV, standardJoin]

/-! ## Whole streams

A stream is alike to both if each of its blocks is.  The other direction is `filterMap_eq_iff`: a
block that one of them makes something of and the other does not is never made up for by a later
one. -/

theorem threadedCalls_blocks (ls : List StreamLine) :
    threadedCalls (streamText ls) =
      (Sse.blocks [] (ls.map StreamLine.content)).filterMap threadedPayload := by
  rw [threadedCalls_eq, bufLines_streamText]
  exact Sse.payloads_eq Threaded.dataLine [] _

theorem asyncCalls_blocks {eventsource : Text → List Async.Frame}
    (h : ImplementsSse eventsource (Set.range streamText)) (ls : List StreamLine) :
    asyncCalls eventsource (streamText ls) =
      (Sse.blocks [] (ls.map StreamLine.content)).filterMap asyncPayload := by
  rw [asyncCalls_eq h (Set.mem_range_self ls), Sse.decode_eq, eventLines_streamText]
  show ((Sse.payloads Sse.dataValue (([] : List Text).filterMap Sse.dataValue) _).filter _) = _
  rw [Sse.payloads_eq, ← List.filterMap_eq_filter, List.filterMap_filterMap]
  refine List.filterMap_congr fun block _ => ?_
  unfold asyncPayload
  cases Sse.payload Sse.dataValue block <;> rfl

/-- **The two ingests decode alike** exactly the streams all of whose closed blocks are plain.  The
    async one makes of every stream what the specification says, less the empty payloads.

    Both sides are the payloads of the same blocks, under two readings.  What the threaded ingest
    makes something of, the async one does too, so equal lists are equal block by block, and one
    block is `plainFields_iff`, a comparison of weights. -/
theorem decoding_alike_iff (eventsource : Text → List Async.Frame)
    (h : ImplementsSse eventsource (Set.range streamText)) (ls : List StreamLine) :
    asyncCalls eventsource (streamText ls) =
      (Sse.blocks [] (ls.map StreamLine.content)).filterMap asyncPayload ∧
    (threadedCalls (streamText ls) = asyncCalls eventsource (streamText ls) ↔
      ∀ block ∈ Sse.blocks [] (ls.map StreamLine.content), Plain block) := by
  refine ⟨asyncCalls_blocks h ls, ?_⟩
  rw [threadedCalls_blocks, asyncCalls_blocks h]
  generalize Sse.blocks [] (ls.map StreamLine.content) = blocks
  have hplain : ∀ block, threadedPayload block = asyncPayload block ↔ Plain block := by
    intro block
    rw [threadedPayload_eq, asyncPayload_eq]
    exact plainFields_iff _
  constructor
  · intro heq
    have hsome : ∀ block ∈ blocks, (threadedPayload block).isSome →
        (asyncPayload block).isSome := by
      intro block hb hs
      obtain ⟨payload, hp⟩ := Option.isSome_iff_exists.mp hs
      have hmem : payload ∈ blocks.filterMap asyncPayload := by
        rw [← heq]
        exact List.mem_filterMap.mpr ⟨block, hb, hp⟩
      -- the async side has no empty payload, so this one is not empty
      obtain ⟨block', _, hp'⟩ := List.mem_filterMap.mp hmem
      rw [asyncPayload_eq, standardJoin_eq_some] at hp'
      rw [threadedPayload_eq] at hp
      rw [asyncPayload_eq]
      exact standardJoin_isSome hp hp'.2
    intro block hb
    exact (hplain block).mp ((Sse.filterMap_eq_iff hsome).mp heq block hb)
  · intro hall
    exact List.filterMap_congr fun block hb => (hplain block).mpr (hall block hb)

/-- One plain block, `data: a`, closed by a blank line. -/
theorem decoding_alike_plain :
    let ls : List StreamLine :=
      [⟨"data: a".toList, false, by decide, by decide⟩, ⟨[], true, by decide, by decide⟩]
    threadedCalls (streamText ls) =
      asyncCalls (fun text => (Sse.decode text).map .event) (streamText ls) := by
  intro ls
  refine (decoding_alike_iff _ (fun _ _ => rfl) ls).2.mpr fun block hb => ?_
  have hblocks : Sse.blocks [] (ls.map StreamLine.content) = [["data: a".toList]] := rfl
  rw [hblocks, List.mem_singleton] at hb
  rw [hb]
  show PlainFields [.value [' ', 'a']]
  refine ⟨fun rest hm => ?_, fun hm => (nomatch List.mem_singleton.mp hm), by decide, by decide⟩
  obtain rfl := DataField.value.inj (List.mem_singleton.mp hm)
  decide

/-- A value after two spaces: the threaded ingest removes both. -/
theorem decoding_not_alike : ¬ ∀ eventsource, ImplementsSse eventsource (Set.range streamText) → ∀ ls,
    threadedCalls (streamText ls) = asyncCalls eventsource (streamText ls) := by
  intro h
  have := h (fun text => (Sse.decode text).map .event) (fun _ _ => rfl)
    [⟨"data:  x".toList, false, by decide, by decide⟩, ⟨[], false, by decide, by decide⟩]
  rw [threadedCalls_blocks, asyncCalls_blocks fun _ _ => rfl] at this
  exact absurd this (by decide)

end RtsPipeline.Equivalence
