/-
  A recording that was cut short: the program is killed, the disk is full, the writer panics.

  Whatever the moment, the file holds the beginning of the text of a whole recording.  It may end
  inside a line, and a piece of a line is no envelope: that `serde_json` refuses it is one more
  thing relied on (`RefusesTorn`), which the compact form has.

  The invariant is smaller than that of a recording that goes well.  It does not ask where every
  envelope is, only that the file and the buffer together are a beginning of the text of what was
  sent: a write appends the next line or a piece of it, a spill moves characters from one to the
  other, a further send makes the text longer.  A writer that failed or panicked writes no more, so
  what it left stays a beginning for good, however long the main task goes on sending.

  What the loader makes of a beginning is a question about texts.  Its lines are those of the text,
  but for the last, which is whole, a piece, or cut inside a character when the file was.

  1. `compact_refusesTorn` — a piece of the compact text is refused.
  2. `whole_of_front` — the beginning of a recording: whole lines, and at most one piece.
  3. `Spared` — the file and the buffer hold the beginning of the text of what was sent.
  4. `interrupted_recording` — what a file that was left at any moment loads as.
-/
import Mathlib.Algebra.GroupWithZero.Nat
import RtsPipeline.Replay.Record

namespace RtsPipeline.Replay

open Lib

variable {ε ι : Type}

/-- The beginning of an envelope's text is not blank and is no envelope. -/
structure SerdeJson.RefusesTorn (serde : SerdeJson ε) : Prop where
  visible : ∀ env text, text <+: serde.toVec env → text ≠ [] → isBlank text = false
  refuses : ∀ env text, text <+: serde.toVec env → text ≠ serde.toVec env →
    ∃ source, serde.fromStr text = .error source

/-! ## The compact form

That a piece of an envelope is refused is an assumption about `serde_json` elsewhere.  Here it is
proved of the writer the witnesses use, so that the assumption is known to be met. -/

theorem opening_eq : opening = '{' :: "\"data\":\"".toList := by decide

/-- Nothing follows an envelope inside the text of an envelope. -/
theorem eq_nil_of_ofCompact {text more : Text} {env env' : Envelope}
    (h : ofCompact text = some env') (hmore : text ++ more = toCompact env) : more = [] := by
  simp only [ofCompact, Option.bind_eq_bind] at h
  obtain ⟨text₁, hopen, h⟩ := Option.bind_eq_some_iff.mp h
  obtain ⟨⟨data, text₂⟩, hread, h⟩ := Option.bind_eq_some_iff.mp h
  obtain ⟨text₃, hmid, h⟩ := Option.bind_eq_some_iff.mp h
  obtain ⟨⟨hclose, _⟩, _⟩ := Option.ite_none_right_eq_some.mp h
  -- what each of the three parts leaves of the whole text
  have hrest : text₁ ++ more =
      env.data.flatMap JsonString.escape ++ '"' :: (middle ++ closing env.recvNs.toNat) := by
    rw [← List.isPrefixOf?_eq_some_iff_append_eq.mp hopen, List.append_assoc] at hmore
    exact List.append_cancel_left hmore
  have hafter : text₂ ++ more = middle ++ closing env.recvNs.toNat := by
    have hwhole := JsonString.readFrom_append more hread
    rw [hrest] at hwhole
    exact (Prod.mk.inj (Option.some.inj (hwhole.symm.trans (JsonString.read_escaped _ _)))).2
  have hnumber : text₃ ++ more = closing env.recvNs.toNat := by
    have hmid : middle.isPrefixOf? text₂ = some text₃ := hmid
    rw [← List.isPrefixOf?_eq_some_iff_append_eq.mp hmid, List.append_assoc] at hafter
    exact List.append_cancel_left hafter
  -- the digits of both are followed by the one brace
  have hdrop : ∀ (n : Nat) (text : Text),
      (Nat.toDigits 10 n ++ '}' :: text).dropWhile Char.isDigit = '}' :: text := by
    intro n text
    rw [List.dropWhile_append_of_pos
      (fun _ hc => Nat.isDigit_of_mem_toDigits (by decide) (by decide) hc),
      List.dropWhile_cons_of_neg (by decide)]
  have hbrace := congrArg (List.dropWhile Char.isDigit) hnumber
  rw [hclose, closing, closing, List.append_assoc, List.singleton_append, hdrop, hdrop] at hbrace
  exact List.tail_eq_of_cons_eq hbrace

/-- **The compact form** refuses what is torn.  A piece of an envelope that parsed would be all of
    it. -/
theorem compact_refusesTorn : compact.RefusesTorn where
  visible env text htext hne := by
    obtain ⟨more, hmore⟩ := htext
    cases text with
    | nil => exact absurd rfl hne
    | cons c text =>
      have hmore : c :: (text ++ more) = opening ++ _ := hmore
      rw [opening_eq, List.cons_append] at hmore
      obtain rfl := (List.cons.inj hmore).1
      rfl
  refuses env text htext hne := by
    obtain ⟨more, hmore⟩ := htext
    refine ⟨(), ?_⟩
    show (ofCompact text).elim _ _ = _
    cases h : ofCompact text with
    | none => rfl
    | some env' =>
      obtain rfl := eq_nil_of_ofCompact h hmore
      rw [List.append_nil] at hmore
      exact absurd hmore hne

/-! ## The beginning of a recording

A file that was cut is whole lines and a piece of the next one.  The piece may be empty, it may
be the whole of its line without the LF, or it may be torn, and only then the loader refuses the
file. -/

/-- **The beginning of a recording** is whole lines, and a piece of the next one.  It ends inside
    the first line, or after it, which is the induction. -/
theorem whole_of_front {serde : SerdeJson ε} {envs : List Envelope} {text : Text}
    (h : text <+: envs.flatMap (ndjsonLine serde)) :
    ∃ whole rest piece, envs = whole ++ rest ∧
      text = whole.flatMap (ndjsonLine serde) ++ piece ∧
      (piece = [] ∨ ∃ env more, rest = env :: more ∧ piece <+: serde.toVec env) := by
  induction envs generalizing text with
  | nil => exact ⟨[], [], [], rfl, List.prefix_nil.mp h, Or.inl rfl⟩
  | cons env envs ih =>
    rw [List.flatMap_cons] at h
    have hside := List.prefix_or_prefix_of_prefix h (List.prefix_append (ndjsonLine serde env) _)
    rcases hside with hinside | ⟨text', rfl⟩
    · rcases List.prefix_concat_iff.mp hinside with rfl | hpiece
      · exact ⟨[env], envs, [], rfl, by rw [List.append_nil]; exact (List.append_nil _).symm,
          Or.inl rfl⟩
      · exact ⟨[], env :: envs, text, rfl, rfl, Or.inr ⟨env, envs, rfl, hpiece⟩⟩
    · obtain ⟨whole, rest, piece, rfl, rfl, hpiece⟩ := ih ((List.prefix_append_right_inj _).mp h)
      refine ⟨env :: whole, rest, piece, rfl, ?_, hpiece⟩
      rw [List.flatMap_cons, List.append_assoc]

/-- The lines of whole lines and a piece. -/
theorem lines_whole {serde : SerdeJson ε} (hserde : serde.Lawful) (whole : List Envelope)
    {piece : Text} (hpiece : '\n' ∉ piece) :
    endedLines (whole.flatMap (ndjsonLine serde) ++ piece) = whole.map serde.toVec ∧
      bufLines (whole.flatMap (ndjsonLine serde) ++ piece) =
        whole.map serde.toVec ++ if piece = [] then [] else [piece] := by
  induction whole with
  | nil => exact lines_unended hpiece
  | cons env whole ih =>
    obtain ⟨hended, hbuf⟩ := ih
    have hline : ∀ text, ndjsonLine serde env ++ text = serde.toVec env ++ '\n' :: text := fun _ => by
      rw [ndjsonLine, List.append_assoc, List.singleton_append]
    rw [List.flatMap_cons, List.append_assoc, hline, endedLines_line (hserde.noLf env),
      bufLines_line (hserde.noLf env), stripCr_of_not_mem (hserde.noCr env), hended, hbuf]
    exact ⟨rfl, rfl⟩

/-- What a whole recording of these envelopes loads as. -/
def salvage (path : Text) (envs : List Envelope) : Except (PlayError ε ι) (List RecordedEvent) :=
  if envs = [] then .error (.empty path) else .ok (envs.map Envelope.event)

theorem filled_toVec {serde : SerdeJson ε} (hserde : serde.Lawful) (envs : List Envelope) :
    (filled (envs.map serde.toVec)).map serde.fromStr = envs.map .ok := by
  have hfilled : filled (envs.map serde.toVec) = envs.map serde.toVec := by
    refine List.filter_eq_self.mpr fun line hline => ?_
    obtain ⟨env, _, rfl⟩ := List.mem_map.mp hline
    rw [isBlank_toVec hserde env]
    rfl
  rw [hfilled, List.map_map]
  exact List.map_congr_left fun env _ => hserde.inverts env

theorem loadFixture_salvage {serde : SerdeJson ε} (hserde : serde.Lawful) (path : Text)
    (envs : List Envelope) :
    loadFixture (ι := ι) serde path (.ok ((envs.map serde.toVec).map .ok)) = salvage path envs := by
  by_cases hne : envs = []
  · subst hne
    rfl
  · rw [loadFixture_envelopes path (filled_toVec hserde envs) hne, salvage, if_neg hne]

/-- What a file loads as, with the envelopes that were to be recorded in view. -/
structure Salvaged (ι : Type) (serde : SerdeJson ε) (path : Text) (taken : List Envelope)
    (file : Text) : Prop where
  within : (endedLines file).length ≤ taken.length
  ended : loadFixture (ι := ι) serde path (.ok ((endedLines file).map .ok)) =
    salvage path (taken.take (endedLines file).length)
  loads : loadFixture (ι := ι) serde path (.ok (textLines file)) =
      salvage path (taken.take (endedLines file).length) ∨
    (endedLines file).length < taken.length ∧
      (loadFixture (ι := ι) serde path (.ok (textLines file)) =
          salvage path (taken.take ((endedLines file).length + 1)) ∨
        ∃ source, loadFixture (ι := ι) serde path (.ok (textLines file)) =
          .error (.badEnvelope ((endedLines file).length + 1) source))
  halved (source : ι) :   -- cut inside a character: its line cannot be read
    loadFixture serde path (.ok ((endedLines file).map .ok ++ [.error source])) = .error (.io source)

/-- **The beginning of a recording** loads as the events of its lines, or the error names the line
    that is torn. -/
theorem salvaged_of_front {serde : SerdeJson ε} (lawful : serde.Lawful) (torn : serde.RefusesTorn)
    (path : Text) {taken : List Envelope} {file : Text}
    (h : file <+: taken.flatMap (ndjsonLine serde)) : Salvaged ι serde path taken file := by
  -- the file is whole lines and a piece of one more
  obtain ⟨whole, rest, piece, rfl, rfl, hpiece⟩ := whole_of_front h
  have hlf : '\n' ∉ piece := by
    rcases hpiece with rfl | ⟨env, _, _, hfront⟩
    · exact List.not_mem_nil
    · exact fun hmem => lawful.noLf env (hfront.subset hmem)
  obtain ⟨hended, hbuf⟩ := lines_whole lawful whole hlf
  have hlength : (endedLines (whole.flatMap (ndjsonLine serde) ++ piece)).length = whole.length := by
    rw [hended, List.length_map]
  constructor
  case within =>
    rw [hlength, List.length_append]
    exact Nat.le_add_right _ _
  case ended =>
    rw [hlength, hended, List.take_left]
    exact loadFixture_salvage lawful path whole
  case halved =>
    intro source
    rw [hended, loadFixture, loadLines_append _ _ 0 [] (filled_toVec lawful whole), loadLines]
  case loads =>
    rw [hlength, textLines, hbuf, List.take_left]
    -- the piece is empty, or an envelope without its line break, or a part of one
    rcases hpiece with rfl | ⟨env, more, rfl, hfront⟩
    · rw [if_pos rfl, List.append_nil]
      exact Or.inl (loadFixture_salvage lawful path whole)
    by_cases hnil : piece = []
    · rw [if_pos hnil, List.append_nil]
      exact Or.inl (loadFixture_salvage lawful path whole)
    refine Or.inr ⟨?_, ?_⟩
    · rw [List.length_append, List.length_cons]
      omega
    rw [if_neg hnil]
    by_cases hwhole : piece = serde.toVec env
    · -- only the line break is missing
      left
      have htake : (whole ++ env :: more).take (whole.length + 1) = whole ++ [env] := by
        rw [List.take_append, List.take_of_length_le (Nat.le_succ _), Nat.add_sub_cancel_left]
        rfl
      have hlines := loadFixture_salvage (ι := ι) lawful path (whole ++ [env])
      rw [htake, hwhole]
      rwa [List.map_append] at hlines
    · right
      obtain ⟨source, hbad⟩ := torn.refuses env piece hfront hwhole
      have hblank := torn.visible env piece hfront hnil
      refine ⟨source, ?_⟩
      rw [List.map_append, List.map_singleton]
      have herror := loadFixture_badEnvelope (ι := ι) path (filled_toVec lawful whole) hblank hbad []
      rwa [List.length_map] at herror

/-! ## The file at any moment

What is in the file while a recording goes on is a beginning of all that was written, since the
buffer is spilled from its front.  So the lemmas above apply to whatever a crash leaves. -/

namespace Recording

variable {serde : SerdeJson ε} {duration : Option Nat} {s s' : Recording ι} {e : RecordEvent ι}
  {taken : List Envelope}

/-- What a recording leaves if nothing more happens.  `drained` is about the end of it: `record`
    awaits the writer before it reports an error of the upstream, so everything was written then. -/
structure Spared (serde : SerdeJson ε) (s : Recording ι) (taken : List Envelope) : Prop where
  saved : s.writer ≠ .unspawned → s.file ++ s.buf <+: taken.flatMap (ndjsonLine serde)
  drained : ∀ source, s.main = .returned (.error (.ingest source)) → ∃ c, s.writer = .finished c

/-- While the writer runs, and once it has finished, everything it wrote is there. -/
theorem Kept.saved (h : s.Kept serde taken) (hw : s.writer.running ∨ ∃ c, s.writer = .finished c) :
    s.file ++ s.buf <+: taken.flatMap (ndjsonLine serde) := by
  rcases hw with hrunning | ⟨c, hc⟩
  · obtain ⟨written, rfl, hfile, _⟩ := h.held hrunning
    rw [hfile, List.flatMap_append, List.flatMap_append, List.append_assoc]
    exact List.prefix_append _ _
  · obtain ⟨hfile, hbuf, _⟩ := h.finished c hc
    have hall : s.file ++ s.buf = taken.flatMap (ndjsonLine serde) := by
      rw [hfile, hbuf, List.append_nil]
    exact hall ▸ List.prefix_rfl

/-- What a failed write leaves in the buffer. -/
theorem saved_of_fail (h : s.Kept serde taken) {source : ι} {k : Nat}
    (hs : step serde duration s (.fail source k) = some s') :
    s'.file ++ s'.buf <+: taken.flatMap (ndjsonLine serde) := by
  rw [step] at hs
  split at hs
  next env phase =>
    obtain rfl := Option.some.inj hs
    obtain ⟨written, htaken, hfile, _⟩ := h.held (by rw [phase]; rfl)
    rw [htaken, phase]
    -- a piece of the line after the lines written
    show s.file ++ (s.buf ++ _) <+: (written ++ [env] ++ s.channel).flatMap _
    rw [← List.append_assoc, hfile, List.flatMap_append, List.flatMap_append, List.append_assoc,
      List.flatMap_singleton]
    have hpiece := List.take_prefix k (ndjsonLine serde env)
    exact (List.prefix_append_right_inj _).mpr (hpiece.trans (List.prefix_append _ _))
  next phase =>
    obtain rfl := Option.some.inj hs
    exact h.saved (Or.inl (by rw [phase]; rfl))
  next => cases hs

/-- **Step lemma** for `Spared`. -/
theorem Spared.step (hkept : s.Kept serde taken) (h : s.Spared serde taken)
    (hs : step serde duration s e = some s') : s'.Spared serde (taken ++ s.sent e) := by
  have hstep := stepped_of_step hs
  have hkept' := hkept.step hstep
  have hmore : taken.flatMap (ndjsonLine serde) <+:
      (taken ++ s.sent e).flatMap (ndjsonLine serde) := by
    rw [List.flatMap_append]
    exact List.prefix_append _ _
  -- a writer that runs: the main task has not returned
  have hruns : s.writer.running → ∀ source, s.main ≠ .returned (.error (.ingest source)) := by
    intro hw source hm
    obtain ⟨c, hc⟩ := h.drained source hm
    rw [hc] at hw
    exact nomatch hw
  cases hstep with
  | elapse | timer | cancel => exact ⟨fun hw => (h.saved hw).trans hmore, h.drained⟩
  | refused source phase =>
    exact ⟨fun hw => (h.saved hw).trans hmore, fun source' hm => nomatch hm⟩
  | created phase => exact ⟨fun _ => hkept'.saved (Or.inl rfl), fun _ hm => nomatch hm⟩
  | sink data phase => exact ⟨fun hw => (h.saved hw).trans hmore, h.drained⟩
  | ended outcome phase => exact ⟨fun hw => (h.saved hw).trans hmore, fun _ hm => nomatch hm⟩
  | receive env rest phase waiting =>
    exact ⟨fun _ => hkept'.saved (Or.inl rfl),
      fun source hm => absurd hm (hruns (by rw [phase]; rfl) source)⟩
  | close phase empty dropped =>
    exact ⟨fun _ => hkept'.saved (Or.inl rfl),
      fun source hm => absurd hm (hruns (by rw [phase]; rfl) source)⟩
  | write env phase =>
    exact ⟨fun _ => hkept'.saved (Or.inl rfl),
      fun source hm => absurd hm (hruns (by rw [phase]; rfl) source)⟩
  | spill k =>
    refine ⟨fun hw => ?_, h.drained⟩
    show s.file ++ s.buf.take k ++ s.buf.drop k <+: _
    rw [List.append_assoc, List.take_append_drop]
    exact (h.saved hw).trans hmore
  | flush phase room =>
    exact ⟨fun _ => hkept'.saved (Or.inr ⟨s.count, rfl⟩), fun _ _ => ⟨s.count, rfl⟩⟩
  | fail source k buf running =>
    exact ⟨fun _ => (saved_of_fail hkept hs).trans hmore,
      fun source hm => absurd hm (hruns running source)⟩
  | panic running =>
    exact ⟨fun _ => (hkept.saved (Or.inl running)).trans hmore,
      fun source hm => absurd hm (hruns running source)⟩
  | join outcome result phase joined =>
    refine ⟨fun hw => (h.saved hw).trans hmore, fun source hm => ?_⟩
    obtain rfl := RecordPhase.returned.inj hm
    unfold result? at joined
    split at joined
    next count heq => exact ⟨count, heq⟩
    all_goals simp at joined

/-- **Run lemma** for `Spared`. -/
theorem spared_of_run {old : Text} {ls : List (RecordEvent ι)}
    (h : run (step serde duration) (init old) ls = some s) :
    s.Spared serde (observe (step serde duration) sent (init old) ls) := by
  have hstart : (init old : Recording ι).Spared serde [] :=
    ⟨fun hw => absurd rfl hw, fun _ hm => nomatch hm⟩
  have hspared := run_observe (R := fun s taken => s.Kept serde taken ∧ s.Spared serde taken)
    (fun _ _ _ _ hR hs => ⟨hR.1.step (stepped_of_step hs), hR.2.step hR.1 hs⟩) ls _ s []
    ⟨kept_init old, hstart⟩ h
  rw [List.nil_append] at hspared
  exact hspared.2

/-- **A recording that is interrupted is the beginning of a recording.**  Whatever the payloads, the
    interleaving and the moment, the file loads as the events of its complete lines, which are the
    first that were sent, or as one more when only a line break is missing, or the error names the
    line after them.  When `record` returns an error of the upstream, nothing is missing.

    What is in the file is a beginning of the lines of what was sent, at any moment and after any
    error.  `salvaged_of_front` says what a beginning loads as. -/
theorem interrupted_recording {serde : SerdeJson ε} (lawful : serde.Lawful)
    (torn : serde.RefusesTorn) (duration : Option Nat) (old path : Text)
    (ls : List (RecordEvent ι)) (s : Recording ι)
    (h : run (step serde duration) (init old) ls = some s) (spawned : s.writer ≠ .unspawned) :
    let taken := observe (step serde duration) sent (init old) ls
    Salvaged ι serde path taken s.file ∧
      ∀ source, s.main = .returned (.error (.ingest source)) →
        loadFixture (ι := ι) serde path (.ok (textLines s.file)) = salvage path taken := by
  intro taken
  have hspared : s.Spared serde taken := spared_of_run h
  have hkept : s.Kept serde taken := kept_of_run h
  refine ⟨salvaged_of_front lawful torn path ((List.prefix_append _ _).trans
    (hspared.saved spawned)), fun source hm => ?_⟩
  obtain ⟨c, hc⟩ := hspared.drained source hm
  rw [(hkept.finished c hc).1, textLines, bufLines_recording lawful]
  exact loadFixture_salvage lawful path taken

/-- The disk is full inside the second of two lines. -/
theorem interrupted_recording_full :
    let ls : List (RecordEvent Unit) :=
      [.create (.ok ()), .sink "a".toList, .elapse 3, .sink "b".toList, .recv, .write, .recv,
        .fail () 9, .spill 30, .cancel, .ended (.ok .cancelled), .join]
    ∃ s, run (step compact none) (init "old".toList) ls = some s ∧
      s.main = .returned (.error (.io ())) ∧
      Salvaged Unit compact "out".toList
        [{ recvNs := 0, data := "a".toList }, { recvNs := 3, data := "b".toList }] s.file ∧
      (endedLines s.file).length = 1 := by
  intro ls
  obtain ⟨hsalvaged, _⟩ :=
    interrupted_recording compact_lawful compact_refusesTorn none "old".toList "out".toList ls _ rfl
      (by intro h; cases h)
  exact ⟨_, rfl, rfl, hsalvaged, rfl⟩

end Recording

end RtsPipeline.Replay
