/-
  `rts-core/src/event.rs`: the two builds of `parse_one`.

  The default build deserializes the `Event` struct (`Event`'s module); with the feature
  `owned-baseline` the text becomes a `serde_json::Value`, whose object keeps the last of repeated
  keys, and the fields are looked up in it.

  The two differ in how they meet the values of one key.  The deserializer visits them one by one
  and an error anywhere is the end; the look-up sees the last one and ignores the others, and a
  `bot` of another type as well.  So what the deserializer accepts, the look-up reads the same way,
  and the question is when the look-up accepts more: when a key of the struct is repeated or `bot`
  is no boolean (`Orderly` fails), and for no other object.  In one case it accepts less: the
  deserializer of a struct takes a sequence of its fields as well.

  1. `parseOneOwned` — the second build.
  2. `foldlM_visit` — the derived deserializer treats each of its three keys by itself, so what it
     makes of an object is said key by key.
  3. `parsers_agree_iff` — on which documents the two builds agree.
-/
import RtsPipeline.Core.Event

namespace RtsPipeline

namespace Json

/-- `Value::as_object`. -/
def asObject : Json → Option (List (String × Json))
  | obj members => some members
  | _ => none

/-- `Map::get`: of repeated keys the last is kept. -/
def get (members : List (String × Json)) (key : String) : Option Json :=
  (members.reverse.find? fun m => m.1 = key).map Prod.snd

end Json

/-- `ok_or_else(|| err)`. -/
def okOrElse {α : Type} (err : RtsError) : Option α → Except RtsError α
  | some x => .ok x
  | none => .error err

/-- `parse_one` (feature `owned-baseline`). -/
def parseOneOwned (fromStr : Text → Option Json) (buf : Text) : Except RtsError Event := do
  let event ← okOrElse .json (fromStr buf)
  let obj ← okOrElse (.invalidEvent "not an object") event.asObject
  let user ← okOrElse (.invalidEvent "missing user") ((Json.get obj "user").bind Json.asStr)
  let bot := ((Json.get obj "bot").bind Json.asBool).getD false
  let serverName ← okOrElse (.invalidEvent "missing server_name")
    ((Json.get obj "server_name").bind Json.asStr)
  return { user := user, bot := bot, serverName := serverName }

/-! ## The values of one key

  Members with other keys do not matter to either build, so an object is three lists of values. -/

/-- The values a key is given, in document order. -/
def valuesOf (key : String) (members : List (String × Json)) : List Json :=
  (members.filter fun m => m.1 = key).map Prod.snd

theorem valuesOf_cons (key : String) (m : String × Json) (members : List (String × Json)) :
    valuesOf key (m :: members) =
      if m.1 = key then m.2 :: valuesOf key members else valuesOf key members := by
  unfold valuesOf
  by_cases h : m.1 = key
  · rw [if_pos h, List.filter_cons_of_pos (by simpa using h)]
    rfl
  · rw [if_neg h, List.filter_cons_of_neg (by simpa using h)]

theorem get_eq (members : List (String × Json)) (key : String) :
    Json.get members key = (valuesOf key members).getLast? := by
  rw [Json.get, valuesOf, List.getLast?_map, ← List.head?_reverse, ← List.filter_reverse,
    List.head?_filter]

/-- What the deserializer makes of the values of one key: a second one is an error. -/
def visitAll {β : Type} (as : Json → Option β) (met : Option β) : List Json → Option (Option β)
  | [] => some met
  | v :: vs => if met.isSome then none else (as v).bind fun b => visitAll as (some b) vs

section

variable {β : Type} {as : Json → Option β}

theorem visitAll_met {b : β} {vs : List Json} {r : Option β} :
    visitAll as (some b) vs = some r ↔ vs = [] ∧ r = some b := by
  cases vs with
  | nil => simp [visitAll, eq_comm]
  | cons v vs => simp [visitAll]

theorem visitAll_none {vs : List Json} {r : Option β} :
    visitAll as none vs = some r ↔
      (vs = [] ∧ r = none) ∨ ∃ v b, vs = [v] ∧ as v = some b ∧ r = some b := by
  cases vs with
  | nil => simp [visitAll, eq_comm]
  | cons v vs =>
    cases ha : as v with
    | none => simp [visitAll, ha]
    | some b =>
      simp only [visitAll, ha, Option.isSome_none, Bool.false_eq_true, if_false, Option.bind_some,
        visitAll_met, reduceCtorEq, false_and, false_or, List.cons.injEq]
      constructor
      · rintro ⟨rfl, rfl⟩
        exact ⟨v, b, ⟨rfl, rfl⟩, ha, rfl⟩
      · rintro ⟨v', b', ⟨rfl, rfl⟩, hb, rfl⟩
        exact ⟨rfl, by rw [← hb, ha]⟩

end

/-- **The members are visited key by key**: each field has met the values of its own key. -/
theorem foldlM_visit (members : List (String × Json)) (f g : EventFields) :
    members.foldlM EventFields.visit f = some g ↔
      visitAll Json.asStr f.user (valuesOf "user" members) = some g.user ∧
        visitAll Json.asBool f.bot (valuesOf "bot" members) = some g.bot ∧
        visitAll Json.asStr f.serverName (valuesOf "server_name" members) =
          some g.serverName := by
  -- induction on the members: each is about one of the three fields or about none
  induction members generalizing f with
  | nil =>
    obtain ⟨u, b, n⟩ := f
    obtain ⟨u', b', n'⟩ := g
    simp [valuesOf, visitAll]
  | cons m members ih =>
    obtain ⟨key, v⟩ := m
    rw [List.foldlM_cons]
    simp only [valuesOf_cons]
    by_cases hu : key = "user"
    -- a field met twice is an error, and so is a value of another kind
    · subst hu
      cases hmet : f.user with
      | some u => simp [EventFields.visit, hmet, visitAll]
      | none =>
        cases hs : v.asStr with
        | none => simp [EventFields.visit, hmet, hs, visitAll]
        | some s => simp [EventFields.visit, hmet, hs, visitAll, ih]
    · by_cases hb : key = "bot"
      · subst hb
        cases hmet : f.bot with
        | some b => simp [EventFields.visit, hmet, visitAll]
        | none =>
          cases hs : v.asBool with
          | none => simp [EventFields.visit, hmet, hs, visitAll]
          | some b => simp [EventFields.visit, hmet, hs, visitAll, ih]
      · by_cases hn : key = "server_name"
        · subst hn
          cases hmet : f.serverName with
          | some n => simp [EventFields.visit, hmet, visitAll]
          | none =>
            cases hs : v.asStr with
            | none => simp [EventFields.visit, hmet, hs, visitAll]
            | some n => simp [EventFields.visit, hmet, hs, visitAll, ih]
        · simp [EventFields.visit, hu, hb, hn, ih]

/-! ## What each build accepts

For each build the documents that give a given event, as a condition on the members of the object.
The one reads them in order and stops at a second value of a key; the other looks up the last. -/

theorem asStr_iff {v : Json} {s : String} : v.asStr = some s ↔ v = .str s := by
  cases v <;> simp [Json.asStr]

theorem asBool_iff {v : Json} {b : Bool} : v.asBool = some b ↔ v = .bool b := by
  cases v <;> simp [Json.asBool]

/-- The end of the object. -/
theorem finish_iff {g : EventFields} {e : Event} :
    g.finish = some e ↔ g.user = some e.user ∧ g.serverName = some e.serverName ∧
      g.bot.getD false = e.bot := by
  obtain ⟨user, bot, serverName⟩ := g
  obtain ⟨u, b, n⟩ := e
  cases user with
  | none => simp [EventFields.finish]
  | some user =>
    cases serverName with
    | none => simp [EventFields.finish]
    | some serverName => simp [EventFields.finish, and_comm]

/-- The derived deserializer accepts an object whose three keys are given as they should: the two
    strings once, `bot` at most once. -/
theorem deserialize_obj {members : List (String × Json)} {e : Event} :
    Event.deserialize (.obj members) = some e ↔
      valuesOf "user" members = [.str e.user] ∧
        valuesOf "server_name" members = [.str e.serverName] ∧
        (valuesOf "bot" members = [] ∧ e.bot = false ∨ valuesOf "bot" members = [.bool e.bot]) := by
  rw [Event.deserialize, Option.bind_eq_some_iff]
  simp only [foldlM_visit, finish_iff, visitAll_none]
  constructor
  · rintro ⟨g, ⟨hu, hb, hn⟩, heu, hen, heb⟩
    -- a field that must be there was met, so it has the one value
    have huser : valuesOf "user" members = [.str e.user] := by
      rcases hu with ⟨_, hnone⟩ | ⟨v, s, hv, hs, hg⟩
      · exact absurd (hnone.symm.trans heu) (by simp)
      · rw [hv, asStr_iff.mp hs, Option.some.inj (hg.symm.trans heu)]
    have hname : valuesOf "server_name" members = [.str e.serverName] := by
      rcases hn with ⟨_, hnone⟩ | ⟨v, s, hv, hs, hg⟩
      · exact absurd (hnone.symm.trans hen) (by simp)
      · rw [hv, asStr_iff.mp hs, Option.some.inj (hg.symm.trans hen)]
    refine ⟨huser, hname, ?_⟩
    -- `bot` may be missing, and counts as false then
    rcases hb with ⟨hnil, hnone⟩ | ⟨v, b, hv, hs, hg⟩
    · rw [hnone] at heb
      exact Or.inl ⟨hnil, heb.symm⟩
    · rw [hg] at heb
      rw [hv, asBool_iff.mp hs]
      exact Or.inr (congrArg (fun b => [Json.bool b]) heb)
  · rintro ⟨hu, hn, hb⟩
    rcases hb with ⟨hnil, hfalse⟩ | hbool
    · exact ⟨⟨some e.user, none, some e.serverName⟩,
        ⟨Or.inr ⟨_, _, hu, rfl, rfl⟩, Or.inl ⟨hnil, rfl⟩, Or.inr ⟨_, _, hn, rfl, rfl⟩⟩,
        rfl, rfl, hfalse.symm⟩
    · exact ⟨⟨some e.user, some e.bot, some e.serverName⟩,
        ⟨Or.inr ⟨_, _, hu, rfl, rfl⟩, Or.inr ⟨_, _, hbool, rfl, rfl⟩,
          Or.inr ⟨_, _, hn, rfl, rfl⟩⟩, rfl, rfl, rfl⟩

variable {fromStr : Text → Option Json} {buf : Text}

theorem parseOne_ok {e : Event} :
    parseOne fromStr buf = .ok e ↔ ∃ v, fromStr buf = some v ∧ Event.deserialize v = some e := by
  rw [← Option.bind_eq_some_iff, parseOne]
  cases (fromStr buf).bind Event.deserialize with
  | none => simp
  | some e' => simp

theorem okOrElse_bind {α β : Type} {err : RtsError} {o : Option α} {f : α → Except RtsError β}
    {b : β} : (okOrElse err o >>= f) = .ok b ↔ ∃ a, o = some a ∧ f a = .ok b := by
  cases o with
  | none => exact ⟨fun h => (nomatch h), fun ⟨_, h, _⟩ => (nomatch h)⟩
  | some a => exact ⟨fun h => ⟨a, rfl, h⟩, fun ⟨_, h, hf⟩ => Option.some.inj h ▸ hf⟩

/-- An object whose last `user` and last `server_name` are the event's; a last `bot` that is no
    boolean counts as `false`. -/
def Looked (members : List (String × Json)) (e : Event) : Prop :=
  (valuesOf "user" members).getLast? = some (.str e.user) ∧
    (valuesOf "server_name" members).getLast? = some (.str e.serverName) ∧
    ((valuesOf "bot" members).getLast?.bind Json.asBool).getD false = e.bot

/-- The owned baseline looks up the last values.  The chain of `?` becomes one of existentials, one
    for each thing that is looked up. -/
theorem parseOneOwned_ok {e : Event} :
    parseOneOwned fromStr buf = .ok e ↔
      ∃ members, fromStr buf = some (.obj members) ∧ Looked members e := by
  have hobj : ∀ {v : Json} {members}, v.asObject = some members ↔ v = .obj members := by
    intro v members
    cases v <;> simp [Json.asObject]
  have hstr : ∀ {o : Option Json} {s : String}, o.bind Json.asStr = some s ↔ o = some (.str s) := by
    intro o s
    rw [Option.bind_eq_some_iff]
    simp only [asStr_iff, exists_eq_right]
  unfold parseOneOwned Looked
  simp only [okOrElse_bind, get_eq, hobj, hstr]
  constructor
  · rintro ⟨v, hv, members, rfl, user, hu, name, hn, hok⟩
    obtain rfl := Except.ok.inj hok
    exact ⟨members, hv, hu, hn, rfl⟩
  · rintro ⟨members, hv, hu, hn, hb⟩
    refine ⟨_, hv, members, rfl, _, hu, _, hn, ?_⟩
    rw [hb]
    rfl

/-! ## Where the two builds agree

With the two conditions side by side the difference is in three places: a key given twice, a `bot`
that is no boolean, and a sequence in place of an object. -/

/-- Both return an error, or both an event with the same fields. -/
def SameResult : Except RtsError Event → Except RtsError Event → Prop
  | .ok e, .ok f => e.user = f.user ∧ e.bot = f.bot ∧ e.serverName = f.serverName
  | .error _, .error _ => True
  | _, _ => False

instance : ∀ a b, Decidable (SameResult a b)
  | .ok _, .ok _ => inferInstanceAs (Decidable (_ ∧ _))
  | .error _, .error _ => inferInstanceAs (Decidable True)
  | .ok _, .error _ => inferInstanceAs (Decidable False)
  | .error _, .ok _ => inferInstanceAs (Decidable False)

/-- Two events are one if their three fields are. -/
theorem sameResult_iff {a b : Except RtsError Event} :
    SameResult a b ↔ ∀ e, a = .ok e ↔ b = .ok e := by
  cases a with
  | error ea =>
    cases b with
    | error eb => simp [SameResult]
    | ok f => simp [SameResult]
  | ok e =>
    cases b with
    | error eb => simp [SameResult]
    | ok f =>
      have hext : SameResult (.ok e) (.ok f) ↔ e = f := by
        obtain ⟨u, b, n⟩ := e
        obtain ⟨u', b', n'⟩ := f
        simp [SameResult]
      rw [hext]
      constructor
      · rintro rfl g
        exact Iff.rfl
      · exact fun h => (Except.ok.inj ((h e).mp rfl)).symm

/-- The three keys of the struct. -/
def knownKeys : List String := ["user", "bot", "server_name"]

/-- No key of the struct is repeated, and `bot`, if it is given, is a boolean. -/
def Orderly (members : List (String × Json)) : Prop :=
  (∀ key ∈ knownKeys, (valuesOf key members).length ≤ 1) ∧
    ∀ v ∈ valuesOf "bot" members, v.asBool ≠ none

/-- The documents the two builds treat alike. -/
def Alike : Json → Prop
  | .arr [.str _, .bool _, .str _] => False
  | .obj members => ((valuesOf "user" members).getLast?.bind Json.asStr).isSome = true →
      ((valuesOf "server_name" members).getLast?.bind Json.asStr).isSome = true → Orderly members
  | _ => True

/-- A sequence is accepted in place of an object if it is the three fields in order.  `visit_seq`
    asks for three elements, each of its own type. -/
theorem deserialize_arr {elems : List Json} {e : Event} :
    Event.deserialize (.arr elems) = some e ↔
      elems = [.str e.user, .bool e.bot, .str e.serverName] := by
  constructor
  · intro h
    unfold Event.deserialize at h
    split at h
    · rename_i heq; exact nomatch heq
    · rename_i u b n heq
      obtain rfl := Json.arr.inj heq
      obtain ⟨user, hu, h⟩ := Option.bind_eq_some_iff.mp h
      obtain ⟨bot, hb, h⟩ := Option.bind_eq_some_iff.mp h
      obtain ⟨name, hn, h⟩ := Option.bind_eq_some_iff.mp h
      obtain rfl := Option.some.inj h
      rw [asStr_iff.mp hu, asBool_iff.mp hb, asStr_iff.mp hn]
    · exact nomatch h
  · rintro rfl
    rfl

/-- What the derived deserializer accepts, the owned baseline reads the same way. -/
theorem looked_of_deserialize {members : List (String × Json)} {e : Event}
    (h : Event.deserialize (.obj members) = some e) : Looked members e := by
  obtain ⟨hu, hn, hb⟩ := deserialize_obj.mp h
  refine ⟨by rw [hu]; rfl, by rw [hn]; rfl, ?_⟩
  rcases hb with ⟨hnil, hfalse⟩ | hbool
  · rw [hnil, hfalse]
    rfl
  · rw [hbool]
    rfl

/-- A key given at most once, with a last value. -/
theorem eq_singleton_of_getLast? {vs : List Json} {v : Json} (hlen : vs.length ≤ 1)
    (hlast : vs.getLast? = some v) : vs = [v] := by
  match vs, hlen, hlast with
  | [w], _, hlast => exact congrArg (fun v => [v]) (Option.some.inj hlast)

/-- What the owned baseline reads of an orderly object, the derived deserializer accepts. -/
theorem deserialize_of_looked {members : List (String × Json)} {e : Event}
    (h : Looked members e) (ho : Orderly members) : Event.deserialize (.obj members) = some e := by
  obtain ⟨hu, hn, hb⟩ := h
  obtain ⟨honce, hbool⟩ := ho
  refine deserialize_obj.mpr ⟨eq_singleton_of_getLast? (honce _ (by decide)) hu,
    eq_singleton_of_getLast? (honce _ (by decide)) hn, ?_⟩
  cases hlast : (valuesOf "bot" members).getLast? with
  | none =>
    rw [hlast] at hb
    exact Or.inl ⟨List.getLast?_eq_none_iff.mp hlast, hb.symm⟩
  | some v =>
    have hsingle := eq_singleton_of_getLast? (honce "bot" (by decide)) hlast
    obtain ⟨b, hv⟩ := Option.ne_none_iff_exists'.mp
      (hbool v (hsingle ▸ List.mem_singleton.mpr rfl))
    rw [hlast, Option.bind_some, hv] at hb
    rw [hsingle, asBool_iff.mp hv]
    exact Or.inr (congrArg (fun b => [Json.bool b]) hb)

/-- An object the owned baseline reads is orderly if the derived deserializer accepts it. -/
theorem orderly_of_deserialize {members : List (String × Json)} {e : Event}
    (h : Event.deserialize (.obj members) = some e) : Orderly members := by
  obtain ⟨hu, hn, hb⟩ := deserialize_obj.mp h
  refine ⟨fun key hkey => ?_, fun v hv => ?_⟩
  · simp only [knownKeys, List.mem_cons, List.not_mem_nil, or_false] at hkey
    obtain rfl | rfl | rfl := hkey
    · rw [hu]; exact Nat.le_refl 1
    · rcases hb with ⟨hnil, _⟩ | hbool
      · rw [hnil]; exact Nat.zero_le _
      · rw [hbool]; exact Nat.le_refl 1
    · rw [hn]; exact Nat.le_refl 1
  · rcases hb with ⟨hnil, _⟩ | hbool
    · rw [hnil] at hv; exact absurd hv List.not_mem_nil
    · rw [hbool, List.mem_singleton] at hv
      rw [hv]
      exact Option.some_ne_none _

/-- The two builds on an object. -/
theorem alike_obj {members : List (String × Json)} :
    (∀ e, Event.deserialize (.obj members) = some e ↔ Looked members e) ↔
      Alike (.obj members) := by
  constructor
  · intro h hu hn
    obtain ⟨user, hu⟩ := Option.isSome_iff_exists.mp hu
    obtain ⟨name, hn⟩ := Option.isSome_iff_exists.mp hn
    obtain ⟨u, hlast, hstr⟩ := Option.bind_eq_some_iff.mp hu
    obtain ⟨n, hlast', hstr'⟩ := Option.bind_eq_some_iff.mp hn
    rw [asStr_iff.mp hstr] at hlast
    rw [asStr_iff.mp hstr'] at hlast'
    exact orderly_of_deserialize ((h ⟨user, _, name⟩).mpr ⟨hlast, hlast', rfl⟩)
  · refine fun ha e => ⟨looked_of_deserialize, fun hl => deserialize_of_looked hl (ha ?_ ?_)⟩
    · rw [hl.1]; rfl
    · rw [hl.2.1]; rfl

/-- **The two builds of `parse_one` agree** on a text exactly if it is no JSON document, or a
    document that is not the sequence of the three fields and, where it is an object whose last
    `user` and last `server_name` are strings, repeats no key of the struct and gives `bot` no value
    but a boolean.  Both builds are read over the one value that `from_str` gives for the text, an
    object with all its members in their order: where only one of the two refuses the text itself,
    as a number out of range that one of them skips, nothing is said.

    The documents are split by their kind.  For an object the two conditions, that of the visitor
    and that of the look-ups, are compared key by key. -/
theorem parsers_agree_iff (fromStr : Text → Option Json) (buf : Text) :
    SameResult (parseOne fromStr buf) (parseOneOwned fromStr buf) ↔
      ∀ v, fromStr buf = some v → Alike v := by
  -- two results are the same if the same events are accepted
  rw [sameResult_iff]
  simp only [parseOne_ok, parseOneOwned_ok]
  cases hv : fromStr buf with
  | none => simp
  | some v =>
    -- by the kind of the value: an object is compared field by field, an array by its elements
    cases v with
    | obj members =>
      simp only [Option.some.injEq, exists_eq_left', Json.obj.injEq, forall_eq']
      exact alike_obj
    | arr elems =>
      simp only [Option.some.injEq, exists_eq_left', reduceCtorEq, false_and, exists_false,
        iff_false, forall_eq', deserialize_arr]
      constructor
      · intro h
        unfold Alike
        split
        · rename_i u b n heq
          exact h ⟨u, b, n⟩ (Json.arr.inj heq)
        · rename_i heq; exact nomatch heq
        · trivial
      · rintro ha e rfl
        exact ha
    -- neither build takes any of these for an event
    | null => simp [Event.deserialize, Alike]
    | bool b => simp [Event.deserialize, Alike]
    | num digits => simp [Event.deserialize, Alike]
    | str s => simp [Event.deserialize, Alike]

/-- A document whose `bot` is a string: the default build rejects it, the owned baseline takes the
    event for a human edit. -/
theorem parsers_disagree :
    let raw := "\x7b\"user\":\"u\",\"bot\":\"yes\",\"server_name\":\"w\"\x7d".toList
    let fromStr := fun _ => some (Json.obj [("user", .str "u"), ("bot", .str "yes"),
      ("server_name", .str "w")])
    parseOne fromStr raw = .error .json ∧
      parseOneOwned fromStr raw = .ok { user := "u", bot := false, serverName := "w" } ∧
      ¬ SameResult (parseOne fromStr raw) (parseOneOwned fromStr raw) :=
  ⟨rfl, rfl, by decide⟩

end RtsPipeline
