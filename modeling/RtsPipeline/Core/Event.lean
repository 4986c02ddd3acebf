/-
  `rts-core/src/event.rs`: a recent-changes event and its parser.

  The JSON syntax belongs to `serde_json`, which is not part of the repository: a text either is a
  JSON document or is not, and `fromStr : Text → Option Json` stands for that, with the members of
  an object in document order and repeated keys kept.  What is modelled here is what the program
  adds, the deserializer serde derives from the `Event` struct: `user` and `server_name` are
  required strings, `bot` defaults to `false`, unknown members are skipped, a known member given
  twice or with another type is an error, and a sequence of the three fields in order is accepted
  in place of an object.

  `Cow` is erased: whether a field borrows from the input or owns its characters is not visible in
  its value.  So are the two counters `BORROWED_COUNT` and `OWNED_COUNT`, which only `cow_stats`
  reads.
-/
import Mathlib.Data.List.Basic

namespace RtsPipeline

/-- A text, as its characters. -/
abbrev Text := List Char

/-- A JSON document.  A number's digits are never looked at. -/
inductive Json
  | null
  | bool (b : Bool)
  | num (digits : Text)
  | str (s : String)
  | arr (elems : List Json)
  | obj (members : List (String × Json))

/-- `RtsError`. -/
inductive RtsError
  | json
  | invalidEvent (msg : String)
deriving DecidableEq, Repr

/-- `Event<'a>`. -/
structure Event where
  user : String
  bot : Bool
  serverName : String
deriving DecidableEq, Repr

/-- `OwnedEvent`. -/
structure OwnedEvent where
  user : String
  bot : Bool
  serverName : String
deriving DecidableEq, Repr

/-- `Event::into_owned`. -/
def Event.intoOwned (e : Event) : OwnedEvent :=
  { user := e.user, bot := e.bot, serverName := e.serverName }

namespace Json

/-- Deserialize a `Cow<str>`. -/
def asStr : Json → Option String
  | str s => some s
  | _ => none

/-- Deserialize a `bool`. -/
def asBool : Json → Option Bool
  | bool b => some b
  | _ => none

end Json

/-- The fields of `Event` met so far while its members are visited. -/
structure EventFields where
  user : Option String := none
  bot : Option Bool := none
  serverName : Option String := none

namespace EventFields

/-- Visit one member of the object. -/
def visit (f : EventFields) (member : String × Json) : Option EventFields :=
  if member.1 = "user" then
    if f.user.isSome then none   -- duplicate field
    else member.2.asStr.map fun s => { f with user := some s }
  else if member.1 = "bot" then
    if f.bot.isSome then none
    else member.2.asBool.map fun b => { f with bot := some b }
  else if member.1 = "server_name" then
    if f.serverName.isSome then none
    else member.2.asStr.map fun s => { f with serverName := some s }
  else some f

/-- The end of the object: the two strings must have been met, `bot` is `#[serde(default)]`. -/
def finish (f : EventFields) : Option Event := do
  let user ← f.user
  let serverName ← f.serverName
  return { user := user, bot := f.bot.getD false, serverName := serverName }

end EventFields

/-- The derived `Deserialize` of `Event`, over the document. -/
def Event.deserialize : Json → Option Event
  | .obj members => (members.foldlM EventFields.visit {}).bind EventFields.finish
  | .arr [user, bot, serverName] => do
    let u ← user.asStr
    let b ← bot.asBool
    let n ← serverName.asStr
    return { user := u, bot := b, serverName := n }
  | _ => none

/-- `parse_one` (default build): `serde_json::from_str::<Event>`. -/
def parseOne (fromStr : Text → Option Json) (buf : Text) : Except RtsError Event :=
  match (fromStr buf).bind Event.deserialize with
  | some e => .ok e
  | none => .error .json

end RtsPipeline
