import TypedCollections.Json.Shape
import TypedCollections.Timestamp.Parser
import TypedCollections.Timestamp.Printer

/-!
Timestamps in JSON: a string with their text. Null is read as the unset timestamp.
-/

namespace TypedCollections.Timestamp

def toJson (t : Timestamp) : Json.Value := .string t.text

/-- Why a JSON text is no timestamp. -/
inductive Refusal where
  | rejected (why : Json.Rejection)
  | noTimestamp (text : String)

def Refusal.message : Refusal → String
  | rejected why => why.message
  | noTimestamp text => unreadable text

/-- Reads a timestamp from a JSON text. A string that is none is refused before what follows it is
looked at. -/
def readJson (text : String) : Except Refusal Timestamp :=
  let bytes := Utf8.encode text
  match Json.orNull Json.text bytes with
  | .error f => .error (.rejected (f.locate bytes))
  | .ok (content, rest) =>
    match (content.map read?).getD (some .unset) with
    | none => .error (.noTimestamp (content.getD ""))
    | some t =>
      match Json.ended rest.1 with
      | .error f => .error (.rejected (f.locate bytes))
      | .ok () => .ok t

end TypedCollections.Timestamp
