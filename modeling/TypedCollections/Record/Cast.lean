import TypedCollections.Json.Reader
import TypedCollections.Number.Decimal
import TypedCollections.Record.Basic
import TypedCollections.Timestamp.Json

/-!
Lenient reading. The store sends numbers as strings, truth values as `0` and `1`, and a list of one
as the one; a value that cannot be read as what is asked for gives the zero value of its type. So a
record can always be read.
-/

namespace TypedCollections

namespace Json.Value

/-- Every value but null has a text: a string is its own, all others are written as JSON. -/
def asText? : Value → Option String
  | null => none
  | string s => some s
  | v => some v.text

/-- Zero is false, as are some texts. -/
def asFlag? : Value → Option Bool
  | boolean b => some b
  | number n => some (!n.toBinary64.isZero)
  | string s =>
    let word := (Text.trim s.toList).map Char.toLower
    if word ∈ ["true".toList, "1".toList] then some true
    else if word ∈ ["false".toList, "0".toList, []] then some false
    else none
  | _ => none

def asNumber? : Value → Option Binary64
  | number n => some n.toBinary64
  | string s => Decimal.read? (Text.trim s.toList)
  | boolean b => some (Binary64.ofNat (if b then 1 else 0))
  | _ => none

/-- Only a text can be a timestamp. -/
def asTimestamp : Value → Timestamp
  | string s => (Timestamp.read? s).getD .unset
  | _ => .unset

/-- The texts of the values that have one which is not empty. -/
def nonemptyTexts (items : List Value) : List String :=
  (items.filterMap asText?).filter (· ≠ "")

/-- A list of ids is a list, the JSON text of one, or a single id. -/
def asIds : Value → List String
  | array items => nonemptyTexts items
  | string s =>
    match Text.trim s.toList with
    | [] => []
    | '[' :: rest =>
      match read (String.ofList ('[' :: rest)) with
      | .ok (array items) => nonemptyTexts items
      | _ => [s]
    | _ => [s]
  | v => v.asText?.toList

/-- The text of a value, if it is one. -/
def string? : Value → Option String
  | string s => some s
  | _ => none

/-- A number as a value. One that is not finite has no JSON form and becomes null. -/
def ofBinary64 (x : Binary64) : Value := if x.isFinite then number (.float x) else null

end Json.Value

namespace Record

variable (r : Record) (key : String)

def text? : Option String := (r.get? key).bind Json.Value.asText?
def text : String := (r.text? key).getD ""

def flag? : Option Bool := (r.get? key).bind Json.Value.asFlag?
def flag : Bool := (r.flag? key).getD false

def number? : Option Binary64 := (r.get? key).bind Json.Value.asNumber?
def number : Binary64 := (r.number? key).getD (.zero false)

def timestamp : Timestamp := ((r.get? key).map Json.Value.asTimestamp).getD .unset

def ids : List String := ((r.get? key).map Json.Value.asIds).getD []

def json : Json.Value := (r.get? key).getD .null

end Record
end TypedCollections
