/-!
The types that the fields of a model can have, and which kind of declared field has which.
-/

namespace TypedCollections

inductive FieldType where
  | text
  | flag
  | number
  | dateTime
  | idList
  | json
  deriving DecidableEq, Repr

/-- How a model reads a field from a record and writes it back. -/
inductive Accessor where
  /-- The value, or a zero value when it is missing. -/
  | direct
  /-- The value, or nothing when it is missing. -/
  | optional
  | timestamp
  | list
  | json
  deriving DecidableEq, Repr

namespace FieldType

def name : FieldType → String
  | text => "text"
  | flag => "bool"
  | number => "number"
  | dateTime => "dateTime"
  | idList => "idList"
  | json => "json"

/-- The type in the generated code. -/
def code : FieldType → String
  | text => "String"
  | flag => "bool"
  | number => "f64"
  | dateTime => "DateTime"
  | idList => "Vec<String>"
  | json => "serde_json::Value"

/-- A missing value of the other types is one of their own values. -/
def isNullable : FieldType → Bool
  | text | flag | number => true
  | dateTime | idList | json => false

/-- The item of the runtime library that the type is. -/
def importedItem : FieldType → Option String
  | dateTime => some "DateTime"
  | _ => none

/-- The type of a kind of field, whose name may be in any case. -/
def ofKind? (kind : String) : Option FieldType :=
  let kind := kind.toLower
  if kind ∈ ["text", "editor", "longtext", "url", "email", "select", "password"] then some text
  else if kind ∈ ["bool", "boolean"] then some flag
  else if kind = "number" then some number
  else if kind ∈ ["date", "autodate"] then some dateTime
  else if kind ∈ ["relation", "file"] then some idList
  else if kind = "json" then some json
  else none

end FieldType

def Accessor.name : Accessor → String
  | direct => "direct"
  | optional => "optional"
  | timestamp => "timestamp"
  | list => "list"
  | json => "json"

/-- The type of a member, which may allow for a missing value. -/
structure MemberType where
  base : FieldType
  optional : Bool
  deriving DecidableEq, Repr

namespace MemberType

/-- A field that need not have a value may be missing, if its type has no value for that. A field
of unknown kind is a text. -/
def ofKind (kind : String) (required : Bool) : MemberType :=
  let base := (FieldType.ofKind? kind).getD .text
  ⟨base, !required && base.isNullable⟩

def accessor (t : MemberType) : Accessor :=
  match t.base with
  | .dateTime => .timestamp
  | .idList => .list
  | .json => .json
  | .text | .flag | .number => if t.optional then .optional else .direct

def code (t : MemberType) : String :=
  if t.optional then "Option<" ++ t.base.code ++ ">" else t.base.code

/-- The function that reads a value of the type from a record. -/
def getter (t : MemberType) : String :=
  match t.base, t.optional with
  | .text, true => "get_optional_string"
  | .flag, true => "get_optional_bool"
  | .number, true => "get_optional_number"
  | .text, false => "get_string"
  | .flag, false => "get_bool"
  | .number, false => "get_number"
  | .dateTime, _ => "get_datetime"
  | .idList, _ => "get_string_list"
  | .json, _ => "get_json"

end MemberType
end TypedCollections
