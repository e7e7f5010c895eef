import TypedCollections.Json.Value
import TypedCollections.Text.Percent

/-!
Requests to the store. The names in a path and in a query are percent-encoded, so none of them can
end its part of the address.
-/

namespace TypedCollections

inductive Method where
  | get
  | post
  | patch
  | delete
  deriving DecidableEq, Repr

def Method.name : Method → String
  | get => "GET"
  | post => "POST"
  | patch => "PATCH"
  | delete => "DELETE"

/-- Sending no body differs from sending an empty object. -/
inductive Body where
  | absent
  | json (value : Json.Value)
  deriving Repr

namespace Body

def emptyObject : Body := .json (.object [])

def isAbsent : Body → Bool
  | absent => true
  | json _ => false

def json? : Body → Option Json.Value
  | absent => none
  | json v => some v

end Body

structure Request where
  method : Method
  /-- The path, whose segments are encoded. -/
  path : String
  /-- The parameters of the query in order, not encoded. -/
  query : List (String × String) := []
  body : Body := .absent
  deriving Repr

namespace Request

/-- The value of the first parameter of a name. -/
def parameter? (r : Request) (name : String) : Option String :=
  (r.query.find? fun p => p.1 == name).map Prod.snd

def pairText (p : String × String) : String :=
  Text.Percent.encode p.1 ++ "=" ++ Text.Percent.encode p.2

def queryText (r : Request) : String := "&".intercalate (r.query.map pairText)

/-- The path and the query, as they follow the address of the store. -/
def address (r : Request) : String :=
  if r.query = [] then r.path else r.path ++ "?" ++ r.queryText

/-- The path of the records of a collection. -/
def recordsPath (collection : String) : String :=
  "/api/collections/" ++ Text.Percent.encode collection ++ "/records"

/-- The path of one record of a collection. -/
def recordPath (collection id : String) : String :=
  recordsPath collection ++ "/" ++ Text.Percent.encode id

end Request
end TypedCollections
