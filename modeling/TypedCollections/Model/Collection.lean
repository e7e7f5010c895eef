import TypedCollections.Model.Field
import TypedCollections.Naming.Reserved
import TypedCollections.Schema.Validity

/-!
The models of a schema document. `Compiler.load` reads and checks a document and chooses the fields
of each collection; the first thing that is wrong ends it.
-/

namespace TypedCollections

open Schema (DeclaredCollection Dialect Flaw)

/-- A collection with its model. -/
structure Collection where
  name : String
  structName : String
  id : Option String
  fields : List Field
  dialect : Dialect
  deriving DecidableEq, Repr

namespace Collection

def field? (c : Collection) (key : String) : Option Field := c.fields.find? fun f => f.key == key

def hasIdField (c : Collection) : Bool := (c.field? "id").isSome

def sharesTimestamps (c : Collection) : Bool := c.dialect.sharesTimestamps

/-- The items of the runtime library that the model imports besides those of every model, in
alphabetic order. -/
def importedItems (c : Collection) : List String :=
  let used := c.dialect.importedItems ++ c.fields.filterMap fun f => f.type.base.importedItem
  ["DateTime", "HasTimestamps", "Timestamps"].filter (· ∈ used)

end Collection

/-- The compiled form of a schema document. -/
structure Schema where
  source : String
  /-- The dialect that was detected; `dialect` is the one that was assumed in the end. -/
  detected : Dialect
  dialect : Dialect
  collections : List Collection
  warnings : List Warning
  deriving DecidableEq, Repr

def Schema.fieldCount (s : Schema) : Nat := (s.collections.map fun c => c.fields.length).sum

/-- What to do with a document of unknown dialect. -/
inductive UnknownDialect where
  | assumeLatest
  | fail
  deriving DecidableEq, Repr

namespace UnknownDialect

/-- The policy of a name, in any case. -/
def read? (name : String) : Option UnknownDialect :=
  if name.toLower ∈ ["latest", "assume-latest"] then some assumeLatest
  else if name.toLower ∈ ["fail", "error"] then some fail
  else none

def unreadable (name : String) : String := "expected 'latest' or 'fail', got '" ++ name ++ "'"

end UnknownDialect

structure LoadOptions where
  unknownDialect : UnknownDialect := .assumeLatest
  /-- The collection that never has a model. -/
  superusers : String := "_superusers"
  deriving DecidableEq, Repr

namespace Compiler

/-- The dialect to compile with. -/
def chooseDialect (path : String) (policy : UnknownDialect) : Dialect → Except Diagnostic Dialect
  | .unknown =>
    match policy with
    | .fail => .error (.unknownDialect path)
    | .assumeLatest => .ok .latest
  | known => .ok known

/-- The models so far, and the warnings about them. -/
structure Progress where
  collections : List Collection
  warnings : List Warning

/-- Adds the model of a collection. -/
def addCollection (path : String) (dialect : Dialect) (superusers : String) (p : Progress)
    (c : DeclaredCollection) : Except Diagnostic Progress := do
  if c.name = superusers then return p
  let selection ← (Selection.of dialect c.name c.fieldList).mapError (Diagnostic.inFile path)
  let identifier ← match Identifier.canonical? c.name with
    | some identifier => pure identifier
    | none => throw (.unnamedField path c.name)
  let structName := Identifier.structName identifier
  match p.collections.find? fun other => other.structName == structName with
  | some other =>
    throw (.invalidSchema path (Flaw.sameStruct other.name c.name structName).message)
  | none =>
    return ⟨p.collections ++ [⟨c.name, structName, c.id, selection.fields, dialect⟩],
      p.warnings ++ selection.warnings⟩

/-- A refusal of the dialect detection as a diagnostic. -/
def refusal (path : String) : Dialect.Refusal → Diagnostic
  | .unscannable offset obstacle => .malformed path 0 offset obstacle.message
  | .mixed fieldsIndex schemaIndex => .mixedDialect path fieldsIndex schemaIndex

/-- A rejected text as a diagnostic. -/
def rejection (path : String) (r : Json.Rejection) : Diagnostic :=
  let p := r.position.getD ⟨0, 0⟩
  .malformed path p.line p.column r.message

/-- Compiles a document. The path only labels the result. -/
def load (options : LoadOptions) (path : String) (bytes : Bytes) : Except Diagnostic Schema := do
  if bytes.all Ascii.isBlank then throw (.invalidSchema path Flaw.emptyFile.message)
  let declared ← (Schema.readDocument bytes).mapError (rejection path)
  (Schema.checkCollections declared).mapError fun flaw => .invalidSchema path flaw.message
  let detected ← (Dialect.detect bytes).mapError (refusal path)
  let dialect ← chooseDialect path options.unknownDialect detected
  let models ← declared.foldlM (addCollection path dialect options.superusers) ⟨[], []⟩
  return ⟨path, detected, dialect, models.collections, models.warnings⟩

end Compiler
end TypedCollections
