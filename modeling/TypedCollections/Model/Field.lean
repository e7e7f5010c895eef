import TypedCollections.Diagnostic.Error
import TypedCollections.Diagnostic.Warning
import TypedCollections.Model.FieldType
import TypedCollections.Naming.Identifier
import TypedCollections.Schema.Dialect
import TypedCollections.Schema.Document

/-!
The fields of a model, chosen from the declared fields of a collection. Each is named by an
identifier that no other field of the collection has. `Selection.of` walks through the declarations
in order; the first one that makes a model impossible ends it.
-/

namespace TypedCollections

open Schema (DeclaredField Dialect)

structure Field where
  identifier : String
  /-- The key of the field in a record. -/
  key : String
  type : MemberType
  deriving DecidableEq, Repr

/-- Fields that the server looks after. -/
def systemFields : List String := ["id", "created", "updated", "collectionId", "collectionName"]

/-- Fields that belong to a model even if they are flagged. -/
def conventionalFields : List String := ["id", "created", "updated"]

def timestampFields : List String := ["created", "updated"]

namespace Schema.Dialect

/-- A document of unknown dialect is treated as one of the latest. -/
def effective : Dialect → Dialect
  | legacy => legacy
  | latest | unknown => latest

/-- Do the models of the dialect have their timestamps without declaring them? -/
def sharesTimestamps (d : Dialect) : Bool := d.effective == legacy

/-- What every model of the dialect imports, in alphabetic order. -/
def importedItems (d : Dialect) : List String :=
  if d.sharesTimestamps then ["HasTimestamps", "Timestamps"] else []

end Schema.Dialect

namespace Selection

/-- Is the declaration left out of the model? Hidden and system fields are. -/
def isSkipped (d : DeclaredField) : Bool :=
  (d.hidden || d.system) && d.name ∉ conventionalFields

/-- What is said about a declaration that is left out. -/
def skipWarnings (collection : String) (d : DeclaredField) : List Warning :=
  if d.hidden && d.required && !d.system then [.skippedHiddenRequired collection d.name] else []

/-- What is said about a declaration whose kind is unknown. -/
def kindWarnings (collection : String) (d : DeclaredField) : List Warning :=
  match FieldType.ofKind? d.kind with
  | some _ => []
  | none => [.lossyFallback collection d.name d.kind]

/-- The field of a declaration before its identifier is compared with the others'. A timestamp is
one whatever its declaration says. -/
def fieldOf (collection : String) (d : DeclaredField) : Except Diagnostic Field := do
  let isTimestamp := d.name ∈ timestampFields
  if ¬isTimestamp ∧ d.required ∧ (FieldType.ofKind? d.kind).isNone then
    throw (.unmappableField "" collection d.name d.kind)
  match Identifier.canonical? d.name with
  | none => throw (.unnamedField "" collection)
  | some identifier =>
    return ⟨identifier, d.name,
      if isTimestamp then ⟨.dateTime, false⟩ else .ofKind d.kind d.required⟩

/-- The least number from two on that makes the identifier a free one. -/
def suffix (taken : List String) (identifier : String) : Nat :=
  ((List.range' 2 (taken.length + 1)).find? fun n => identifier ++ toString n ∉ taken).getD 2

/-- The identifier itself if it is free, and otherwise one with a number behind it. -/
def freeIdentifier (taken : List String) (identifier : String) : String :=
  if identifier ∈ taken then identifier ++ toString (suffix taken identifier) else identifier

end Selection

/-- The fields of a model, and what was noticed on the way. -/
structure Selection where
  fields : List Field
  warnings : List Warning
  deriving DecidableEq, Repr

namespace Selection

/-- How far the walk has come. Only the first declaration of a name counts. -/
structure Walk where
  met : List String
  selection : Selection

/-- Adds a field to the selection. -/
def claim (collection : String) (s : Selection) (f : Field) (warnings : List Warning) :
    Selection :=
  let identifier := freeIdentifier (s.fields.map Field.identifier) f.identifier
  let renamed :=
    if identifier = f.identifier then [] else [.identifierCollision collection f.key identifier]
  ⟨s.fields ++ [{ f with identifier }], s.warnings ++ warnings ++ renamed⟩

def step (dialect : Dialect) (collection : String) (w : Walk) (d : DeclaredField) :
    Except Diagnostic Walk :=
  if d.name ∈ w.met then .ok w
  else
    let met := d.name :: w.met
    if isSkipped d then
      .ok ⟨met, { w.selection with
        warnings := w.selection.warnings ++ skipWarnings collection d }⟩
    else if d.name ∈ timestampFields then
      if dialect.sharesTimestamps then .ok { w with met }
      else (fieldOf collection d).map fun f => ⟨met, claim collection w.selection f []⟩
    else (fieldOf collection d).map fun f =>
      ⟨met, claim collection w.selection f (kindWarnings collection d)⟩

/-- Selects the fields of a collection. -/
def of (dialect : Dialect) (collection : String) (declared : List DeclaredField) :
    Except Diagnostic Selection :=
  (declared.foldlM (step dialect collection) ⟨[], ⟨[], []⟩⟩).map Walk.selection

end Selection
end TypedCollections
