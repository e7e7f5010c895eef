import TypedCollections.Model.Collection

/-!
The members of the struct that models a collection, each with its name, its type and the keys of a
record that it holds. The generated code and the reading and writing of records both
follow from this description.
-/

namespace TypedCollections

inductive Member where
  /-- The id and the name of the collection that a record says it comes from. -/
  | recordMeta
  /-- The id of the record, when the schema declares no field for it. -/
  | recordId
  /-- When the record was created and updated, when every model of the dialect knows that. -/
  | timestamps
  | field (f : Field)
  deriving DecidableEq, Repr

/-- Member names that no field may have. -/
def reservedMembers : List String := ["meta", "timestamps"]

namespace Field

/-- What the setter of the field is named for. Only the field with the key `id` may be called
`id`. -/
def setterName (f : Field) : String :=
  let name := Identifier.snake f.identifier
  if name ∈ reservedMembers ∨ (name = "id" ∧ f.key ≠ "id") then name ++ "_" else name

def memberName (f : Field) : String := Identifier.escaped f.setterName

end Field

namespace Member

/-- The name in the generated code. -/
def name : Member → String
  | recordMeta => "meta"
  | recordId => "id"
  | timestamps => "timestamps"
  | field f => f.memberName

/-- The type in the generated code. -/
def typeCode : Member → String
  | recordMeta => "RecordMeta"
  | recordId => "String"
  | timestamps => "Timestamps"
  | field f => f.type.code

/-- The keys that the member writes into a record. -/
def keys : Member → List String
  | recordMeta => ["collectionId", "collectionName"]
  | recordId => ["id"]
  | timestamps => ["created", "updated"]
  | field f => [f.key]

end Member

namespace Collection

def members (c : Collection) : List Member :=
  .recordMeta :: (if c.hasIdField then [] else [.recordId])
    ++ (if c.sharesTimestamps then [.timestamps] else [])
    ++ c.fields.map .field

/-- The member that holds the id of the record. -/
def idMember (c : Collection) : Member := ((c.field? "id").map Member.field).getD .recordId

def moduleName (c : Collection) : String := Identifier.moduleName c.structName

/-- What the file of the model imports from the runtime library, in alphabetic order. -/
def imports (c : Collection) : List String :=
  let used := ["Model", "Record", "RecordMeta"] ++ c.importedItems
  ["DateTime", "HasTimestamps", "Model", "Record", "RecordMeta", "Timestamps"].filter (· ∈ used)

end Collection
end TypedCollections
