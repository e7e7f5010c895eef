import TypedCollections.Record.Cast

/-!
What a service needs to know of a model: how it is read from a record and written to one, and the
identity that it carries. A record is a model of itself. The two parts that generated models have
in common, where a record comes from and when it was changed, read and write their own keys.
-/

namespace TypedCollections

def idKey : String := "id"
def collectionIdKey : String := "collectionId"
def collectionNameKey : String := "collectionName"
def createdKey : String := "created"
def updatedKey : String := "updated"

/-- The capability of a model. -/
class Model (α : Type) where
  ofRecord : Record → α
  toRecord : α → Record
  id : α → String
  setId : String → α → α
  collectionId : α → String
  collectionName : α → String
  setCollection : (id name : String) → α → α

namespace Record

/-- The text under a key; any other value counts as none. -/
def exactText (r : Record) (key : String) : String :=
  ((r.get? key).bind Json.Value.string?).getD ""

instance : Model Record where
  ofRecord r := r
  toRecord r := r
  id r := r.exactText idKey
  setId id r := r.set idKey (.string id)
  collectionId r := r.exactText collectionIdKey
  collectionName r := r.exactText collectionNameKey
  setCollection id name r :=
    (r.set collectionIdKey (.string id)).set collectionNameKey (.string name)

end Record

/-- The collection that a record comes from. -/
structure RecordMeta where
  collectionId : String := ""
  collectionName : String := ""
  deriving DecidableEq, Repr

namespace RecordMeta

def ofRecord (r : Record) : RecordMeta := ⟨r.text collectionIdKey, r.text collectionNameKey⟩

/-- Writes the parts that are not empty. -/
def write (m : RecordMeta) (r : Record) : Record :=
  let r := if m.collectionId = "" then r else r.set collectionIdKey (.string m.collectionId)
  if m.collectionName = "" then r else r.set collectionNameKey (.string m.collectionName)

end RecordMeta

/-- When a record was created and changed, in models that do not declare it. -/
structure Timestamps where
  created : Timestamp := .unset
  updated : Timestamp := .unset
  deriving DecidableEq, Repr

namespace Timestamps

def ofRecord (r : Record) : Timestamps := ⟨r.timestamp createdKey, r.timestamp updatedKey⟩

/-- Writes the timestamps that are set. -/
def write (t : Timestamps) (r : Record) : Record :=
  let r := if t.created.isUnset then r else r.set createdKey t.created.toJson
  if t.updated.isUnset then r else r.set updatedKey t.updated.toJson

end Timestamps
end TypedCollections
