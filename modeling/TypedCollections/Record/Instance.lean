import TypedCollections.Model.Member
import TypedCollections.Record.Model

/-!
Values of the generated models. A collection describes a model; `Instance` holds a value for each
of its members, and reads and writes them as the generated code does.
-/

namespace TypedCollections

open Json (Value)

/-- The value of a field. The optional ones may be missing. -/
inductive FieldValue where
  | text (value : String)
  | text? (value : Option String)
  | flag (value : Bool)
  | flag? (value : Option Bool)
  | number (value : Binary64)
  | number? (value : Option Binary64)
  | timestamp (value : Timestamp)
  | ids (value : List String)
  | json (value : Value)

namespace FieldValue

/-- Reads the value under a key of a record. -/
def ofRecord (r : Record) (key : String) (t : MemberType) : FieldValue :=
  match t.base, t.optional with
  | .text, false => text (r.text key)
  | .text, true => text? (r.text? key)
  | .flag, false => flag (r.flag key)
  | .flag, true => flag? (r.flag? key)
  | .number, false => number (r.number key)
  | .number, true => number? (r.number? key)
  | .dateTime, _ => timestamp (r.timestamp key)
  | .idList, _ => ids (r.ids key)
  | .json, _ => json (r.json key)

/-- The value as JSON, unless it is missing. -/
def toJson? : FieldValue → Option Value
  | text s => some (.string s)
  | text? s => s.map .string
  | flag b => some (.boolean b)
  | flag? b => b.map .boolean
  | number x => some (.ofBinary64 x)
  | number? x => x.map .ofBinary64
  | timestamp t => some t.toJson
  | ids xs => some (.array (xs.map .string))
  | json v => some v

/-- Writes the value under a key. A missing one leaves the record as it is. -/
def write (v : FieldValue) (key : String) (r : Record) : Record :=
  match v.toJson? with
  | some j => r.set key j
  | none => r

/-- The value after the setter of its field was called: one that may be missing is no longer so. A
setter takes values of its own type only. -/
def set (new : FieldValue) : FieldValue → FieldValue
  | text? _ => match new with
    | text s => text? (some s)
    | _ => new
  | flag? _ => match new with
    | flag b => flag? (some b)
    | _ => new
  | number? _ => match new with
    | number x => number? (some x)
    | _ => new
  | _ => new

/-- The value as an id. -/
def id : FieldValue → String
  | text s => s
  | text? s => s.getD ""
  | _ => ""

/-- A text that is set is no longer missing; values of other types are no ids. -/
def setId (id : String) : FieldValue → FieldValue
  | text _ => text id
  | text? _ => text? (some id)
  | other => other

end FieldValue

/-- A value of the model of a collection. The values of the fields come in their order. -/
structure Instance (c : Collection) where
  recordMeta : RecordMeta
  /-- The id, in models that declare no field for it. -/
  recordId : String
  /-- In models that share their timestamps. -/
  timestamps : Timestamps
  values : List FieldValue

namespace Instance

variable {c : Collection}

def ofRecord (c : Collection) (r : Record) : Instance c where
  recordMeta := .ofRecord r
  recordId := if c.hasIdField then "" else r.text idKey
  timestamps := if c.sharesTimestamps then .ofRecord r else {}
  values := c.fields.map fun f => .ofRecord r f.key f.type

/-- Writes the values of the fields under their keys, in order. -/
def writeFields : List Field → List FieldValue → Record → Record
  | f :: fields, v :: values, r => writeFields fields values (v.write f.key r)
  | _, _, r => r

def toRecord (m : Instance c) : Record :=
  let r := m.recordMeta.write .empty
  let r := if c.hasIdField then r else r.set idKey (.string m.recordId)
  let r := if c.sharesTimestamps then m.timestamps.write r else r
  writeFields c.fields m.values r

/-- The value of the field with a key. -/
def value? (m : Instance c) (key : String) : Option FieldValue :=
  (m.values[c.fields.findIdx fun f => f.key == key]?)

/-- Gives the field with a key another value. -/
def modify (m : Instance c) (key : String) (change : FieldValue → FieldValue) : Instance c :=
  { m with values := m.values.modify (c.fields.findIdx fun f => f.key == key) change }

/-- Calls the setter of the field with a key. -/
def set (m : Instance c) (key : String) (value : FieldValue) : Instance c :=
  m.modify key (.set value)

def id (m : Instance c) : String :=
  if c.hasIdField then ((m.value? idKey).map FieldValue.id).getD "" else m.recordId

def setId (id : String) (m : Instance c) : Instance c :=
  if c.hasIdField then m.modify idKey (.setId id) else { m with recordId := id }

instance : Model (Instance c) where
  ofRecord := ofRecord c
  toRecord := toRecord
  id := id
  setId := setId
  collectionId m := m.recordMeta.collectionId
  collectionName m := m.recordMeta.collectionName
  setCollection id name m := { m with recordMeta := ⟨id, name⟩ }

end Instance
end TypedCollections
