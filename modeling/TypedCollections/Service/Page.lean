import TypedCollections.Json.Shape
import TypedCollections.Record.Basic

/-!
Pages of records, as the store answers with them. An answer is a JSON value, whose parts must be of
the right kinds; parts that are left out are zero. It may also be a list of the five parts.
-/

namespace TypedCollections

open Json (Value Found Reason Rejection)

structure Page (α : Type) where
  page : Nat := 0
  perPage : Nat := 0
  totalItems : Int := 0
  totalPages : Int := 0
  items : List α := []

namespace Page

def map {α β : Type} (f : α → β) (p : Page α) : Page β := { p with items := p.items.map f }

abbrev Decoded (α : Type) := Except Rejection α

def reject {α : Type} (reason : Reason) : Decoded α := .error ⟨reason, none⟩

def wrongType {α : Type} (v : Value) (expected : String) : Decoded α :=
  reject (.wrongType (.ofValue v) expected)

/-- An integer between bounds, whose type is named in the refusal of any other value. -/
def integer (name : String) (least greatest : Int) (v : Value) : Decoded Int :=
  match v with
  | .number (.integer i) =>
    if least ≤ i ∧ i ≤ greatest then .ok i else reject (.integerOutOfRange i name)
  | v => wrongType v name

/-- A count of 32 bits. -/
def count (v : Value) : Decoded Nat := (integer "u32" 0 (2 ^ 32 - 1) v).map Int.toNat

/-- A total of 64 bits, which may be negative. -/
def total (v : Value) : Decoded Int := integer "i64" (-2 ^ 63) (2 ^ 63 - 1) v

def record (v : Value) : Decoded Record :=
  match v with
  | .object members => .ok ⟨members⟩
  | v => wrongType v "a map"

def records (v : Value) : Decoded (List Record) :=
  match v with
  | .array items => items.mapM record
  | v => wrongType v "a sequence"

/-- Takes in the part with a key. Unknown parts are passed over. -/
def fill (p : Page Record) (key : String) (v : Value) : Decoded (Page Record) :=
  if key = "page" then (count v).map fun n => { p with page := n }
  else if key = "perPage" then (count v).map fun n => { p with perPage := n }
  else if key = "totalItems" then (total v).map fun n => { p with totalItems := n }
  else if key = "totalPages" then (total v).map fun n => { p with totalPages := n }
  else if key = "items" then (records v).map fun items => { p with items }
  else .ok p

/-- The keys of the parts, in their order in a list. -/
def keys : List String := ["page", "perPage", "totalItems", "totalPages", "items"]

/-- Reads a page from an answer. -/
def ofJson (v : Value) : Decoded (Page Record) :=
  match v with
  | .object members => members.foldlM (fun p (key, v) => p.fill key v) {}
  | .array values => do
    let p ← (keys.zip values).foldlM (fun p (key, v) => p.fill key v) {}
    if keys.length < values.length then reject (.tooLong values.length) else return p
  | v => wrongType v "struct ListResponse"

end Page
end TypedCollections
