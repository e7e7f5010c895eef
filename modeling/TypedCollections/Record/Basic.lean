import TypedCollections.Json.Shape
import TypedCollections.Json.Printer
import TypedCollections.Text.Utf8

/-!
Records as the store sends them: JSON values under keys. Keys that nobody asks for are kept.
-/

namespace TypedCollections

open Json (Value Members)

structure Record where
  members : Members Value
  deriving Repr

namespace Record

def empty : Record := ⟨[]⟩

def get? (r : Record) (key : String) : Option Value := Members.get? key r.members

def set (r : Record) (key : String) (value : Value) : Record :=
  ⟨Members.insert key value r.members⟩

def erase (r : Record) (key : String) : Record := ⟨Members.erase key r.members⟩

def contains (r : Record) (key : String) : Bool := (r.get? key).isSome

def size (r : Record) : Nat := r.members.length

def keys (r : Record) : List String := r.members.map Prod.fst

def toJson (r : Record) : Value := .object r.members

@[simp] theorem get?_empty (key : String) : empty.get? key = none := rfl

@[simp] theorem get?_set_self (r : Record) (key : String) (v : Value) :
    (r.set key v).get? key = some v := Members.get?_insert_self ..

theorem get?_set_of_ne {key other : String} (h : other ≠ key) (r : Record) (v : Value) :
    (r.set key v).get? other = r.get? other := Members.get?_insert_of_ne h ..

@[simp] theorem get?_erase_self (r : Record) (key : String) : (r.erase key).get? key = none :=
  Members.get?_erase_self ..

theorem get?_erase_of_ne {key other : String} (h : other ≠ key) (r : Record) :
    (r.erase key).get? other = r.get? other := Members.get?_erase_of_ne h ..

/-- Reads a record from a JSON text, which must hold an object. -/
def read (text : String) : Except Json.Rejection Record :=
  Json.readAll (fun s =>
    match Json.skipBlank s with
    | [] => .error (.ahead .endInValue [])
    | b :: r =>
      if b = Ascii.openCurly then
        (Json.value Json.deepest s).map fun (v, t) =>
          match v with
          | .object members => (⟨members⟩, t)
          | _ => (empty, t)
      else .error (Json.mismatch "a map" b r)) (Utf8.encode text)

end Record
end TypedCollections
