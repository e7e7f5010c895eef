import TypedCollections.Json.Shape

/-!
Schema documents as they are declared: a list of collections, each with a list of fields under one
of two keys. Every key may be left out, and unknown keys are passed over.
-/

namespace TypedCollections.Schema

structure DeclaredField where
  name : String := ""
  kind : String := ""
  required : Bool := false
  system : Bool := false
  hidden : Bool := false
  deriving DecidableEq, Repr

structure DeclaredCollection where
  id : Option String := none
  name : String := ""
  kind : Option String := none
  system : Bool := false
  fields : Option (List DeclaredField) := none
  schema : Option (List DeclaredField) := none
  /-- The known keys that the declaration has, in their order there. -/
  keys : List String := []
  deriving DecidableEq, Repr

/-- The declared fields, whichever key holds them. -/
def DeclaredCollection.fieldList (c : DeclaredCollection) : List DeclaredField :=
  (c.fields.or c.schema).getD []

open Json in
def fieldShape : Shape DeclaredField where
  title := "struct RawFieldSchema"
  keys := ["name", "type", "required", "system", "hidden"]
  start := {}
  fill key f s :=
    if key = "name" then (text s).map fun (x, r) => ({ f with name := x }, r)
    else if key = "type" then (text s).map fun (x, r) => ({ f with kind := x }, r)
    else if key = "required" then (flag s).map fun (x, r) => ({ f with required := x }, r)
    else if key = "system" then (flag s).map fun (x, r) => ({ f with system := x }, r)
    else (flag s).map fun (x, r) => ({ f with hidden := x }, r)

open Json in
def readField : Reader DeclaredField := fun s => (fieldShape.read s).map fun (x, r) => (x.1, r)

open Json in
def collectionShape : Shape DeclaredCollection where
  title := "struct RawCollectionSchema"
  keys := ["id", "name", "type", "system", "fields", "schema"]
  start := {}
  fill key c s :=
    if key = "id" then (orNull text s).map fun (x, r) => ({ c with id := x }, r)
    else if key = "name" then (text s).map fun (x, r) => ({ c with name := x }, r)
    else if key = "type" then (orNull text s).map fun (x, r) => ({ c with kind := x }, r)
    else if key = "system" then (flag s).map fun (x, r) => ({ c with system := x }, r)
    else if key = "fields" then
      (orNull (listOf readField) s).map fun (x, r) => ({ c with fields := x }, r)
    else (orNull (listOf readField) s).map fun (x, r) => ({ c with schema := x }, r)

open Json in
def readCollection : Reader DeclaredCollection := fun s =>
  (collectionShape.read s).map fun (x, r) => ({ x.1 with keys := x.2 }, r)

/-- Reads a document. -/
def readDocument (bytes : Bytes) : Except Json.Rejection (List DeclaredCollection) :=
  Json.readAll (Json.listOf readCollection) bytes

end TypedCollections.Schema
