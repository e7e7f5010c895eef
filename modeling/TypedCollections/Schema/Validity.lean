import TypedCollections.Schema.Document

/-!
What a schema document must meet before it is compiled: it declares at least one collection, and
the names of the collections are there, can be parts of identifiers, and differ.
-/

namespace TypedCollections.Schema

inductive Flaw where
  | emptyFile
  | noCollections
  | unnamed (index : Nat)
  | badName (name : String)
  | declaredTwice (name : String)
  | sameStruct (first second structName : String)
  deriving DecidableEq, Repr

def Flaw.message : Flaw → String
  | .emptyFile => "file is empty"
  | .noCollections => "no collections found"
  | .unnamed index => "collection #" ++ toString index ++ " has no name"
  | .badName name =>
    "collection name '" ++ name ++ "' may only contain letters, digits and underscores"
  | .declaredTwice name => "collection '" ++ name ++ "' is declared more than once"
  | .sameStruct first second structName =>
    "collections '" ++ first ++ "' and '" ++ second ++ "' both generate the struct " ++ structName

def isNameChar (c : Char) : Bool := c.isAlphanum || c == '_'

/-- Checks the names from the one at the index on, given those before it. -/
def checkNames (index : Nat) (before : List String) : List String → Except Flaw Unit
  | [] => .ok ()
  | name :: rest =>
    if name = "" then .error (.unnamed index)
    else if ¬name.toList.all isNameChar then .error (.badName name)
    else if name ∈ before then .error (.declaredTwice name)
    else checkNames (index + 1) (name :: before) rest

def checkCollections (collections : List DeclaredCollection) : Except Flaw Unit :=
  if collections = [] then .error .noCollections
  else checkNames 0 [] (collections.map DeclaredCollection.name)

end TypedCollections.Schema
