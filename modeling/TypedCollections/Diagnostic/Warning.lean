/-!
Findings about a field that do not stop a compilation.
-/

namespace TypedCollections

inductive Warning where
  /-- An optional field of unknown kind became a text. -/
  | lossyFallback (collection field kind : String)
  /-- The identifier of a field was taken, so it got another one. -/
  | identifierCollision (collection field identifier : String)
  /-- A field that must have a value is hidden, so it was left out. -/
  | skippedHiddenRequired (collection field : String)
  deriving DecidableEq, Repr

namespace Warning

def collection : Warning → String
  | lossyFallback c _ _ => c
  | identifierCollision c _ _ => c
  | skippedHiddenRequired c _ => c

def message : Warning → String
  | lossyFallback c f kind =>
    c ++ "." ++ f ++ ": unknown type '" ++ kind ++ "', generated as Option<String>"
  | identifierCollision c f identifier =>
    c ++ "." ++ f ++ ": identifier already taken, renamed to " ++ identifier
  | skippedHiddenRequired c f =>
    c ++ "." ++ f ++ ": required but hidden, left out of the generated model"

end Warning
end TypedCollections
