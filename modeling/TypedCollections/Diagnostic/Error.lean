/-!
What stops a compilation. Each diagnostic names the schema file and holds what its message says;
most come with a hint at what to do.
-/

namespace TypedCollections

inductive Diagnostic where
  | invalidPath (path : String)
  | notFound (path : String)
  | unreadable (path message : String)
  | invalidSchema (path message : String)
  | malformed (path : String) (line column : Nat) (message : String)
  | mixedDialect (path : String) (fieldsIndex schemaIndex : Nat)
  | unknownDialect (path : String)
  | unmappableField (path collection field kind : String)
  | unnamedField (path collection : String)
  | unwritable (path message : String)
  deriving DecidableEq, Repr

namespace Diagnostic

def message : Diagnostic → String
  | invalidPath _ => "No schema path was given"
  | notFound path => "Schema file not found: " ++ path
  | unreadable path message => "Failed to read schema file '" ++ path ++ "': " ++ message
  | invalidSchema path message => "Invalid schema '" ++ path ++ "': " ++ message
  | malformed path line column message =>
    "Malformed schema JSON in '" ++ path ++ "' at line " ++ toString line ++ ", column "
      ++ toString column ++ ": " ++ message
  | mixedDialect path fieldsIndex schemaIndex =>
    "Schema '" ++ path ++ "' mixes dialects: collection #" ++ toString fieldsIndex
      ++ " lists its fields under \"fields\" but collection #" ++ toString schemaIndex
      ++ " uses \"schema\""
  | unknownDialect path => "Could not tell which schema dialect '" ++ path ++ "' uses"
  | unmappableField _ collection field kind =>
    "Field '" ++ field ++ "' in collection '" ++ collection ++ "' has unsupported type '" ++ kind
      ++ "'"
  | unnamedField _ collection =>
    "Cannot derive an identifier from an empty name (collection '" ++ collection ++ "')"
  | unwritable path message => "Failed to write '" ++ path ++ "': " ++ message

def code : Diagnostic → String
  | invalidPath _ => "pbgen::load::invalid_path"
  | notFound _ => "pbgen::load::not_found"
  | unreadable _ _ => "pbgen::load::read_failed"
  | invalidSchema _ _ => "pbgen::schema::invalid"
  | malformed _ _ _ _ => "pbgen::schema::parse_failed"
  | mixedDialect _ _ _ => "pbgen::schema::mixed_dialect"
  | unknownDialect _ => "pbgen::schema::unknown_dialect"
  | unmappableField _ _ _ _ => "pbgen::field::unmappable_type"
  | unnamedField _ _ => "pbgen::field::invalid_name"
  | unwritable _ _ => "pbgen::io::write_failed"

def help : Diagnostic → Option String
  | invalidPath _ => some
    "Pass the path of a collections export, e.g. `pbgen generate --schema pb_schema.json`"
  | notFound _ => some ("Export the collections from the admin UI (Settings > Export collections) "
      ++ "and point --schema at the saved file")
  | unreadable _ _ => some
    "Check that the path is a regular file and that it is readable by the current user"
  | invalidSchema _ _ => some ("The schema must be a JSON array with at least one collection "
      ++ "object, each with a non-empty \"name\"")
  | malformed _ _ _ _ => some ("Re-export the collections or run the file through a JSON "
      ++ "validator; hand edits often leave trailing commas")
  | mixedDialect _ _ _ => some ("Use a single export: rename every \"schema\" key to \"fields\" "
      ++ "(v0.23+ layout) or every \"fields\" key to \"schema\" (legacy layout)")
  | unknownDialect _ => some ("No collection has a \"fields\" or \"schema\" key. Add the field list "
      ++ "or rerun with --unknown-dialect latest")
  | unmappableField _ _ _ _ => some ("Required fields must use a known type (text, editor, "
      ++ "longtext, url, email, select, bool, number, date, relation, file, json). Make the field "
      ++ "optional to fall back to a string")
  | unnamedField _ _ => some "Every collection and field needs a non-empty \"name\""
  | unwritable _ _ => none

/-- Names the file, in a diagnostic about a field that does not name one yet. -/
def inFile (file : String) : Diagnostic → Diagnostic
  | unmappableField path collection field kind =>
    unmappableField (if path.isEmpty then file else path) collection field kind
  | unnamedField path collection => unnamedField (if path.isEmpty then file else path) collection
  | other => other

/-- Names the collection, in a diagnostic about a missing name that does not name one yet. -/
def inCollection (name : String) : Diagnostic → Diagnostic
  | unnamedField path collection =>
    unnamedField path (if collection.isEmpty then name else collection)
  | other => other

end Diagnostic
end TypedCollections
