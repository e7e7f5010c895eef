import TypedCollections.Json.Value
import TypedCollections.Model.Collection

/-!
The compiled form of a schema as a JSON value, for those who want to look at it. The keys come in
the order in which they are declared here.
-/

namespace TypedCollections

open Json (Value)

def Warning.toJson : Warning → Value
  | lossyFallback collection field kind => .object
      [("kind", .string "lossy_fallback"), ("collection", .string collection),
        ("field", .string field), ("fieldType", .string kind)]
  | identifierCollision collection field identifier => .object
      [("kind", .string "identifier_collision"), ("collection", .string collection),
        ("field", .string field), ("identifier", .string identifier)]
  | skippedHiddenRequired collection field => .object
      [("kind", .string "skipped_hidden_required"), ("collection", .string collection),
        ("field", .string field)]

def Field.toJson (f : Field) : Value := .object
  [("identifier", .string f.identifier), ("key", .string f.key),
    ("typeName", .string f.type.code), ("baseType", .string f.type.base.code),
    ("isPointer", .boolean f.type.optional), ("accessor", .string f.type.accessor.name),
    ("target", .string f.type.base.name)]

def Collection.toJson (c : Collection) : Value := .object <|
  [("name", .string c.name), ("structName", .string c.structName)]
  ++ (c.id.map fun id => ("collectionId", Value.string id)).toList
  ++ [("fields", .array (c.fields.map Field.toJson)), ("dialect", .string c.dialect.name),
    ("usesSharedTimestamps", .boolean c.sharesTimestamps),
    ("imports", .array (c.importedItems.map Value.string))]

def Schema.toJson (s : Schema) : Value := .object
  [("source", .string s.source), ("detectedDialect", .string s.detected.name),
    ("dialect", .string s.dialect.name),
    ("collections", .array (s.collections.map Collection.toJson)),
    ("warnings", .array (s.warnings.map Warning.toJson))]

end TypedCollections
