import TypedCollections.Naming.Identifier

/-!
Names that the generated Rust code may not use as they are, and what is used instead.
-/

namespace TypedCollections

/-- Words that may stand for a member only behind `r#`. -/
def keywords : List String :=
  ["abstract", "as", "async", "await", "become", "box", "break", "const", "continue", "do",
    "dyn", "else", "enum", "extern", "false", "final", "fn", "for", "gen", "if", "impl", "in",
    "let", "loop", "macro", "match", "mod", "move", "mut", "override", "priv", "pub", "ref",
    "return", "static", "struct", "trait", "true", "try", "type", "typeof", "unsafe",
    "unsized", "use", "virtual", "where", "while", "yield"]

/-- Words that cannot be used even behind `r#`. -/
def strictKeywords : List String := ["crate", "self", "Self", "super"]

/-- The types that a generated file refers to, and `Self`. -/
def usedTypeNames : List String :=
  ["Self", "Model", "Record", "RecordMeta", "DateTime", "Timestamps", "HasTimestamps", "String",
    "Option", "Vec", "Box", "Result"]

namespace Identifier

/-- The name of a struct, which must not hide a type that its file refers to. -/
def structName (identifier : String) : String :=
  if identifier ∈ usedTypeNames then identifier ++ "Model" else identifier

/-- The name of the module of a struct, and of its file. A keyword gets an underscore, so that the
file has a plain name and is never the index `mod.rs`. -/
def moduleName (structName : String) : String :=
  let name := snake structName
  if name ∈ keywords ∨ name ∈ strictKeywords then name ++ "_" else name

/-- A name as it is written in the code. -/
def escaped (name : String) : String :=
  if name ∈ strictKeywords then name ++ "_"
  else if name ∈ keywords then "r#" ++ name
  else name

end Identifier
end TypedCollections
