import TypedCollections.Files.Path
import TypedCollections.Model.Member
import TypedCollections.Text.Quoted

/-!
The files that are generated for a schema: one Rust module for each collection, in the order of the
collections, and an index that declares the modules and exports the structs, which comes last.
-/

namespace TypedCollections

/-- Lines of code. -/
abbrev Code := List String

namespace Code

def text (code : Code) : String := String.join (code.map (· ++ "\n"))

/-- Lines between brackets, each but the blank ones set in by one step. -/
def block (head : String) (body : Code) : Code :=
  (head ++ " \x7b") :: body.map (fun line => if line = "" then line else "    " ++ line) ++ ["\x7d"]

/-- Puts a blank line before each of several parts. -/
def spaced (parts : List Code) : Code := parts.flatMap ("" :: ·)

end Code

open Text.Quoted (encode)

namespace Member

def declaration (m : Member) : String := "pub " ++ m.name ++ ": " ++ m.typeCode ++ ","

/-- The setter of a field. A field that may be missing is set to a value. -/
def setterCode : Member → Option Code
  | field f =>
    let (parameter, value) :=
      if f.type.base = .text then ("impl Into<String>", "value.into()")
      else (f.type.base.code, "value")
    let value := if f.type.accessor = .optional then "Some(" ++ value ++ ")" else value
    some (Code.block ("pub fn set_" ++ f.setterName ++ "(&mut self, value: " ++ parameter ++ ")")
      ["self." ++ f.memberName ++ " = " ++ value ++ ";"])
  | _ => none

/-- The member of a new model that is read from `record`. -/
def reading (m : Member) : String :=
  m.name ++ ": " ++ source ++ ","
where
  source : String :=
    match m with
    | recordMeta => "RecordMeta::from_record(record)"
    | recordId => "record.get_string(\"id\")"
    | timestamps => "Timestamps::from_record(record)"
    | field f => "record." ++ f.type.getter ++ "(" ++ encode f.key ++ ")"

/-- Writes the member into `record`. A missing value is left out. -/
def writing : Member → Code
  | recordMeta => ["self.meta.write_to(&mut record);"]
  | recordId => ["record.set(\"id\", self.id.clone());"]
  | timestamps => ["self.timestamps.write_to(&mut record);"]
  | field f =>
    if f.type.accessor = .optional then
      Code.block ("if let Some(value) = &self." ++ f.memberName)
        ["record.set(" ++ encode f.key ++ ", value.clone());"]
    else
      let value := "self." ++ f.memberName
      let value :=
        match f.type.base with
        | .flag | .number | .dateTime => value
        | .text | .idList | .json => value ++ ".clone()"
      ["record.set(" ++ encode f.key ++ ", " ++ value ++ ");"]

/-- The member's value as an id, and its change to another one. -/
def idAccess : Member → String × String
  | field f =>
    if f.type.accessor = .optional then
      ("self." ++ f.memberName ++ ".as_deref().unwrap_or_default()",
        "self." ++ f.memberName ++ " = Some(id.to_string());")
    else plain f.memberName
  | _ => plain "id"
where
  plain (name : String) : String × String := ("&self." ++ name, "self." ++ name ++ " = id.to_string();")

end Member

namespace Collection

def structCode (c : Collection) : Code :=
  ["/// Record of the `" ++ c.name ++ "` collection.",
    "#[derive(Debug, Clone, Default, PartialEq)]"]
  ++ Code.block ("pub struct " ++ c.structName) (c.members.map Member.declaration)

/-- The constants and the setters. -/
def inherentCode (c : Collection) : Code :=
  let constant (what value : String) : Code :=
    ["/// Collection " ++ what ++ ".",
      "pub const COLLECTION_" ++ what.toUpper ++ ": &'static str = " ++ encode value ++ ";"]
  Code.block ("impl " ++ c.structName)
    (constant "name" c.name ++ (c.id.map (constant "id")).getD []
      ++ Code.spaced (c.members.filterMap Member.setterCode))

/-- Reading a model from a record, writing it to one, and its identity. -/
def modelCode (c : Collection) : Code :=
  let (idValue, idChange) := c.idMember.idAccess
  Code.block ("impl Model for " ++ c.structName) <|
    Code.block "fn from_record(record: &Record) -> Self"
      (Code.block "Self" (c.members.map Member.reading))
    ++ Code.spaced [
      Code.block "fn to_record(&self) -> Record"
        (["let mut record = Record::new();"] ++ c.members.flatMap Member.writing ++ ["record"]),
      Code.block "fn id(&self) -> &str" [idValue],
      Code.block "fn set_id(&mut self, id: &str)" [idChange],
      Code.block "fn collection_id(&self) -> &str" ["&self.meta.collection_id"],
      Code.block "fn collection_name(&self) -> &str" ["&self.meta.collection_name"],
      Code.block "fn set_collection(&mut self, id: &str, name: &str)"
        ["self.meta.collection_id = id.to_string();",
          "self.meta.collection_name = name.to_string();"]]

def timestampsCode (c : Collection) : Code :=
  Code.block ("impl HasTimestamps for " ++ c.structName)
    (Code.block "fn timestamps(&self) -> &Timestamps" ["&self.timestamps"])

end Collection

/-- A file by its name, and what it holds. -/
structure SourceFile where
  name : String
  content : String
  deriving DecidableEq, Repr

namespace SourceFile

/-- The runtime library that generated code refers to. -/
def defaultRuntime : String := "pbgen_runtime"

def heading (source : String) : Code :=
  ["//! Generated by pbgen from `" ++ source ++ "`. Do not edit.", ""]

/-- The file of a model. -/
def ofCollection (runtime source : String) (c : Collection) : SourceFile :=
  let code :=
    heading source
    ++ ["use " ++ runtime ++ "::\x7b" ++ ", ".intercalate c.imports ++ "\x7d;", ""]
    ++ c.structCode
    ++ Code.spaced ([c.inherentCode, c.modelCode]
      ++ (if c.sharesTimestamps then [c.timestampsCode] else [])
      ++ [["const _: () = " ++ runtime ++ "::assert_model::<" ++ c.structName ++ ">();"]])
  ⟨c.moduleName ++ ".rs", code.text⟩

/-- The index of the models. -/
def index (source : String) (collections : List Collection) : SourceFile :=
  let code :=
    heading source
    ++ collections.map (fun c => "pub mod " ++ c.moduleName ++ ";")
    ++ (if collections = [] then [] else [""])
    ++ collections.map (fun c => "pub use " ++ c.moduleName ++ "::" ++ c.structName ++ ";")
  ⟨"mod.rs", code.text⟩

end SourceFile

namespace Schema

/-- How the files name the document that they come from: by its file name, if its path has one. -/
def sourceName (s : Schema) : String := (Path.fileName? s.source).getD s.source

/-- All files of a schema, for a runtime library. -/
def files (runtime : String) (s : Schema) : List SourceFile :=
  s.collections.map (SourceFile.ofCollection runtime s.sourceName)
    ++ [SourceFile.index s.sourceName s.collections]

end Schema

end TypedCollections
