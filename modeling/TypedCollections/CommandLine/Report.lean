import TypedCollections.Generation.Job
import TypedCollections.Json.Printer
import TypedCollections.Model.Inspection

/-!
What the command line shows, line by line.
-/

namespace TypedCollections.CommandLine.Report

def version : String := "pbgen 0.1.0"

/-- A line behind a symbol. -/
def marked (symbol text : String) : String := "  " ++ symbol ++ " " ++ text

def heading : Code := [marked "◆" version, ""]

def failure : Code := ["", marked "◆" "Schema rejected.", ""]

def warnings (all : List Warning) : Code := all.map fun w => marked "◆" w.message

/-- A number of things, of which there may be one. -/
def count (n : Nat) (thing : String) : String :=
  toString n ++ " " ++ thing ++ (if n = 1 then "" else "s")

/-- The files as the branches of a tree. -/
def files : List String → Code
  | [] => []
  | [last] => ["  ╰──  " ++ last]
  | path :: rest => ("  ├──  " ++ path) :: files rest

/-- What a job has done, and how long it took. -/
def generated (o : Outcome) (dryRun : Bool) (elapsed : String) : Code :=
  warnings o.warnings
    ++ (if o.warnings = [] then [] else [""])
    ++ [marked "◉" (count o.collections "model" ++ " · " ++ count o.fields "field" ++ " ("
      ++ o.dialect.name ++ " schema)")]
    ++ files o.files
    ++ [""]
    ++ (if dryRun then ["  Dry run: nothing was written."] else [])
    ++ [marked "◇" ("Done in " ++ elapsed ++ "ms")]

/-- Spaces that fill a text up to a width. -/
def fill (width : Nat) (text : String) : String :=
  String.ofList (List.replicate (width - text.length) ' ')

def collection (c : Collection) : String :=
  let fields := toString c.fields.length
  marked "▸" ("  " ++ c.name ++ fill 24 c.name ++ " " ++ fill 3 fields ++ fields ++ " fields · "
    ++ c.dialect.name)

/-- What a schema holds. -/
def checked (s : Schema) : Code :=
  s.collections.map collection
    ++ [""]
    ++ warnings s.warnings
    ++ [marked "◉" ("Looking good. " ++ count s.collections.length "collection" ++ " · "
      ++ count s.warnings.length "warning" ++ ".")]
    ++ (if s.detected = s.dialect then []
      else [marked "◇" ("No field list key found; treated as " ++ s.dialect.name ++ " schema.")])

/-- A diagnostic, with its code and its hint. -/
def diagnostic (d : Diagnostic) : Code :=
  ["error[" ++ d.code ++ "]: " ++ d.message] ++ (d.help.map ("help: " ++ ·)).toList

def usage : Code :=
  ["Generate typed Rust models from a collections schema export",
    "",
    "Usage: pbgen [--log-level LEVEL] COMMAND [SETTINGS]",
    "",
    "Commands:",
    "  generate  Generate model sources from a schema export",
    "  check     Validate a schema export without generating code",
    "  inspect   Print the intermediate representation as JSON",
    "",
    "Settings:",
    "  -s, --schema PATH             Schema export [default: pb_schema.json]",
    "      --unknown-dialect POLICY  latest or fail [default: latest]",
    "      --superusers NAME         Collection without a model [default: _superusers]",
    "  -o, --output DIRECTORY        (generate) Output directory [default: src/models]",
    "      --runtime-crate PATH      (generate) Runtime crate [default: pbgen_runtime]",
    "      --dry-run                 (generate) Write nothing",
    "  -h, --help                    Print this",
    "  -V, --version                 Print the version"]

end TypedCollections.CommandLine.Report
