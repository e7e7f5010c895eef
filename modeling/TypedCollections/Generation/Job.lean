import TypedCollections.Files.Store
import TypedCollections.Model.SourceFile

/-!
Running the compiler on files. A job reads a schema, and writes the files of its models unless it
is a dry run, which only says which files it would write. The index is written last, so it never
names a model that was not written.
-/

namespace TypedCollections

structure Job where
  schemaPath : String := "pb_schema.json"
  outDir : String := "src/models"
  /-- The runtime library that generated code refers to. -/
  runtime : String := SourceFile.defaultRuntime
  options : LoadOptions := {}
  dryRun : Bool := false
  deriving DecidableEq, Repr

/-- What a job that succeeds tells. -/
structure Outcome where
  dialect : Schema.Dialect
  collections : Nat
  fields : Nat
  /-- The paths of the files, in the order in which they are written. -/
  files : List String
  warnings : List Warning
  deriving DecidableEq, Repr

/-- What is told of a schema whose files have these paths. -/
def Outcome.of (s : Schema) (paths : List String) : Outcome where
  dialect := s.dialect
  collections := s.collections.length
  fields := s.fieldCount
  files := paths
  warnings := s.warnings

namespace Job

variable {m : Type → Type} [Monad m] [FileStore m]

/-- Loads the schema. -/
def check (job : Job) : m (Except Diagnostic Schema) := do
  if job.schemaPath = "" then return .error (.invalidPath job.schemaPath)
  if !(← FileStore.contains job.schemaPath) then return .error (.notFound job.schemaPath)
  match ← FileStore.read job.schemaPath with
  | .error message => return .error (.unreadable job.schemaPath message)
  | .ok bytes => return Compiler.load job.options job.schemaPath bytes

/-- Where a file goes. -/
def pathOf (job : Job) (f : SourceFile) : String := Path.join job.outDir f.name

/-- Creates a directory with those that it lies in, unless they are there. -/
def createDirectories (path : String) : m (Except Diagnostic Unit) := do
  match ← FileStore.createDirectories path with
  | .error message => return .error (.unwritable path message)
  | .ok () => return .ok ()

/-- Creates what a path lies in. -/
def createParent (path : String) : m (Except Diagnostic Unit) :=
  match Path.parent? path with
  | none => return .ok ()
  | some directory => createDirectories directory

/-- Writes a file, after the directory that it lies in. -/
def writeFile (job : Job) (f : SourceFile) : m (Except Diagnostic Unit) := do
  match ← createParent (job.pathOf f) with
  | .error e => return .error e
  | .ok () =>
    match ← FileStore.write (job.pathOf f) f.content with
    | .error message => return .error (.unwritable (job.pathOf f) message)
    | .ok () => return .ok ()

/-- Writes files in order, up to the first that cannot be written. It gives the paths of those that
were `written` before and of its own. -/
def writeFiles (job : Job) (written : List String) :
    List SourceFile → m (Except Diagnostic (List String))
  | [] => return .ok written
  | f :: rest => do
    match ← job.writeFile f with
    | .error e => return .error e
    | .ok () => writeFiles job (written ++ [job.pathOf f]) rest

/-- Writes files into the output directory, which is created if it is missing, and gives their
paths. -/
def write (job : Job) (files : List SourceFile) : m (Except Diagnostic (List String)) := do
  match ← createDirectories job.outDir with
  | .error e => return .error e
  | .ok () => job.writeFiles [] files

/-- What is told of files of a schema that go to the output directory. -/
def outcome (job : Job) (s : Schema) (files : List SourceFile) : Outcome :=
  .of s (files.map job.pathOf)

/-- What makes files of a schema. -/
abbrev Renderer := Schema → Except Diagnostic (List SourceFile)

/-- Loads the schema, and writes the files that are made of it. -/
def runWith (job : Job) (render : Renderer) : m (Except Diagnostic Outcome) := do
  match ← job.check with
  | .error e => return .error e
  | .ok s =>
    match render s with
    | .error e => return .error e
    | .ok files =>
      if job.dryRun then return .ok (job.outcome s files)
      match ← job.write files with
      | .error e => return .error e
      | .ok paths => return .ok (.of s paths)

/-- Loads the schema and writes the files of its models. -/
def run (job : Job) : m (Except Diagnostic Outcome) :=
  job.runWith fun s => .ok (s.files job.runtime)

end Job
end TypedCollections
