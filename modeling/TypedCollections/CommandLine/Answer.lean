import TypedCollections.CommandLine.Arguments
import TypedCollections.CommandLine.Report

/-!
Answering a command line: what is shown, what goes wrong, and the exit code.
-/

namespace TypedCollections.CommandLine

structure Answer where
  /-- Zero for success, one for a diagnostic and two for arguments that cannot be read. -/
  exitCode : Nat
  /-- What is shown, given the milliseconds that have passed. -/
  output : (elapsed : String) → String
  /-- What is shown beside the output. -/
  complaint : String := ""

namespace Answer

def success (output : String → String) : Answer := ⟨0, output, ""⟩

def failure (output : Code) (d : Diagnostic) : Answer :=
  ⟨1, fun _ => output.text, (Report.diagnostic d).text⟩

def ofStop : Stop → Answer
  | .help => success fun _ => Report.usage.text
  | .version => success fun _ => Report.version ++ "\n"
  | .misuse => ⟨2, fun _ => "", Report.usage.text⟩

end Answer

variable {m : Type → Type} [Monad m] [FileStore m]

/-- Carries out a command. -/
def perform (job : Job) : Command → m Answer
  | .generate => do
    match ← job.run with
    | .error d => return .failure (Report.heading ++ Report.failure) d
    | .ok outcome => return .success fun elapsed =>
        (Report.heading ++ Report.generated outcome job.dryRun elapsed).text
  | .check => do
    match ← job.check with
    | .error d => return .failure Report.failure d
    | .ok s => return .success fun _ => (Report.checked s).text
  | .inspect => do
    match ← job.check with
    | .error d => return .failure [] d
    | .ok s => return .success fun _ => s.toJson.pretty ++ "\n"

/-- Answers a command line. -/
def run (args : List String) : m Answer := do
  match read args with
  | .error stop => return .ofStop stop
  | .ok (command, job) => perform job command

end TypedCollections.CommandLine
