import TypedCollections.CommandLine.Answer

/-!
The program: answers its command line with the files of the system that it runs on.
-/

namespace TypedCollections

/-- Runs an action, and says in words why it failed. -/
def inWords {α : Type} (action : IO α) : IO (Except String α) := do
  try
    return .ok (← action)
  catch e =>
    return .error (toString e)

instance : FileStore IO where
  contains path := return (← inWords (IO.FS.realPath ⟨path⟩)).toOption.isSome
  read path := inWords (return (← IO.FS.readBinFile ⟨path⟩).toList)
  createDirectories path := inWords (if path = "" then pure () else IO.FS.createDirAll ⟨path⟩)
  write path content := inWords (IO.FS.writeFile ⟨path⟩ content)

end TypedCollections

open TypedCollections

def main (args : List String) : IO UInt32 := do
  let start ← IO.monoMsNow
  let answer : CommandLine.Answer ← CommandLine.run args
  let elapsed := (← IO.monoMsNow) - start
  IO.print (answer.output (toString elapsed))
  IO.eprint answer.complaint
  return answer.exitCode.toUInt32
