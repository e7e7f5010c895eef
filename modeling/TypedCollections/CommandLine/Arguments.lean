import TypedCollections.Generation.Job

/-!
Command lines. An argument that starts with a hyphen names a setting, in full behind two hyphens or
by its letter behind one; its value follows as the next argument, behind an equals sign, or right
behind the letter. Each setting is given once at most. The first argument that is not about a
setting names the command.
-/

namespace TypedCollections.CommandLine

inductive Command where
  | generate
  | check
  | inspect
  deriving DecidableEq, Repr

def Command.name : Command → String
  | generate => "generate"
  | check => "check"
  | inspect => "inspect"

def commands : List Command := [.generate, .check, .inspect]

inductive Setting where
  | logLevel
  | schema
  | unknownDialect
  | superusers
  | output
  | runtime
  | dryRun
  | help
  | version
  deriving DecidableEq, Repr

namespace Setting

def name : Setting → String
  | logLevel => "log-level"
  | schema => "schema"
  | unknownDialect => "unknown-dialect"
  | superusers => "superusers"
  | output => "output"
  | runtime => "runtime-crate"
  | dryRun => "dry-run"
  | help => "help"
  | version => "version"

def letter? : Setting → Option Char
  | schema => some 's'
  | output => some 'o'
  | help => some 'h'
  | version => some 'V'
  | _ => none

/-- Is the setting given with a value? -/
def hasValue : Setting → Bool
  | dryRun | help | version => false
  | _ => true

/-- The settings that stand before the command. -/
def general : List Setting := [logLevel, help, version]

/-- The settings that stand behind a command. -/
def ofCommand : Command → List Setting
  | .generate => [logLevel, schema, unknownDialect, superusers, help, output, runtime, dryRun]
  | .check | .inspect => [logLevel, schema, unknownDialect, superusers, help]

end Setting

/-- Why arguments are not read to their end. -/
inductive Stop where
  | help
  | version
  | misuse
  deriving DecidableEq, Repr

/-- What the settings so far amount to, and which they are. -/
structure Settings where
  job : Job := {}
  given : List Setting := []
  deriving DecidableEq, Repr

namespace Settings

/-- Takes in a setting with its value. A path is never empty. -/
def give (s : Settings) (setting : Setting) (value : String) : Except Stop Settings := do
  if setting ∈ s.given then throw .misuse
  let given := setting :: s.given
  match setting with
  | .schema =>
    if value = "" then throw .misuse
    return ⟨{ s.job with schemaPath := value }, given⟩
  | .output =>
    if value = "" then throw .misuse
    return ⟨{ s.job with outDir := value }, given⟩
  | .unknownDialect =>
    match UnknownDialect.read? value with
    | none => throw .misuse
    | some policy =>
      return ⟨{ s.job with options := { s.job.options with unknownDialect := policy } }, given⟩
  | .superusers =>
    return ⟨{ s.job with options := { s.job.options with superusers := value } }, given⟩
  | .runtime => return ⟨{ s.job with runtime := value }, given⟩
  | .logLevel | .dryRun | .help | .version => return ⟨s.job, given⟩

/-- Takes in a setting without a value. -/
def raise (s : Settings) (setting : Setting) : Except Stop Settings := do
  match setting with
  | .help => throw .help
  | .version => throw .version
  | _ =>
    if setting ∈ s.given then throw .misuse
    return ⟨{ s.job with dryRun := true }, setting :: s.given⟩

/-- The settings behind one hyphen. The last of them may still wait for its value. -/
def readLetters (known : List Setting) : List Char → Settings →
    Except Stop (Settings × Option Setting)
  | [], s => return (s, none)
  | c :: rest, s =>
    match known.find? fun setting => setting.letter? = some c with
    | none => throw .misuse
    | some setting =>
      if setting.hasValue then
        match rest with
        | [] => return (s, some setting)
        | first :: more =>
          let value := if first = '=' then more else first :: more
          (s.give setting (String.ofList value)).map fun s => (s, none)
      else (s.raise setting).bind (readLetters known rest)

/-- The setting behind two hyphens, which may wait for its value. -/
def readName (known : List Setting) (text : List Char) (s : Settings) :
    Except Stop (Settings × Option Setting) := do
  let name := text.takeWhile (· ≠ '=')
  match known.find? fun setting => setting.name.toList = name with
  | none => throw .misuse
  | some setting =>
    match setting.hasValue, text.drop name.length with
    | true, [] => return (s, some setting)
    | true, _ :: value => (s.give setting (String.ofList value)).map fun s => (s, none)
    | false, [] => (s.raise setting).map fun s => (s, none)
    | false, _ :: _ => throw .misuse

/-- Can the argument be the value of the setting before it? A lone hyphen can. -/
def isValue (arg : String) : Bool :=
  match arg.toList with
  | '-' :: _ :: _ => false
  | _ => true

/-- Reads settings up to the first argument that is not about one. Nothing may follow two hyphens
on their own. -/
def read (known : List Setting) : Settings → List String → Except Stop (Settings × List String)
  | s, [] => return (s, [])
  | s, arg :: rest =>
    match arg.toList with
    | ['-', '-'] => if rest = [] then return (s, []) else throw .misuse
    | '-' :: '-' :: text => (readName known text s).bind (goOn rest)
    | '-' :: c :: text => (readLetters known (c :: text) s).bind (goOn rest)
    | _ => return (s, arg :: rest)
where
  /-- Reads the rest, after the value of a setting that waits for it. -/
  goOn : List String → Settings × Option Setting → Except Stop (Settings × List String)
  | rest, (s, none) => read known s rest
  | [], (_, some _) => throw .misuse
  | value :: rest, (s, some setting) => do
    if !isValue value then throw .misuse
    read known (← s.give setting value) rest

end Settings

/-- Reads a command line. Help can be asked for by a command, too, which may name another one. -/
def read (args : List String) : Except Stop (Command × Job) := do
  match ← Settings.read Setting.general {} args with
  | (_, []) => throw .misuse
  | (_, "help" :: topics) =>
    throw (if topics = [] ∨ topics ∈ ["help"] :: commands.map (fun c => [c.name]) then .help
      else .misuse)
  | (_, word :: rest) =>
    match commands.find? fun c => c.name = word with
    | none => throw .misuse
    | some command =>
      let (settings, more) ← Settings.read (Setting.ofCommand command) {} rest
      if more ≠ [] then throw .misuse
      return (command, settings.job)

end TypedCollections.CommandLine
