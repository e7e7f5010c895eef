import TypedCollections.Files.Path
import TypedCollections.Files.Store
import TypedCollections.Text.Utf8

/-!
A file system as a value: the files and directories below a root, each under the names that lead to
it, and the directory that relative paths start from. A path is walked name by name; every place on
the way must be a directory, also before a name that leads nowhere. There are no links, so whatever
is there has one place. What `createDirectory` and `write` do is said by what `find?` gives
afterwards.
-/

namespace TypedCollections

inductive FileFault where
  | notFound
  | alreadyExists
  | notDirectory
  | isDirectory
  deriving DecidableEq, Repr

def FileFault.message : FileFault → String
  | notFound => "No such file or directory (os error 2)"
  | alreadyExists => "File exists (os error 17)"
  | notDirectory => "Not a directory (os error 20)"
  | isDirectory => "Is a directory (os error 21)"

inductive FileEntry where
  | directory
  | file (content : Bytes)
  deriving DecidableEq, Repr

/-- The names that lead from the root to a place. -/
abbrev Place := List String

structure FileTree where
  entries : List (Place × FileEntry) := []
  workingDirectory : Place := []
  deriving DecidableEq, Repr

namespace FileTree

variable (t : FileTree)

/-- What is at a place. The root is always there. -/
def find? (place : Place) : Option FileEntry :=
  if place = [] then some .directory else t.entries.lookup place

def put (place : Place) (entry : FileEntry) : FileTree :=
  { t with entries := (place, entry) :: t.entries }

theorem find?_put_self {place : Place} (h : place ≠ []) (e : FileEntry) :
    (t.put place e).find? place = some e := by
  simp [find?, put, h]

theorem find?_put_of_ne {place other : Place} (h : other ≠ place) (e : FileEntry) :
    (t.put place e).find? other = t.find? other := by
  have : (other == place) = false := by simpa using h
  simp [find?, put, List.lookup_cons, this]

@[simp] theorem workingDirectory_put (place : Place) (e : FileEntry) :
    (t.put place e).workingDirectory = t.workingDirectory := rfl

/-- Nothing can be looked up in a file. -/
def requireDirectory (place : Place) : Except FileFault Unit :=
  match t.find? place with
  | some .directory => .ok ()
  | some (.file _) => .error .notDirectory
  | none => .error .notFound

/-- Where names lead from a place. -/
def walk : Place → List String → Except FileFault Place
  | here, [] => .ok here
  | here, name :: rest => do
    t.requireDirectory here
    if Path.isIdle name then walk here rest
    else if name = ".." then walk here.dropLast rest
    else if (t.find? (here ++ [name])).isSome then walk (here ++ [name]) rest
    else throw .notFound

/-- Where the walk of a path starts. -/
def origin : List String → Place
  | "" :: _ :: _ => []
  | _ => t.workingDirectory

/-- The place of a path. -/
def locate (names : List String) : Except FileFault Place :=
  if names = [""] then .error .notFound else t.walk (t.origin names) names

def contains (names : List String) : Bool := (t.locate names).toOption.isSome

def isDirectory (names : List String) : Bool :=
  (t.locate names).toOption.any fun place => t.find? place = some .directory

def read (names : List String) : Except FileFault Bytes := do
  match t.find? (← t.locate names) with
  | some (.file content) => return content
  | some .directory => throw .isDirectory
  | none => throw .notFound

/-- The directory that the last name of a path is looked up in. -/
def parent (names : List String) : Except FileFault Place := do
  let place ← t.walk (t.origin names) names.dropLast
  t.requireDirectory place
  return place

/-- The names up to the last that is not empty. -/
def withoutTrailing (names : List String) : List String :=
  (names.reverse.dropWhile (· == "")).reverse

/-- Creates a directory in one that is there. -/
def createDirectory (names : List String) : Except FileFault FileTree := do
  if names = [""] then throw .notFound
  let place ← t.parent (withoutTrailing names)
  match (withoutTrailing names).getLast? with
  | none => throw .alreadyExists
  | some name =>
    if name = "." ∨ name = ".." then throw .alreadyExists
    if (t.find? (place ++ [name])).isSome then throw .alreadyExists
    return t.put (place ++ [name]) .directory

/-- Creates a directory, unless it is there already. -/
def ensureDirectory (names : List String) : Except FileFault FileTree :=
  match t.createDirectory names with
  | .ok u => .ok u
  | .error e => if t.isDirectory names then .ok t else .error e

/-- Creates the first of some directories. The others are those that it lies in, from the nearest
on; they are looked at only if there is no place for it. Some may be created before one fails. -/
def createAll (t : FileTree) : List (List String) → Except FileFault Unit × FileTree
  | [] => (.ok (), t)
  | names :: above =>
    match t.ensureDirectory names with
    | .ok u => (.ok (), u)
    | .error .notFound =>
      match createAll t above with
      | (.error e, u) => (.error e, u)
      | (.ok (), u) =>
        match u.ensureDirectory names with
        | .ok v => (.ok (), v)
        | .error e => (.error e, u)
    | .error e => (.error e, t)

/-- A path and those of the directories that it lies in, from the nearest on. -/
def lineage (names : List String) : List (List String) :=
  let core := Path.withoutIdle names
  let above := (List.range core.length).reverse.map core.take
  names :: above.filter fun upper => !(upper.getLast?.all Path.isIdle)

/-- Creates a directory and those that it lies in, unless they are there. -/
def createDirectories (names : List String) : Except FileFault Unit × FileTree :=
  if names = [""] then (.ok (), t) else t.createAll (lineage names)

/-- Gives a file its content. -/
def write (names : List String) (content : Bytes) : Except FileFault FileTree := do
  if names = [""] then throw .notFound
  let place ← t.parent names
  match names.getLast? with
  | none => throw .notFound
  | some name =>
    if Path.isIdle name ∨ name = ".." then throw .isDirectory
    if t.find? (place ++ [name]) = some .directory then throw .isDirectory
    return t.put (place ++ [name]) (.file content)

end FileTree

instance : FileStore (StateM FileTree) where
  contains path := fun t => (t.contains (Path.names path), t)
  read path := fun t => ((t.read (Path.names path)).mapError FileFault.message, t)
  createDirectories path := fun t =>
    let (result, u) := t.createDirectories (Path.names path)
    (result.mapError FileFault.message, u)
  write path content := fun t =>
    match t.write (Path.names path) (Utf8.encode content) with
    | .ok u => (.ok (), u)
    | .error e => (.error e.message, t)

end TypedCollections
