/-!
Paths of files, as they are written. A path is a text with slashes; its names are what stands
between them, and its steps are the names that lead somewhere. Joining two paths keeps their
spelling.
-/

namespace TypedCollections.Path

/-- What stands between the slashes. The path of a directory may end in an empty name, and an
absolute path starts with one. -/
def names (path : String) : List String :=
  (path.toList.splitOnP (· == '/')).map String.ofList

/-- Does a name lead nowhere? -/
def isIdle (name : String) : Bool := name == "" || name == "."

/-- The names that lead somewhere. -/
def steps (path : String) : List String := (names path).filter fun name => !isIdle name

/-- The name of the file itself, when the path ends in a name. -/
def fileName? (path : String) : Option String :=
  (steps path).getLast?.filter (· ≠ "..")

def isAbsolute (path : String) : Bool := path.toList.head? == some '/'

/-- The names up to the last that leads somewhere. -/
def withoutIdle (names : List String) : List String :=
  (names.reverse.dropWhile isIdle).reverse

/-- The path of what a path lies in. A path that leads nowhere has none; of a name alone it is the
empty path. -/
def parent? (path : String) : Option String :=
  match withoutIdle (names path) with
  | [] => if (names path).head? = some "." then some "" else none
  | core =>
    match withoutIdle core.dropLast with
    | [] => some (if isAbsolute path then "/" else if core.dropLast = [] then "" else ".")
    | above => some ("/".intercalate above)

/-- The path of a file in a directory. -/
def join (directory file : String) : String :=
  if isAbsolute file then file
  else if directory = "" ∨ directory.toList.getLast? = some '/' then directory ++ file
  else directory ++ "/" ++ file

end TypedCollections.Path
