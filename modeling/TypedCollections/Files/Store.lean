import TypedCollections.Text.Ascii

/-!
What the program asks of a file system. An operation that fails says why in words.
-/

namespace TypedCollections

class FileStore (m : Type → Type) where
  /-- Does the path lead to a file or a directory? -/
  contains : (path : String) → m Bool
  read : (path : String) → m (Except String Bytes)
  /-- Creates a directory and those that it lies in, unless they are there. -/
  createDirectories : (path : String) → m (Except String Unit)
  /-- Gives a file its content, in place of any other. The file may be new. -/
  write : (path content : String) → m (Except String Unit)

end TypedCollections
