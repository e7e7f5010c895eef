/-!
Identifiers made from arbitrary names. A name is split into words at every character that is no
ASCII letter or digit and at the ends of capitalised words; `canonical` joins the words with each
one capitalised, and `snake` joins the words of an identifier with underscores. Letters outside
ASCII separate words, as nothing that is generated may contain them.
-/

namespace TypedCollections.Identifier

/-- Does a capital letter start a new word? It does after a small letter or a digit, as in
`userName`, and after a capital when a small letter follows, as for the `S` of `HTTPServer`. -/
def startsWord (before : Char) (after : Option Char) : Bool :=
  before.isLower || before.isDigit || (before.isUpper && after.any Char.isLower)

/-- The words of a name; `word` holds the letters of the open one, last one first. -/
def wordsFrom (word : List Char) : List Char → List (List Char)
  | [] => close word []
  | c :: rest =>
    if !c.isAlphanum then close word (wordsFrom [] rest)
    else if c.isUpper && word.head?.any (startsWord · rest.head?) then
      close word (wordsFrom [c] rest)
    else wordsFrom (c :: word) rest
where
  close (word : List Char) (others : List (List Char)) : List (List Char) :=
    if word = [] then others else word.reverse :: others

def words (name : List Char) : List (List Char) := wordsFrom [] name

def capitalize : List Char → List Char
  | [] => []
  | c :: rest => c.toUpper :: rest.map Char.toLower

/-- Stands for a name without letters and digits, and before a digit. -/
def fallback : String := "Field"

/-- The words of a name, each capitalised, as one identifier that starts with a letter. -/
def canonicalChars (name : List Char) : List Char :=
  match ((words name).map capitalize).flatten with
  | [] => fallback.toList
  | c :: rest => if c.isDigit then fallback.toList ++ c :: rest else c :: rest

/-- The identifier of a name. Only the empty name has none. -/
def canonical? (name : String) : Option String :=
  if name.isEmpty then none else some (String.ofList (canonicalChars name.toList))

/-- Small letters throughout, with an underscore before each letter that was a capital. -/
def snakeTail : List Char → List Char
  | [] => []
  | c :: rest => if c.isUpper then '_' :: c.toLower :: snakeTail rest else c :: snakeTail rest

def snakeChars : List Char → List Char
  | [] => []
  | c :: rest => (if c.isUpper then c.toLower else c) :: snakeTail rest

def snake (identifier : String) : String := String.ofList (snakeChars identifier.toList)

end TypedCollections.Identifier
