import TypedCollections.Json.Value
import TypedCollections.Number.Shortest

/-!
JSON text of a value: on one line without spaces, or with one item to a line. Strings escape the
quotation mark, the backslash and the controls, and nothing else. A number that is not finite has
no JSON text and is written as null.
-/

namespace TypedCollections.Json

/-- A digit of the escape of a control character. -/
def hexDigit (n : Nat) : Char := Char.ofNat (if n < 10 then 0x30 + n else 0x57 + n)

def escapeChar (c : Char) : List Char :=
  if c = '"' then ['\\', '"']
  else if c = '\\' then ['\\', '\\']
  else if c = '\n' then ['\\', 'n']
  else if c = '\r' then ['\\', 'r']
  else if c = '\t' then ['\\', 't']
  else if c.toNat = 0x08 then ['\\', 'b']
  else if c.toNat = 0x0c then ['\\', 'f']
  else if c.toNat < 0x20 then
    ['\\', 'u', '0', '0', hexDigit (c.toNat / 16), hexDigit (c.toNat % 16)]
  else [c]

def quoted (s : String) : List Char := '"' :: s.toList.flatMap escapeChar ++ ['"']

def Number.text : Number → String
  | .integer i => toString i
  | .float x => (Shortest.text? x).getD "null"

/-- Puts a separator between texts. -/
def separated (separator : List Char) : List (List Char) → List Char
  | [] => []
  | [text] => text
  | text :: rest => text ++ separator ++ separated separator rest

mutual

def compact : Value → List Char
  | .null => "null".toList
  | .boolean b => (toString b).toList
  | .number n => n.text.toList
  | .string s => quoted s
  | .array items => '[' :: separated [','] (compactItems items) ++ [']']
  | .object members => '\x7b' :: separated [','] (compactMembers members) ++ ['\x7d']

def compactItems : List Value → List (List Char)
  | [] => []
  | v :: rest => compact v :: compactItems rest

def compactMembers : List (String × Value) → List (List Char)
  | [] => []
  | (key, v) :: rest => (quoted key ++ ':' :: compact v) :: compactMembers rest

end

/-- Puts a line break before each of several entries and one behind them, set in by steps of two
spaces, with a comma behind each entry but the last. -/
def broken (depth : Nat) (entries : List (List Char)) : List Char :=
  let newline (depth : Nat) : List Char := '\n' :: List.replicate (2 * depth) ' '
  newline (depth + 1) ++ separated (',' :: newline (depth + 1)) entries ++ newline depth

mutual

def indented (depth : Nat) : Value → List Char
  | .array [] => ['[', ']']
  | .array (v :: rest) => '[' :: broken depth (indentedItems (depth + 1) (v :: rest)) ++ [']']
  | .object [] => ['\x7b', '\x7d']
  | .object (m :: rest) =>
    '\x7b' :: broken depth (indentedMembers (depth + 1) (m :: rest)) ++ ['\x7d']
  | .null => compact .null
  | .boolean b => compact (.boolean b)
  | .number n => compact (.number n)
  | .string s => compact (.string s)

def indentedItems (depth : Nat) : List Value → List (List Char)
  | [] => []
  | v :: rest => indented depth v :: indentedItems depth rest

def indentedMembers (depth : Nat) : List (String × Value) → List (List Char)
  | [] => []
  | (key, v) :: rest =>
    (quoted key ++ ':' :: ' ' :: indented depth v) :: indentedMembers depth rest

end

/-- The text on one line. -/
def Value.text (v : Value) : String := String.ofList (compact v)

/-- The text with each entry on its own line. -/
def Value.pretty (v : Value) : String := String.ofList (indented 0 v)

end TypedCollections.Json
