import TypedCollections.Json.Skip

/-!
Which of two layouts a schema document follows. The latest one lists the fields of a collection
under the key `fields`, the legacy one under `schema`. The bytes are scanned from left to right
without decoding them, so a document can be classified that no reader would accept: only the keys
of the objects directly in the outermost list count, and what follows that list is not looked at.
-/

namespace TypedCollections.Schema

open Json (Bracket)

inductive Dialect where
  | legacy
  | latest
  | unknown
  deriving DecidableEq, Repr

def Dialect.name : Dialect → String
  | .legacy => "legacy"
  | .latest => "latest"
  | .unknown => "unknown"

namespace Dialect

/-- What makes a document impossible to scan. -/
inductive Obstacle where
  | emptyDocument
  | notAList
  | unterminatedString
  | mismatchedBracket
  | unclosedList
  deriving DecidableEq, Repr

def Obstacle.message : Obstacle → String
  | .emptyDocument => "document is empty"
  | .notAList => "top level is not an array of collections"
  | .unterminatedString => "unterminated string"
  | .mismatchedBracket => "mismatched bracket"
  | .unclosedList => "document ends before the collection array is closed"

inductive Refusal where
  | unscannable (offset : Nat) (obstacle : Obstacle)
  | mixed (fieldsIndex schemaIndex : Nat)
  deriving DecidableEq, Repr

def Refusal.message : Refusal → String
  | .unscannable offset obstacle =>
    "cannot scan schema at byte " ++ toString offset ++ ": " ++ obstacle.message
  | .mixed fieldsIndex schemaIndex =>
    "collection #" ++ toString fieldsIndex ++ " uses \"fields\" but collection #"
      ++ toString schemaIndex ++ " uses \"schema\""

/-- A document is classified, or it is refused. -/
abbrev Verdict := Except Refusal Dialect

def fieldsKey : Bytes := [0x66, 0x69, 0x65, 0x6c, 0x64, 0x73]
def schemaKey : Bytes := [0x73, 0x63, 0x68, 0x65, 0x6d, 0x61]

/-- The first collection that uses each of the two keys. -/
structure Seen where
  fieldsAt : Option Nat := none
  schemaAt : Option Nat := none
  deriving DecidableEq, Repr

def Seen.isEmpty (seen : Seen) : Bool := seen.fieldsAt.isNone && seen.schemaAt.isNone

def Seen.dialect (seen : Seen) : Dialect :=
  match seen.fieldsAt, seen.schemaAt with
  | some _, none => .latest
  | none, some _ => .legacy
  | _, _ => .unknown

/-- Takes in a key as it is spelled. A document that uses both keys is refused. -/
def Seen.record (seen : Seen) (key : Bytes) (collection : Nat) : Except Verdict Seen :=
  let seen : Seen :=
    if key = fieldsKey then { seen with fieldsAt := seen.fieldsAt.or (some collection) }
    else if key = schemaKey then { seen with schemaAt := seen.schemaAt.or (some collection) }
    else seen
  match seen.fieldsAt, seen.schemaAt with
  | some fieldsIndex, some schemaIndex => .error (.error (.mixed fieldsIndex schemaIndex))
  | _, _ => .ok seen

/-- A string that has been opened: where, its bytes so far, last one first, and whether the next
byte is escaped. -/
structure OpenString where
  start : Nat
  bytes : Bytes
  escaped : Bool
  deriving DecidableEq, Repr

/-- Where the scan stands, inside the outermost list. -/
structure Scan where
  /-- How many bytes have been scanned. -/
  offset : Nat
  /-- The brackets that are open, innermost first. -/
  opened : List Bracket
  /-- How many objects the outermost list has had. -/
  collections : Nat
  /-- The next string is a key, if it stands directly in such an object. -/
  expectsKey : Bool
  seen : Seen
  string : Option OpenString
  deriving DecidableEq, Repr

namespace Scan

/-- Directly in an object of the outermost list. -/
def inCollection (scan : Scan) : Bool := scan.opened == [.curly, .square]

/-- Goes on to the next byte. -/
def next (scan : Scan) : Scan := { scan with offset := scan.offset + 1 }

/-- Takes in a byte of an open string. -/
def inString (scan : Scan) (string : OpenString) (b : UInt8) : Except Verdict Scan :=
  if string.escaped then
    .ok { scan.next with string := some { string with bytes := b :: string.bytes, escaped := false } }
  else if b = Ascii.quote then
    if scan.expectsKey && scan.inCollection then do
      let seen ← scan.seen.record string.bytes.reverse (scan.collections - 1)
      return { scan.next with seen, expectsKey := false, string := none }
    else .ok { scan.next with string := none }
  else
    .ok { scan.next with
      string := some { string with bytes := b :: string.bytes, escaped := b = Ascii.backslash } }

/-- Takes in an opening bracket. -/
def opening (scan : Scan) (bracket : Bracket) : Scan :=
  let opened := bracket :: scan.opened
  if opened = [.curly, .square] then
    { scan.next with opened, collections := scan.collections + 1, expectsKey := true }
  else { scan.next with opened }

/-- Takes in a closing bracket. Closing the outermost list ends the scan. -/
def closing (scan : Scan) (bracket : Bracket) : Except Verdict Scan :=
  match scan.opened with
  | [] => .error (.error (.unscannable scan.offset .mismatchedBracket))
  | innermost :: rest =>
    if innermost ≠ bracket then .error (.error (.unscannable scan.offset .mismatchedBracket))
    else if rest = [] then .error (.ok scan.seen.dialect)
    else .ok { scan.next with opened := rest }

/-- Takes in one byte. The verdict, once it is certain, is thrown. -/
def step (scan : Scan) (b : UInt8) : Except Verdict Scan :=
  match scan.string with
  | some string => scan.inString string b
  | none =>
    if b = Ascii.quote then .ok { scan.next with string := some ⟨scan.offset, [], false⟩ }
    else if b = Ascii.openSquare then .ok (scan.opening .square)
    else if b = Ascii.openCurly then .ok (scan.opening .curly)
    else if b = Ascii.closeSquare then scan.closing .square
    else if b = Ascii.closeCurly then scan.closing .curly
    else if b = Ascii.comma && scan.inCollection then .ok { scan.next with expectsKey := true }
    else if b = Ascii.colon && scan.inCollection then .ok { scan.next with expectsKey := false }
    else .ok scan.next

/-- The verdict on a document that ends here. Once one of the keys has been seen, it does not matter
that the list is not closed. -/
def atEnd (scan : Scan) : Verdict :=
  if scan.seen.isEmpty then
    match scan.string with
    | some string => .error (.unscannable string.start .unterminatedString)
    | none => .error (.unscannable scan.offset .unclosedList)
  else .ok scan.seen.dialect

def run (scan : Scan) : Bytes → Verdict
  | [] => scan.atEnd
  | b :: rest =>
    match scan.step b with
    | .ok scan => run scan rest
    | .error verdict => verdict

end Scan

def byteOrderMark : Bytes := [0xef, 0xbb, 0xbf]

/-- A byte order mark at the front is no part of the document. -/
def withoutMark (bytes : Bytes) : Bytes :=
  if byteOrderMark.isPrefixOf bytes then bytes.drop byteOrderMark.length else bytes

/-- Classifies a document. Offsets count from after the byte order mark. -/
def detect (bytes : Bytes) : Verdict :=
  let document := withoutMark bytes
  let start := document.length - (document.dropWhile Ascii.isBlank).length
  match document.dropWhile Ascii.isBlank with
  | [] => .error (.unscannable 0 .emptyDocument)
  | b :: rest =>
    if b = Ascii.openSquare then
      Scan.run ⟨start + 1, [.square], 0, false, {}, none⟩ rest
    else .error (.unscannable start .notAList)

end Dialect
end TypedCollections.Schema
