import TypedCollections.Text.Ascii
import TypedCollections.Text.Quoted

/-!
Why a JSON text is rejected, and where. While reading, a fault says how many bytes were unread at
the place that it is counted from; the line and the column follow from the whole text.
-/

namespace TypedCollections.Json

/-- What stood in the text where something else was expected. -/
inductive Found where
  | null
  | boolean (value : Bool)
  | integer (value : Int)
  | float (text : String)
  | string (value : String)
  | sequence
  | map
  deriving DecidableEq, Repr

def Found.describe : Found → String
  | .null => "null"
  | .boolean b => "boolean `" ++ toString b ++ "`"
  | .integer i => "integer `" ++ toString i ++ "`"
  | .float t => "floating point `" ++ t ++ "`"
  | .string s => "string " ++ Text.Quoted.encode s
  | .sequence => "sequence"
  | .map => "map"

inductive Reason where
  | endInValue
  | endInString
  | endInList
  | endInObject
  | expectedValue
  | expectedLiteral
  | expectedColon
  | expectedListEnd
  | expectedObjectEnd
  | keyNotString
  | trailingComma
  | trailingCharacters
  | invalidNumber
  | numberOutOfRange
  | invalidEscape
  | controlCharacter
  | loneSurrogate
  | endOfHexEscape
  | invalidUtf8
  | tooDeep
  | wrongType (found : Found) (expected : String)
  | integerOutOfRange (value : Int) (expected : String)
  | tooLong (length : Nat)
  | duplicateField (key : String)
  deriving DecidableEq, Repr

def Reason.message : Reason → String
  | .endInValue => "EOF while parsing a value"
  | .endInString => "EOF while parsing a string"
  | .endInList => "EOF while parsing a list"
  | .endInObject => "EOF while parsing an object"
  | .expectedValue => "expected value"
  | .expectedLiteral => "expected ident"
  | .expectedColon => "expected `:`"
  | .expectedListEnd => "expected `,` or `]`"
  | .expectedObjectEnd => "expected `,` or `\x7d`"
  | .keyNotString => "key must be a string"
  | .trailingComma => "trailing comma"
  | .trailingCharacters => "trailing characters"
  | .invalidNumber => "invalid number"
  | .numberOutOfRange => "number out of range"
  | .invalidEscape => "invalid escape"
  | .controlCharacter => "control character (\\u0000-\\u001F) found while parsing a string"
  | .loneSurrogate => "lone leading surrogate in hex escape"
  | .endOfHexEscape => "unexpected end of hex escape"
  | .invalidUtf8 => "invalid unicode code point"
  | .tooDeep => "recursion limit exceeded"
  | .wrongType found expected => "invalid type: " ++ found.describe ++ ", expected " ++ expected
  | .integerOutOfRange i expected =>
    "invalid value: integer `" ++ toString i ++ "`, expected " ++ expected
  | .tooLong n => "invalid length " ++ toString n ++ ", expected fewer elements in array"
  | .duplicateField key => "duplicate field `" ++ key ++ "`"

/-- A fault counts from the place after which `unread` bytes are left. -/
structure Fault where
  reason : Reason
  unread : Nat
  deriving DecidableEq, Repr

/-- The fault at the byte that was read last, when `rest` follows it. -/
def Fault.behind (reason : Reason) (rest : Bytes) : Fault := ⟨reason, rest.length⟩

/-- The fault at the next byte, which counts as read; at the end of the text there is none. -/
def Fault.ahead (reason : Reason) (rest : Bytes) : Fault := ⟨reason, rest.length - 1⟩

/-- Lines count from one, columns from the last line feed. -/
structure Position where
  line : Nat
  column : Nat
  deriving DecidableEq, Repr

def Position.after (consumed : Bytes) : Position :=
  ⟨consumed.count Ascii.lineFeed + 1,
    (consumed.reverse.takeWhile fun b => b ≠ Ascii.lineFeed).length⟩

/-- A fault as it is reported. One that is found in a value, not in a text, has no position. -/
structure Rejection where
  reason : Reason
  position : Option Position
  deriving DecidableEq, Repr

def Rejection.message (r : Rejection) : String :=
  match r.position with
  | none => r.reason.message
  | some p => r.reason.message ++ " at line " ++ toString p.line ++ " column " ++ toString p.column

def Fault.locate (text : Bytes) (f : Fault) : Rejection :=
  ⟨f.reason, some (Position.after (text.take (text.length - f.unread)))⟩

end TypedCollections.Json
