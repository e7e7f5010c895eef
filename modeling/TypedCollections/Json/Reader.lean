import TypedCollections.Json.Numeral
import TypedCollections.Json.Brackets

/-!
Reading a JSON text as a value. A value may be nested in at most 127 lists and objects.
-/

namespace TypedCollections.Json

/-- How many brackets may be open at once. -/
def deepest : Nat := 127

/-- A word that stands for a value; its first letter has been read. -/
def wordValue {b : UInt8} (v : Value) (letters : Bytes) (s : Bytes) :
    Except Fault (Value × Rest (b :: s)) :=
  (literal letters s).map fun r => (v, .ofTail (length_lt_cons _ _) r)

/-- A value that is no list and no object. -/
def scalar (b : UInt8) (s : Bytes) : Except Fault (Value × Rest (b :: s)) :=
  if b = Ascii.quote then
    (quotation s).map fun (text, r) => (.string text, r.ofRest (length_le_cons _ _))
  else if b = Ascii.minus then
    (numeral true s).map fun (n, r) => (.number n, r.ofRest (length_le_cons _ _))
  else if Ascii.isDigit b then (numeral false (b :: s)).map fun (n, r) => (.number n, r)
  else if b = 0x74 then wordValue (.boolean true) trueWord.tail s
  else if b = 0x66 then wordValue (.boolean false) falseWord.tail s
  else if b = 0x6e then wordValue .null nullWord.tail s
  else .error (.ahead .expectedValue (b :: s))

/-- A key, a colon and a value, taken behind the entries that were read before. -/
def entry (read : Reader Value) (before : List (String × Value)) :
    Reader (List (String × Value)) := fun s => do
  let (key, ⟨r₁, h₁⟩) ← quotation s
  let ⟨r₂, h₂⟩ ← colon r₁
  let (v, ⟨r₃, h₃⟩) ← read r₂
  return ((key, v) :: before, ⟨r₃, length_lt_of_three h₁ h₂ h₃⟩)

/-- Reads a value, in which `depth` more brackets may be open. -/
def value (depth : Nat) : Reader Value := fun s =>
  match h : skipBlank s with
  | [] => .error (.ahead .endInValue [])
  | b :: r =>
    have hr := length_lt_of_skipBlank h
    if b = Ascii.openSquare then
      match depth with
      | 0 => .error (.ahead .tooDeep (b :: r))
      | depth + 1 =>
        (list (value depth) r).map fun (all, t) => (.array all, t.ofRest (length_le_of_lt hr))
    else if b = Ascii.openCurly then
      match depth with
      | 0 => .error (.ahead .tooDeep (b :: r))
      | depth + 1 => (object (entry (value depth)) [] r).map fun (all, t) =>
          (.object (Members.ofList all.reverse), t.ofRest (length_le_of_lt hr))
    else (scalar b r).map fun (v, t) => (v, t.ofRest (show (b :: r).length ≤ s.length from hr))

/-- Nothing but separators may follow what a text spells. -/
def ended (s : Bytes) : Except Fault Unit :=
  match skipBlank s with
  | [] => .ok ()
  | b :: r => .error (.ahead .trailingCharacters (b :: r))

/-- Reads a whole text with a reader. -/
def readAll {α : Type} (read : Reader α) (text : Bytes) : Except Rejection α :=
  match (do
    let (x, r) ← read text
    ended r.1
    return x : Except Fault α) with
  | .ok x => .ok x
  | .error f => .error (f.locate text)

/-- The value that a text spells. -/
def Value.read (text : String) : Except Rejection Value :=
  readAll (value deepest) (Utf8.encode text)

end TypedCollections.Json
