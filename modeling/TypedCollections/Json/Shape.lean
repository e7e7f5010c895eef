import TypedCollections.Json.Skip
import TypedCollections.Number.Shortest

/-!
Reading a JSON text whose values must be of given kinds. `Shape` describes a declaration with known
keys, all of which may be left out: it is read from an object, in which unknown keys are passed
over, or from a list that gives the first few of its values in order.
-/

namespace TypedCollections.Json

def Found.ofValue : Value → Found
  | .null => .null
  | .boolean b => .boolean b
  | .number (.integer i) => .integer i
  | .number (.float x) => .float ((Shortest.text? x).getD "")
  | .string s => .string s
  | .array _ => .sequence
  | .object _ => .map

/-- The fault of a value, from its first byte on, that is not what was expected. A list or an
object is refused at its bracket; any other value is read first, and may be at fault itself. -/
def mismatch (expected : String) (b : UInt8) (s : Bytes) : Fault :=
  if b = Ascii.openSquare then .behind (.wrongType .sequence expected) (b :: s)
  else if b = Ascii.openCurly then .behind (.wrongType .map expected) (b :: s)
  else match scalar b s with
    | .error f => f
    | .ok (v, r) => .behind (.wrongType (.ofValue v) expected) r.1

/-- A string. -/
def text : Reader String := fun s =>
  match h : skipBlank s with
  | [] => .error (.ahead .endInValue [])
  | b :: r =>
    have hr := length_lt_of_skipBlank h
    if b = Ascii.quote then (quotation r).map fun (t, u) => (t, u.ofRest (length_le_of_lt hr))
    else .error (mismatch "a string" b r)

/-- True or false. -/
def flag : Reader Bool := fun s =>
  match h : skipBlank s with
  | [] => .error (.ahead .endInValue [])
  | b :: r =>
    have hr := length_lt_of_skipBlank h
    if b = 0x74 then (literal trueWord.tail r).map fun u => (true, .ofTail hr u)
    else if b = 0x66 then (literal falseWord.tail r).map fun u => (false, .ofTail hr u)
    else .error (mismatch "a boolean" b r)

variable {α σ : Type}

/-- Null, or what the reader reads. -/
def orNull (read : Reader α) : Reader (Option α) := fun s =>
  match h : skipBlank s with
  | [] => .error (.ahead .endInValue [])
  | b :: r =>
    have hr := length_lt_of_skipBlank h
    if b = 0x6e then (literal nullWord.tail r).map fun u => (none, .ofTail hr u)
    else (read s).map fun (x, u) => (some x, u)

/-- A list of what the reader reads. -/
def listOf (read : Reader α) : Reader (List α) := fun s =>
  match h : skipBlank s with
  | [] => .error (.ahead .endInValue [])
  | b :: r =>
    have hr := length_lt_of_skipBlank h
    if b = Ascii.openSquare then
      (list read r).map fun (all, u) => (all, u.ofRest (length_le_of_lt hr))
    else .error (mismatch "a sequence" b r)

/-- A declaration with known keys. -/
structure Shape (σ : Type) where
  /-- What the declaration is called when something else stands in its place. -/
  title : String
  keys : List String
  /-- The declaration without any key. -/
  start : σ
  /-- Reads the value of a known key into the declaration. -/
  fill : String → σ → Reader σ

namespace Shape

/-- The fault of a key that was read a second time. The end of its object is still looked for, so
separators, and a closing bracket after them, count as read. -/
def repeated (key : String) (s : Bytes) : Fault :=
  match skipBlank s with
  | Ascii.closeCurly :: r => .behind (.duplicateField key) r
  | r => .behind (.duplicateField key) r

/-- One member of the object. The keys that were met so far come with the declaration. -/
def member (shape : Shape σ) (before : σ × List String) : Reader (σ × List String) := fun s => do
  let (key, ⟨r₁, h₁⟩) ← quotation s
  if key ∈ shape.keys then
    if key ∈ before.2 then throw (repeated key r₁)
    let ⟨r₂, h₂⟩ ← colon r₁
    let (x, ⟨r₃, h₃⟩) ← shape.fill key before.1 r₂
    return ((x, before.2 ++ [key]), ⟨r₃, length_lt_of_three h₁ h₂ h₃⟩)
  else
    let ⟨r₂, h₂⟩ ← colon r₁
    let ⟨r₃, h₃⟩ ← skip r₂
    return (before, ⟨r₃, length_lt_of_three h₁ h₂ h₃⟩)

/-- The end of a list that has given every value. -/
def closed (s : Bytes) : Except Fault (Rest s) :=
  match h : skipBlank s with
  | [] => .error (.ahead .endInList [])
  | b :: r =>
    if b = Ascii.closeSquare then .ok ⟨r, length_lt_of_skipBlank h⟩
    else if b = Ascii.comma then
      match skipBlank r with
      | Ascii.closeSquare :: t => .error (.ahead .trailingComma (Ascii.closeSquare :: t))
      | t => .error (.ahead .trailingCharacters t)
    else .error (.ahead .trailingCharacters (b :: r))

/-- The values of the given keys, each but the first after a comma, up to the end of the list. -/
def values (shape : Shape σ) : (keys : List String) → σ × List String → Reader (σ × List String)
  | [], before, s => (closed s).map fun r => (before, r)
  | key :: keys, before, s =>
    match h : skipBlank s with
    | [] => .error (.ahead .endInList [])
    | b :: r => do
      have hr := length_lt_of_skipBlank h
      if b = Ascii.closeSquare then return (before, ⟨r, hr⟩)
      let ⟨t, ht⟩ ← start before.2 b r hr
      let (x, ⟨u, hu⟩) ← shape.fill key before.1 t
      let (all, v) ← values shape keys (x, before.2 ++ [key]) u
      return (all, v.ofRest (Nat.le_trans (Nat.le_of_lt hu) ht))
where
  /-- Where the next value starts, when `b` is not the closing bracket. -/
  start {s : Bytes} (met : List String) (b : UInt8) (r : Bytes) (hr : r.length < s.length) :
      Except Fault (Tail s) :=
    if met = [] then .ok ⟨b :: r, hr⟩
    else if b = Ascii.comma then
      match skipBlank r with
      | Ascii.closeSquare :: t => .error (.ahead .trailingComma (Ascii.closeSquare :: t))
      | _ => .ok ⟨r, length_le_of_lt hr⟩
    else .error (.ahead .expectedListEnd (b :: r))

/-- Reads a declaration, and says which known keys it has. -/
def read (shape : Shape σ) : Reader (σ × List String) := fun s =>
  match h : skipBlank s with
  | [] => .error (.ahead .endInValue [])
  | b :: r =>
    have hr := Nat.le_of_lt (length_lt_of_skipBlank h)
    if b = Ascii.openCurly then
      (object shape.member (shape.start, []) r).map fun (x, u) => (x, u.ofRest hr)
    else if b = Ascii.openSquare then
      (shape.values shape.keys (shape.start, []) r).map fun (x, u) => (x, u.ofRest hr)
    else .error (mismatch shape.title b r)

end Shape
end TypedCollections.Json
