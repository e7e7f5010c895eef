import TypedCollections.Json.Reader

/-!
Passing over a value that nobody asks for. Its syntax is checked, but not its encoding, the pairing
of its surrogates or the range of its numbers, and it may be nested as deep as it likes: instead of
calling itself for each bracket, the reader keeps a list of the brackets that are open.
-/

namespace TypedCollections.Json

inductive Bracket where
  | square
  | curly
  deriving DecidableEq, Repr

namespace Bracket

def open? (b : UInt8) : Option Bracket :=
  if b = Ascii.openSquare then some square
  else if b = Ascii.openCurly then some curly
  else none

def closing : Bracket → UInt8
  | square => Ascii.closeSquare
  | curly => Ascii.closeCurly

/-- The text ends while this bracket is open. -/
def atEnd : Bracket → Reason
  | square => .endInList
  | curly => .endInObject

/-- Neither a comma nor the closing bracket follows a value. -/
def unfinished : Bracket → Reason
  | square => .expectedListEnd
  | curly => .expectedObjectEnd

end Bracket

namespace Skip

/-- What follows a backslash. -/
def escape : (s : Bytes) → Except Fault (Rest s)
  | [] => .error (.behind .endInString [])
  | b :: s =>
    if b = 0x75 then (Quotation.hexEscape s).map fun (_, r) => r.ofRest (length_le_cons _ _)
    else if b ∈ [Ascii.quote, Ascii.backslash, Ascii.slash, 0x62, 0x66, 0x6e, 0x72, 0x74] then
      .ok ⟨s, length_lt_cons _ _⟩
    else .error (.behind .invalidEscape s)

/-- The rest of a string, whose opening mark has been read. A control character does not count as
read. -/
def string (s : Bytes) : Except Fault (Rest s) :=
  match s with
  | [] => .error (.behind .endInString [])
  | b :: s =>
    if b = Ascii.quote then .ok ⟨s, length_lt_cons _ _⟩
    else if b = Ascii.backslash then do
      let ⟨r, _⟩ ← escape s
      let t ← string r
      return t.ofRest (Nat.le_trans (Nat.le_of_lt ‹_›) (length_le_cons _ _))
    else if b < 0x20 then .error (.behind .controlCharacter (b :: s))
    else (string s).map fun t => t.ofRest (length_le_cons _ _)
termination_by s.length

def word {b : UInt8} (letters : Bytes) (s : Bytes) : Except Fault (Rest (b :: s)) :=
  (literal letters s).map fun r => .ofTail (length_lt_cons _ _) r

/-- A value that is no list and no object. -/
def scalar (b : UInt8) (s : Bytes) : Except Fault (Rest (b :: s)) :=
  if b = Ascii.quote then (string s).map fun r => r.ofRest (length_le_cons _ _)
  else if b = Ascii.minus then
    (Numeral.read .invalidNumber s).map fun (_, r) => r.ofRest (length_le_cons _ _)
  else if Ascii.isDigit b then (Numeral.read .invalidNumber (b :: s)).map fun (_, r) => r
  else if b = 0x74 then word trueWord.tail s
  else if b = 0x66 then word falseWord.tail s
  else if b = 0x6e then word nullWord.tail s
  else .error (.ahead .expectedValue (b :: s))

/-- A key and the colon after it. -/
def key (s : Bytes) : Except Fault (Rest s) :=
  match h : skipBlank s with
  | [] => .error (.ahead .endInObject [])
  | b :: r =>
    if b = Ascii.quote then do
      let ⟨r₁, h₁⟩ ← string r
      let ⟨r₂, h₂⟩ ← colon r₁
      return ⟨r₂, Nat.lt_trans h₂ (Nat.lt_trans h₁ (length_lt_of_skipBlank h))⟩
    else .error (.ahead .keyNotString (b :: r))

mutual

/-- Passes over a value and all that follows it up to the end of the outermost open bracket. -/
def fromValue (opened : List Bracket) (s : Bytes) : Except Fault (Rest s) :=
  match h : skipBlank s with
  | [] => .error (.ahead .endInValue [])
  | b :: r =>
    have hr := length_lt_of_skipBlank h
    match Bracket.open? b with
    | some bracket => (fromOpening bracket opened r).map fun t => t.ofRest (length_le_of_lt hr)
    | none => do
      let ⟨t, ht⟩ ← scalar b r
      have ht : t.length < s.length := Nat.lt_of_lt_of_le ht hr
      let u ← afterValue opened t
      return .ofTail ht u
termination_by (s.length, 0)

/-- Goes on after an opening bracket. -/
def fromOpening (bracket : Bracket) (opened : List Bracket) (s : Bytes) : Except Fault (Rest s) :=
  match h : skipBlank s with
  | [] => .error (.ahead bracket.atEnd [])
  | b :: r =>
    have hr := length_lt_of_skipBlank h
    if b = bracket.closing then (afterValue opened r).map fun t => .ofTail hr t
    else fromEntry bracket opened s
termination_by (s.length, 2)

/-- Goes on where a list or an object must have another entry. -/
def fromEntry (bracket : Bracket) (opened : List Bracket) (s : Bytes) : Except Fault (Rest s) :=
  match bracket with
  | .square => fromValue (.square :: opened) s
  | .curly => do
    let ⟨r, hr⟩ ← key s
    (fromValue (.curly :: opened) r).map fun t => t.ofRest (length_le_of_lt hr)
termination_by (s.length, 1)

/-- Goes on after a value. -/
def afterValue (opened : List Bracket) (s : Bytes) : Except Fault (Tail s) :=
  match opened with
  | [] => .ok ⟨s, Nat.le_refl _⟩
  | bracket :: opened =>
    match h : skipBlank s with
    | [] => .error (.ahead bracket.atEnd [])
    | b :: r =>
      have hr := length_lt_of_skipBlank h
      if b = bracket.closing then
        (afterValue opened r).map fun t => ⟨t.1, Nat.le_trans t.2 (length_le_of_lt hr)⟩
      else if b = Ascii.comma then
        (fromEntry bracket opened r).map fun t => t.toTail (length_le_of_lt hr)
      else .error (.ahead bracket.unfinished (b :: r))
termination_by (s.length, 0)

end
end Skip

/-- Passes over one value. -/
def skip (s : Bytes) : Except Fault (Rest s) := Skip.fromValue [] s

end TypedCollections.Json
