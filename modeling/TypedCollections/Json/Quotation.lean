import TypedCollections.Json.Scan
import TypedCollections.Text.Utf8

/-!
Strings in a JSON text. The bytes between the quotation marks, with every escape replaced by the
character that it names, must be UTF-8.
-/

namespace TypedCollections.Json.Quotation

/-- The four hexadecimal digits of an escape, all of which count as read even if they are none. -/
def hexEscape : (s : Bytes) → Except Fault (Nat × Rest s)
  | a :: b :: c :: d :: s =>
    match Ascii.hexValue? a, Ascii.hexValue? b, Ascii.hexValue? c, Ascii.hexValue? d with
    | some a, some b, some c, some d =>
      .ok (((a * 16 + b) * 16 + c) * 16 + d, ⟨s, by simp only [List.length_cons]; omega⟩)
    | _, _, _, _ => .error (.behind .invalidEscape s)
  | _ => .error (.behind .endInString [])

/-- Characters beyond the first plane are written as two escapes, a leading and a trailing one. -/
def isLeading (n : Nat) : Bool := 0xd800 ≤ n && n ≤ 0xdbff
def isTrailing (n : Nat) : Bool := 0xdc00 ≤ n && n ≤ 0xdfff

def joinPair (leading trailing : Nat) : Nat :=
  (leading - 0xd800) * 0x400 + (trailing - 0xdc00) + 0x10000

/-- A byte that must come next, after the first escape of a pair. -/
def pairMark (mark : UInt8) : (s : Bytes) → Except Fault (Rest s)
  | [] => .error (.behind .endInString [])
  | b :: s =>
    if b = mark then .ok ⟨s, length_lt_cons _ _⟩ else .error (.behind .endOfHexEscape s)

/-- What follows `\u`. -/
def unicodeEscape (s : Bytes) : Except Fault (Bytes × Rest s) := do
  let (n, r) ← hexEscape s
  if isTrailing n then throw (.behind .loneSurrogate r.1)
  else if isLeading n then
    let r₁ ← pairMark Ascii.backslash r.1
    let r₂ ← pairMark 0x75 r₁.1
    let (m, r₃) ← hexEscape r₂.1
    if isTrailing m then
      return (String.utf8EncodeChar (Char.ofNat (joinPair n m)),
        ⟨r₃.1, Nat.lt_trans r₃.2 (Nat.lt_trans r₂.2 (Nat.lt_trans r₁.2 r.2))⟩)
    else throw (.behind .loneSurrogate r₃.1)
  else return (String.utf8EncodeChar (Char.ofNat n), r)

/-- What follows a backslash. -/
def escape : (s : Bytes) → Except Fault (Bytes × Rest s)
  | [] => .error (.behind .endInString [])
  | b :: s =>
    let one (c : UInt8) : Except Fault (Bytes × Rest (b :: s)) :=
      .ok ([c], ⟨s, length_lt_cons _ _⟩)
    if b = Ascii.quote ∨ b = Ascii.backslash ∨ b = Ascii.slash then one b
    else if b = 0x62 then one 0x08
    else if b = 0x66 then one Ascii.formFeed
    else if b = 0x6e then one Ascii.lineFeed
    else if b = 0x72 then one Ascii.carriageReturn
    else if b = 0x74 then one Ascii.tab
    else if b = 0x75 then
      (unicodeEscape s).map fun (bytes, r) => (bytes, r.ofRest (length_le_cons _ _))
    else .error (.behind .invalidEscape s)

/-- Reads up to the closing mark; `read` holds the bytes so far, last one first. -/
def body (read : Bytes) (s : Bytes) : Except Fault (Bytes × Rest s) :=
  match s with
  | [] => .error (.behind .endInString [])
  | b :: s =>
    if b = Ascii.quote then .ok (read.reverse, ⟨s, length_lt_cons _ _⟩)
    else if b = Ascii.backslash then do
      let (bytes, ⟨r, _⟩) ← escape s
      let (all, t) ← body (bytes.reverse ++ read) r
      return (all, t.ofRest (Nat.le_trans (Nat.le_of_lt ‹_›) (length_le_cons _ _)))
    else if b < 0x20 then .error (.behind .controlCharacter s)
    else (body (b :: read) s).map fun (all, t) => (all, t.ofRest (length_le_cons _ _))
termination_by s.length

end Quotation

/-- Reads a string, whose opening mark has been read. A fault of its encoding is counted back from
the closing mark by the number of bytes that were not good. -/
def quotation (s : Bytes) : Except Fault (String × Rest s) := do
  let (bytes, r) ← Quotation.body [] s
  match Utf8.decode bytes with
  | .ok text => return (text, r)
  | .error good => throw ⟨.invalidUtf8, r.1.length + (bytes.length - good)⟩

end TypedCollections.Json
