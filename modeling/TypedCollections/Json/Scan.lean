import TypedCollections.Json.Fault

/-!
How a text is read: from the front, byte by byte. Each reading returns what it read together with
what is left of the text, which is shorter; so a reader that goes on with the rest ends.
-/

namespace TypedCollections.Json

/-- What is left of `s` after at least one byte. -/
abbrev Rest (s : Bytes) := { r : Bytes // r.length < s.length }

/-- What is left of `s` after any number of bytes. -/
abbrev Tail (s : Bytes) := { r : Bytes // r.length ≤ s.length }

namespace Rest

variable {s t : Bytes}

def ofTail (h : t.length < s.length) (r : Tail t) : Rest s := ⟨r.1, Nat.lt_of_le_of_lt r.2 h⟩

def ofRest (h : t.length ≤ s.length) (r : Rest t) : Rest s := ⟨r.1, Nat.lt_of_lt_of_le r.2 h⟩

def toTail (h : t.length ≤ s.length) (r : Rest t) : Tail s :=
  ⟨r.1, Nat.le_trans (Nat.le_of_lt r.2) h⟩

end Rest

section Lengths

variable {s r₁ r₂ r₃ : Bytes}

theorem length_lt_cons (b : UInt8) (s : Bytes) : s.length < (b :: s).length := Nat.lt_succ_self _

theorem length_le_cons (b : UInt8) (s : Bytes) : s.length ≤ (b :: s).length := Nat.le_succ _

theorem length_le_of_lt (h : r₁.length < s.length) : r₁.length ≤ s.length := Nat.le_of_lt h

theorem length_lt_of_three (h₁ : r₁.length < s.length) (h₂ : r₂.length < r₁.length)
    (h₃ : r₃.length < r₂.length) : r₃.length < s.length :=
  Nat.lt_trans h₃ (Nat.lt_trans h₂ h₁)

end Lengths

/-- Space, tab, line feed and carriage return separate the tokens of a text. -/
def isSeparator (b : UInt8) : Bool :=
  b == Ascii.space || b == Ascii.lineFeed || b == Ascii.tab || b == Ascii.carriageReturn

def skipBlank (s : Bytes) : Bytes := s.dropWhile isSeparator

theorem length_skipBlank_le (s : Bytes) : (skipBlank s).length ≤ s.length :=
  (List.dropWhile_sublist _).length_le

theorem length_lt_of_skipBlank {s r : Bytes} {b : UInt8} (h : skipBlank s = b :: r) :
    r.length < s.length := by
  have := length_skipBlank_le s
  rw [h] at this
  exact this

def trueWord : Bytes := [0x74, 0x72, 0x75, 0x65]
def falseWord : Bytes := [0x66, 0x61, 0x6c, 0x73, 0x65]
def nullWord : Bytes := [0x6e, 0x75, 0x6c, 0x6c]

/-- Reads the letters of a word one after the other. -/
def literal : (letters : Bytes) → (s : Bytes) → Except Fault (Tail s)
  | [], s => .ok ⟨s, Nat.le_refl _⟩
  | _ :: _, [] => .error (.behind .endInValue [])
  | c :: letters, b :: s =>
    if b = c then (literal letters s).map fun r => ⟨r.1, Nat.le_succ_of_le r.2⟩
    else .error (.behind .expectedLiteral s)

end TypedCollections.Json
