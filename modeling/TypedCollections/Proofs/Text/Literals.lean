import TypedCollections.Proofs.Text.Quoted

/-!
String literals read by the rules of the language, one character at a time, with all its escapes and
not only those that are written. A literal that is written is read as the text it was written for,
and ends at the quotation mark behind it.
-/

namespace TypedCollections.Text.Quoted

/-- The value of a hexadecimal digit, in either case. -/
def hexDigit? (c : Char) : Option Nat :=
  if '0' ≤ c ∧ c ≤ '9' then some (c.toNat - '0'.toNat)
  else if 'a' ≤ c ∧ c ≤ 'f' then some (c.toNat - 'a'.toNat + 10)
  else if 'A' ≤ c ∧ c ≤ 'F' then some (c.toNat - 'A'.toNat + 10)
  else none

/-- Where the reading of a literal stands. -/
inductive State where
  | plain
  /-- Behind a backslash. -/
  | escape
  /-- Behind `\x`, where two digits must follow. -/
  | code
  | codeDigit (high : Nat)
  /-- Behind `\u`, where a brace must follow. -/
  | opening
  /-- Behind the brace, and so many digits with their value. -/
  | digits (count value : Nat)
  /-- Behind a backslash at the end of a line, where white space is passed over. -/
  | continued
  /-- Behind the closing quotation mark. -/
  | closed
  deriving DecidableEq, Repr

namespace State

/-- What a character denotes that stands for itself or begins something else. -/
def plainStep (c : Char) : Option (List Char × State) :=
  if c = '"' then some ([], closed)
  else if c = '\\' then some ([], escape)
  -- a carriage return must be escaped
  else if c = '\r' then none
  else some ([c], plain)

def escapeStep (c : Char) : Option (List Char × State) :=
  match c with
  | 'n' => some (['\n'], plain)
  | 'r' => some (['\r'], plain)
  | 't' => some (['\t'], plain)
  | '0' => some (['\x00'], plain)
  | '\\' | '"' | '\x27' => some ([c], plain)
  | 'x' => some ([], code)
  | 'u' => some ([], opening)
  | '\n' => some ([], continued)
  | _ => none

/-- What a character of a literal denotes, and where the reading stands behind it. -/
def step : State → Char → Option (List Char × State)
  | plain, c => plainStep c
  | escape, c => escapeStep c
  | code, c => (hexDigit? c).bind fun d => if d < 8 then some ([], codeDigit d) else none
  | codeDigit high, c => (hexDigit? c).map fun d => ([Char.ofNat (16 * high + d)], plain)
  | opening, c => if c = '\x7b' then some ([], digits 0 0) else none
  | digits count value, c =>
    if c = '\x7d' then
      if 0 < count ∧ value.isValidChar then some ([Char.ofNat value], plain) else none
    else if c = '_' then if 0 < count then some ([], digits count value) else none
    else (hexDigit? c).bind fun d =>
      if count < 6 then some ([], digits (count + 1) (16 * value + d)) else none
  | continued, c => if c ∈ [' ', '\t', '\n', '\r'] then some ([], continued) else plainStep c
  | closed, _ => none

/-- Reads up to the closing quotation mark: the characters that are denoted, and what follows. -/
def read? : State → List Char → Option (List Char × List Char)
  | closed, rest => some ([], rest)
  | _, [] => none
  | state, c :: rest => do
    let (here, state) ← state.step c
    let (more, rest) ← state.read? rest
    return (here ++ more, rest)

/-- Characters that denote something and lead from one state to another, whatever follows. -/
def Reads (state : State) (piece text : List Char) (state' : State) : Prop :=
  ∀ rest, state.read? (piece ++ rest) =
    (state'.read? rest).map fun (more, rest) => (text ++ more, rest)

end State

/-- The text of a literal at the front, and what follows the literal. -/
def read? : List Char → Option (String × List Char)
  | '"' :: rest => (State.plain.read? rest).map fun (text, rest) => (String.ofList text, rest)
  | _ => none

namespace State

variable {state state' state'' : State} {piece more text rest : List Char}

theorem reads_of_step {c : Char} (hstate : state ≠ closed)
    (h : state.step c = some (text, state')) : Reads state [c] text state' := by
  intro rest
  rw [List.singleton_append, read?]
  · simp only [h, Option.bind_eq_bind, Option.bind_some]
    cases state'.read? rest <;> rfl
  · exact hstate

theorem Reads.append {text' : List Char} (h : Reads state piece text state')
    (h' : Reads state' more text' state'') :
    Reads state (piece ++ more) (text ++ text') state'' := by
  intro rest
  rw [List.append_assoc, h, h', Option.map_map]
  simp only [Function.comp_def, List.append_assoc]

theorem reads_nil (state : State) : Reads state [] [] state := by
  intro rest
  rw [List.nil_append]
  cases state.read? rest <;> rfl

end State

/-! ## What is written -/

open State

theorem hexDigit?_digitChar : ∀ d < 16, hexDigit? (Nat.digitChar d) = some d ∧
    Nat.digitChar d ≠ '\x7d' ∧ Nat.digitChar d ≠ '_' := by
  decide

theorem reads_digit {count value d : Nat} (hd : d < 16) (hc : count < 6) :
    Reads (.digits count value) [Nat.digitChar d] [] (.digits (count + 1) (16 * value + d)) := by
  obtain ⟨hdigit, hbrace, hunderscore⟩ := hexDigit?_digitChar d hd
  refine reads_of_step (by simp) ?_
  simp [step, hbrace, hunderscore, hdigit, hc]

/-- A number in hexadecimal digits is read again. -/
theorem reads_toDigits {n : Nat} (h : (Nat.toDigits 16 n).length ≤ 6) :
    Reads (.digits 0 0) (Nat.toDigits 16 n) [] (.digits (Nat.toDigits 16 n).length n) := by
  induction n using Nat.strongRecOn with
  | ind n ih =>
    rw [Nat.toDigits_eq_if (by decide)] at h ⊢
    split at h
    · next hn =>
      rw [if_pos hn]
      simpa using @reads_digit 0 0 n hn (by decide)
    · next hn =>
      rw [if_neg hn]
      rw [List.length_append, List.length_singleton] at h ⊢
      have hlast := @reads_digit (Nat.toDigits 16 (n / 16)).length (n / 16) (n % 16)
        (Nat.mod_lt n (by decide)) (by omega)
      rw [Nat.div_add_mod] at hlast
      exact (ih (n / 16) (by omega) (by omega)).append hlast

theorem length_toDigits_le (c : Char) : (Nat.toDigits 16 c.toNat).length ≤ 6 := by
  have hc : c.toNat < 0x110000 := by
    have hvalid : c.toNat < 0xd800 ∨ 0xdfff < c.toNat ∧ c.toNat < 0x110000 := c.valid
    omega
  exact (Nat.length_toDigits_le_iff (by decide) (by decide)).mpr (by omega)

theorem reads_encodeChar (c : Char) : Reads .plain (encodeChar c) [c] .plain := by
  have hescape : Reads .plain ['\\'] [] .escape := reads_of_step (by simp) rfl
  have hletter : ∀ {b d : Char}, step .escape b = some ([d], .plain) →
      Reads .plain ['\\', b] [d] .plain :=
    fun h => hescape.append (reads_of_step (by simp) h)
  unfold encodeChar
  split
  · next hc => subst hc; exact hletter rfl
  next hquote =>
  split
  · next hc => subst hc; exact hletter rfl
  next hbackslash =>
  split
  · next hc => subst hc; exact hletter rfl
  split
  · next hc => subst hc; exact hletter rfl
  next hreturn =>
  split
  · next hc => subst hc; exact hletter rfl
  split
  · next hc =>
    obtain rfl : c = '\x00' := by rw [← Char.ofNat_toNat c, hc]
    exact hletter rfl
  split
  · refine reads_of_step (by simp) ?_
    simp [step, plainStep, hquote, hbackslash, hreturn]
  · have hmark : Reads .escape ['u'] [] .opening := reads_of_step (by simp) rfl
    have hbrace : Reads .opening ['\x7b'] [] (.digits 0 0) := reads_of_step (by simp) rfl
    have hend : Reads (.digits (Nat.toDigits 16 c.toNat).length c.toNat) ['\x7d'] [c] .plain := by
      refine reads_of_step (by simp) ?_
      have hvalid : c.toNat.isValidChar := c.valid
      simp [step, Nat.length_toDigits_pos, hvalid, Char.ofNat_toNat]
    have hdigits := reads_toDigits (length_toDigits_le c)
    exact (((hescape.append hmark).append hbrace).append hdigits).append hend

theorem reads_flatMap (text : List Char) : Reads .plain (text.flatMap encodeChar) text .plain := by
  induction text with
  | nil => exact reads_nil .plain
  | cons c text ih => exact (reads_encodeChar c).append ih

/-- Whatever follows a literal, it is read as its text and ends at its own quotation mark. -/
theorem read?_encode (text : String) (rest : List Char) :
    read? ((encode text).toList ++ rest) = some (text, rest) := by
  have hclosed : Reads .plain ['"'] [] .closed := reads_of_step (by simp) rfl
  have hall := (reads_flatMap text.toList).append hclosed rest
  have hchars : (encode text).toList ++ rest =
      '"' :: (text.toList.flatMap encodeChar ++ ['"'] ++ rest) := by
    rw [encode, String.toList_ofList]
    rfl
  rw [hchars, read?, hall]
  simp [State.read?]

end TypedCollections.Text.Quoted
