import TypedCollections.Json.Quotation

/-!
What stands between brackets: the items of a list, the members of an object. Both are read with a
reader for one of them.
-/

namespace TypedCollections.Json

/-- Reads something from the front of a text. -/
abbrev Reader (α : Type) := (s : Bytes) → Except Fault (α × Rest s)

variable {α σ : Type}

/-- One item and those after it, up to the closing bracket; `before` holds the items so far, last
one first. -/
def items (read : Reader α) (before : List α) (s : Bytes) : Except Fault (List α × Rest s) := do
  let (x, ⟨r, hr⟩) ← read s
  match h : skipBlank r with
  | [] => throw (.ahead .endInList [])
  | b :: t =>
    have ht : t.length < s.length := Nat.lt_trans (length_lt_of_skipBlank h) hr
    if b = Ascii.closeSquare then return ((x :: before).reverse, ⟨t, ht⟩)
    else if b = Ascii.comma then
      match skipBlank t with
      | Ascii.closeSquare :: u => throw (.ahead .trailingComma (Ascii.closeSquare :: u))
      | _ =>
        let (all, u) ← items read (x :: before) t
        return (all, u.ofRest (Nat.le_of_lt ht))
    else throw (.ahead .expectedListEnd (b :: t))
termination_by s.length

/-- The items of a list, whose opening bracket has been read. -/
def list (read : Reader α) : Reader (List α) := fun s =>
  match h : skipBlank s with
  | [] => .error (.ahead .endInList [])
  | b :: r =>
    if b = Ascii.closeSquare then .ok ([], ⟨r, length_lt_of_skipBlank h⟩)
    else items read [] s

/-- The colon between a key and its value. -/
def colon (s : Bytes) : Except Fault (Rest s) :=
  match h : skipBlank s with
  | [] => .error (.ahead .endInObject [])
  | b :: r =>
    if b = Ascii.colon then .ok ⟨r, length_lt_of_skipBlank h⟩
    else .error (.ahead .expectedColon (b :: r))

/-- One member and those after it, up to the closing bracket. The mark before the first key has
been read. Each member is taken into what the ones before it gave. -/
def members (member : σ → Reader σ) (before : σ) (s : Bytes) :
    Except Fault (σ × Rest s) := do
  let (x, ⟨r, hr⟩) ← member before s
  match h : skipBlank r with
  | [] => throw (.ahead .endInObject [])
  | b :: t =>
    have ht : t.length < s.length := Nat.lt_trans (length_lt_of_skipBlank h) hr
    if b = Ascii.closeCurly then return (x, ⟨t, ht⟩)
    else if b = Ascii.comma then
      match h' : skipBlank t with
      | [] => throw (.ahead .endInValue [])
      | c :: u =>
        have hu : u.length < s.length := Nat.lt_trans (length_lt_of_skipBlank h') ht
        if c = Ascii.quote then
          let (all, v) ← members member x u
          return (all, v.ofRest (Nat.le_of_lt hu))
        else if c = Ascii.closeCurly then throw (.ahead .trailingComma (c :: u))
        else throw (.ahead .keyNotString (c :: u))
    else throw (.ahead .expectedObjectEnd (b :: t))
termination_by s.length

/-- The members of an object, whose opening bracket has been read. -/
def object (member : σ → Reader σ) (start : σ) : Reader σ := fun s =>
  match h : skipBlank s with
  | [] => .error (.ahead .endInObject [])
  | b :: r =>
    have hr := length_lt_of_skipBlank h
    if b = Ascii.closeCurly then .ok (start, ⟨r, hr⟩)
    else if b = Ascii.quote then
      (members member start r).map fun (x, t) =>
        (x, t.ofRest (length_le_of_lt hr))
    else .error (.ahead .keyNotString (b :: r))

end TypedCollections.Json
