import TypedCollections.Proofs.Model.Files

/-!
The type names in generated code, read off its text. Each line is read from its front, one character
at a time. A word is a type name if it has a capital in front or is a primitive type. It does not
count behind a point or two colons, since it is then looked up in what stands before them; in front
of a bracket, where it is a function or a variant; in front of one colon, where it is a member, a
parameter or a constant; and in literals, comments and attributes.
-/

namespace TypedCollections.Code

/-- The types that the language has without a declaration. -/
def primitives : List String :=
  ["bool", "char", "str", "f32", "f64", "i8", "i16", "i32", "i64", "i128", "isize", "u8", "u16",
    "u32", "u64", "u128", "usize"]

def isTypeName (word : List Char) : Bool :=
  word.head?.any Char.isUpper || String.ofList word ∈ primitives

/-- What a name is made of; a keyword that is used as a name has a sharp sign. -/
def isNameChar (c : Char) : Bool := isWordChar c || c == '#'

/-- Where the reading of a line stands. What is `behind` something is looked up there. -/
inductive Mode where
  | gap (behind : Bool)
  | word (behind : Bool) (letters : List Char)
  /-- A word and a colon. -/
  | colon (behind : Bool) (letters : List Char)
  | slash
  /-- A comment or an attribute, which both go to the end of the line. -/
  | aside
  | literal
  | escape
  deriving DecidableEq, Repr

/-- A word that is complete. -/
def told (behind : Bool) (word : List Char) : List String :=
  if !behind && isTypeName word then [String.ofList word] else []

namespace Mode

/-- The place behind a character that is in no word. -/
def past (c : Char) : Mode :=
  if c = '"' then literal else if c = '/' then slash else gap (c == '.')

/-- What one character tells, and where the reading stands behind it. -/
def step : Mode → Char → List String × Mode
  | gap behind, c => ([], if isNameChar c then word behind [c] else past c)
  | word behind letters, c =>
    if isNameChar c then ([], word behind (letters ++ [c]))
    else if c = ':' then ([], colon behind letters)
    else if c = '(' then ([], past c)
    else if c = '[' ∧ letters = ['#'] then ([], aside)
    else (told behind letters, past c)
  | colon behind letters, c =>
    if c = ':' then (told behind letters, gap true)
    else ([], if isNameChar c then word false [c] else past c)
  | slash, c =>
    ([], if c = '/' then aside else if isNameChar c then word false [c] else past c)
  | aside, _ => ([], aside)
  | literal, c => ([], if c = '"' then gap false else if c = '\\' then escape else literal)
  | escape, _ => ([], literal)

def run : Mode → List Char → List String × Mode
  | m, [] => ([], m)
  | m, c :: rest => ((step m c).1 ++ (run (step m c).2 rest).1, (run (step m c).2 rest).2)

/-- What the end of the line tells. -/
def ending : Mode → List String
  | word behind letters => told behind letters
  | _ => []

end Mode

def lineNames (line : List Char) : List String :=
  ((Mode.gap false).run line).1 ++ ((Mode.gap false).run line).2.ending

/-- The type names in a text, in its order. -/
def typeNames (text : String) : List String := (lines text).flatMap lineNames

/-! ## Pieces of a line -/

/-- Reading a piece of a line from one place to another. -/
def Reads (m : Mode) (piece : String) (names : List String) (m' : Mode) : Prop :=
  m.run piece.toList = (names, m')

instance (m : Mode) (piece : String) (names : List String) (m' : Mode) :
    Decidable (Reads m piece names m') := inferInstanceAs (Decidable (_ = _))

variable {m m' m'' : Mode} {s t : String} {names more : List String}

theorem Mode.run_append (m : Mode) (a b : List Char) :
    m.run (a ++ b) = ((m.run a).1 ++ ((m.run a).2.run b).1, ((m.run a).2.run b).2) := by
  induction a generalizing m with
  | nil => rfl
  | cons c a ih => simp only [List.cons_append, run, ih, List.append_assoc]

theorem Reads.append (hs : Reads m s names m') (ht : Reads m' t more m'') :
    Reads m (s ++ t) (names ++ more) m'' := by
  rw [Reads, String.toList_append, Mode.run_append, hs, ht]

theorem Mode.run_word (behind : Bool) (letters : List Char) {rest : List Char}
    (h : rest.all isNameChar) :
    (word behind letters).run rest = ([], word behind (letters ++ rest)) := by
  induction rest generalizing letters with
  | nil => rw [run, List.append_nil]
  | cons c rest ih =>
    obtain ⟨hc, hrest⟩ := Bool.and_eq_true_iff.mp h
    rw [run, step, if_pos hc, ih _ hrest, List.append_assoc]
    rfl

/-- Something that is read as one word. -/
def IsWord (s : String) : Prop := s ≠ "" ∧ s.toList.all isNameChar

instance (s : String) : Decidable (IsWord s) := inferInstanceAs (Decidable (_ ∧ _))

theorem IsWord.reads (h : IsWord s) (behind : Bool) :
    Reads (.gap behind) s [] (.word behind s.toList) := by
  obtain ⟨hne, hall⟩ := h
  unfold Reads
  cases hs : s.toList with
  | nil => exact absurd (String.toList_eq_nil_iff.mp hs) hne
  | cons c rest =>
    rw [hs] at hall
    obtain ⟨hc, hrest⟩ := Bool.and_eq_true_iff.mp hall
    rw [Mode.run, Mode.step, if_pos hc, Mode.run_word behind [c] hrest]
    rfl

/-- A word does not begin with a blank. -/
theorem IsWord.dropWhile_append (h : IsWord s) (rest : List Char) :
    (s.toList ++ rest).dropWhile (· == ' ') = s.toList ++ rest := by
  obtain ⟨hne, hall⟩ := h
  cases hs : s.toList with
  | nil => exact absurd (String.toList_eq_nil_iff.mp hs) hne
  | cons c letters =>
    rw [hs, List.all_cons, Bool.and_eq_true] at hall
    have hc : (c == ' ') = false := by
      rw [beq_eq_false_iff_ne]
      rintro rfl
      exact absurd hall.1 (by decide)
    exact List.dropWhile_cons_of_neg (by simp [hc])

theorem reads_comment (s : String) : Reads .aside s [] .aside := by
  unfold Reads
  induction s.toList with
  | nil => rfl
  | cons c rest ih =>
    rw [Mode.run, Mode.step, ih]
    rfl

/-! ## Literals -/

theorem Mode.run_literal {letters : List Char} (h : ∀ c ∈ letters, c ≠ '"' ∧ c ≠ '\\') :
    literal.run letters = ([], literal) := by
  induction letters with
  | nil => rfl
  | cons c rest ih =>
    obtain ⟨⟨hquote, hescape⟩, hrest⟩ := List.forall_mem_cons.mp h
    rw [run, step, if_neg hquote, if_neg hescape, ih hrest]
    rfl

open Text.Quoted in
theorem Mode.run_encodeChar (c : Char) : literal.run (encodeChar c) = ([], literal) := by
  have hdigit : ∀ d < 16, Nat.digitChar d ≠ '"' ∧ Nat.digitChar d ≠ '\\' := by decide
  unfold encodeChar
  split
  · decide
  next hquote =>
  split
  · decide
  next hescape =>
  split
  · decide
  split
  · decide
  split
  · decide
  split
  · decide
  split
  · exact run_literal (by simp [hquote, hescape])
  · have hdigits : literal.run (Nat.toDigits 16 c.toNat) = ([], literal) := by
      refine run_literal fun b hb => ?_
      obtain ⟨d, hd, rfl⟩ := exists_digitChar_of_mem_toDigits hb
      exact hdigit d hd
    have hfront : literal.run ['\\', 'u', '\x7b'] = ([], literal) := by decide
    have hend : literal.run ['\x7d'] = ([], literal) := by decide
    rw [run_append, run_append, hfront, hdigits, hend]
    rfl

/-- A literal tells nothing, whatever its text is. -/
theorem reads_encode (behind : Bool) (s : String) :
    Reads (.gap behind) (Text.Quoted.encode s) [] (.gap false) := by
  have htext : Mode.literal.run (s.toList.flatMap Text.Quoted.encodeChar) = ([], .literal) := by
    induction s.toList with
    | nil => rfl
    | cons c rest ih => rw [List.flatMap_cons, Mode.run_append, Mode.run_encodeChar, ih]; rfl
  rw [Reads, Text.Quoted.encode, String.toList_ofList, List.cons_append]
  have hopen : Mode.step (.gap behind) '"' = ([], .literal) := rfl
  rw [Mode.run, hopen, Mode.run_append, htext]
  rfl

/-! ## Lines of code -/

theorem text_append (a b : Code) : text (a ++ b) = text a ++ text b := by
  rw [← String.toList_inj]
  simp [text, String.toList_join, String.toList_append]

/-- The type names in lines of code. -/
def named (code : Code) : List String := code.flatMap fun line => lineNames line.toList

@[simp] theorem named_nil : named [] = [] := rfl

@[simp] theorem named_cons (line : String) (code : Code) :
    named (line :: code) = lineNames line.toList ++ named code := List.flatMap_cons

@[simp] theorem named_append (a b : Code) : named (a ++ b) = named a ++ named b :=
  List.flatMap_append

theorem ignoresLayout_lineNames : IgnoresLayout lineNames := ⟨rfl, rfl, fun _ => rfl⟩

/-- Lines whose names are known. -/
theorem named_map {α : Type} {l : List α} {line : α → String} {names : α → List String}
    (h : ∀ a ∈ l, lineNames (line a).toList = names a) : named (l.map line) = l.flatMap names :=
  gathered_map h

theorem named_flatMap {α : Type} (l : List α) (part : α → Code) :
    named (l.flatMap part) = l.flatMap fun a => named (part a) := List.flatMap_assoc

theorem typeNames_text {code : Code} (h : Unbroken code) : typeNames code.text = named code :=
  gathered_text h ignoresLayout_lineNames

@[simp] theorem named_block (head : String) (body : Code) :
    named (block head body) = lineNames (head ++ " \x7b").toList ++ named body :=
  gathered_block ignoresLayout_lineNames head body

/-- A block that mentions something in its head only. -/
theorem named_block_of {head : String} {body : Code} {names : List String}
    (hhead : lineNames (head ++ " \x7b").toList = names) (hbody : named body = []) :
    named (block head body) = names := by
  rw [named_block, hhead, hbody, List.append_nil]

@[simp] theorem named_spaced (parts : List Code) : named (spaced parts) = parts.flatMap named :=
  gathered_spaced ignoresLayout_lineNames parts

theorem Reads.lineNames_eq (h : Reads (.gap false) s names m) (hm : m.ending = []) :
    lineNames s.toList = names := by
  rw [lineNames, h, hm, List.append_nil]

end TypedCollections.Code
