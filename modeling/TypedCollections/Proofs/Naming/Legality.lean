import Mathlib.Data.List.DropRight
import TypedCollections.Naming.Reserved
import TypedCollections.Proofs.Naming.Identifier

/-!
Which names the generated code may use, and that `escaped` makes such a name of every word in snake
case. A raw name is a word behind `r#`; `bare` is the word itself, and `stem` is what is left of a
name without the underscores at its end.
-/

namespace TypedCollections.Identifier

/-- A word of ASCII letters, digits and underscores. A single underscore is none. -/
def isWord (s : List Char) : Bool :=
  s != ['_'] && s.head?.any (fun c => c.isAlpha || c == '_') &&
    s.all fun c => c.isAlphanum || c == '_'

/-- The words that have a meaning of their own in the code. -/
def usedWords : List String :=
  ["as", "async", "await", "break", "const", "continue", "crate", "dyn", "else", "enum", "extern",
    "false", "fn", "for", "if", "impl", "in", "let", "loop", "match", "mod", "move", "mut", "pub",
    "ref", "return", "self", "Self", "static", "struct", "super", "trait", "true", "type",
    "unsafe", "use", "where", "while"]

/-- The words that are kept for a later meaning. -/
def keptWords : List String :=
  ["abstract", "become", "box", "do", "final", "gen", "macro", "override", "priv", "try",
    "typeof", "unsized", "virtual", "yield"]

/-- The words that are no names even behind `r#`. -/
def pathWords : List String := ["crate", "self", "Self", "super"]

/-- A name without the mark of a raw one. -/
def bare (name : String) : String :=
  match name.toList with
  | 'r' :: '#' :: word => String.ofList word
  | _ => name

/-- May the code call something by the name? It is a word that is no keyword, or a raw name. -/
def IsLegal (name : String) : Prop :=
  isWord name.toList ∧ name ∉ usedWords ∧ name ∉ keptWords ∨
    name = "r#" ++ bare name ∧ isWord (bare name).toList ∧ bare name ∉ pathWords

instance (name : String) : Decidable (IsLegal name) := inferInstanceAs (Decidable (_ ∨ _))

/-- A small letter, and then small letters, digits and underscores. -/
def IsSnake (s : List Char) : Prop :=
  ∃ c rest, s = c :: rest ∧ c.isLower ∧ ∀ b ∈ rest, isSmall b ∨ b = '_'

theorem isSnake_snake {identifier : String} (h : IsPascal identifier.toList) :
    IsSnake (snake identifier).toList := by
  obtain ⟨c, rest, heq, hc, hrest, -⟩ := snake_shape h
  exact ⟨c, rest, heq, hc, hrest⟩

theorem IsSnake.append {s t : List Char} (h : IsSnake s) (ht : ∀ b ∈ t, isSmall b ∨ b = '_') :
    IsSnake (s ++ t) := by
  obtain ⟨c, rest, rfl, hc, hrest⟩ := h
  refine ⟨c, rest ++ t, rfl, hc, ?_⟩
  intro b hb
  exact (List.mem_append.mp hb).elim (hrest b) (ht b)

theorem IsSnake.small {s : List Char} (h : IsSnake s) : ∀ b ∈ s, isSmall b ∨ b = '_' := by
  obtain ⟨c, rest, rfl, hc, hrest⟩ := h
  simpa [isSmall, hc] using hrest

theorem isAlphanum_of_isSmall {c : Char} (h : isSmall c) : c.isAlphanum := by
  simp only [isSmall, Bool.or_eq_true] at h
  rcases h with h | h <;> simp [Char.isAlphanum, Char.isAlpha, h]

theorem IsSnake.isWord {s : List Char} (h : IsSnake s) : isWord s := by
  have hall : (s.all fun c => c.isAlphanum || c == '_') := by
    rw [List.all_eq_true]
    intro c hc
    rcases h.small c hc with hs | rfl
    · simp [isAlphanum_of_isSmall hs]
    · rfl
  obtain ⟨c, rest, rfl, hc, -⟩ := h
  have hne : c :: rest ≠ ['_'] := by
    rintro ⟨⟩
    exact absurd hc (by decide)
  simp [Identifier.isWord, hne, hall, Char.isAlpha, hc]

/-- A word in snake case has no mark. -/
theorem IsSnake.bare_eq {name : String} (h : IsSnake name.toList) : bare name = name := by
  unfold bare
  split
  · next word heq =>
    have hmark := h.small '#' (by simp [heq])
    exact absurd hmark (by decide)
  · rfl

@[simp] theorem bare_raw (word : String) : bare ("r#" ++ word) = word := by
  simp [bare, String.toList_append]

/-- The part of a name before the underscores at its end. -/
def stem (name : String) : List Char := name.toList.rdropWhile (· == '_')

@[simp] theorem stem_append_underscore (name : String) : stem (name ++ "_") = stem name := by
  simp [stem, String.toList_append, List.rdropWhile_concat_pos]

theorem stem_snake {identifier : String} (h : IsPascal identifier.toList) :
    stem (snake identifier) = (snake identifier).toList := by
  obtain ⟨c, rest, heq, -, -, hlast⟩ := snake_shape h
  unfold stem
  rw [heq, List.rdropWhile_eq_self_iff]
  intro hne hunderscore
  rw [List.getLast?_eq_some_getLast hne] at hlast
  exact hlast (congrArg some (by simpa using hunderscore))

theorem append_underscore_ne {word : String} (name : String)
    (h : word.toList.getLast? ≠ some '_') : name ++ "_" ≠ word := by
  rintro rfl
  exact h (by simp [String.toList_append])

/-- No keyword ends with an underscore. -/
theorem append_underscore_notMem {words : List String} (name : String)
    (h : ∀ word ∈ words, word.toList.getLast? ≠ some '_') : name ++ "_" ∉ words :=
  fun hm => append_underscore_ne name (h _ hm) rfl

/-- The marked or lengthened form of a word is the word with at most one more underscore. -/
theorem bare_escaped {name : String} (h : IsSnake name.toList) :
    bare (escaped name) = name ∨ bare (escaped name) = name ++ "_" := by
  unfold escaped
  split
  · refine .inr (IsSnake.bare_eq ?_)
    rw [String.toList_append]
    exact h.append (by simp)
  · split
    · exact .inl (bare_raw name)
    · exact .inl h.bare_eq

theorem reserved_of_mem {word : String} (h : word ∈ usedWords ++ keptWords) :
    word ∈ strictKeywords ∨ word ∈ keywords :=
  (by decide : ∀ word ∈ usedWords ++ keptWords, word ∈ strictKeywords ∨ word ∈ keywords) word h

theorem isLegal_escaped {name : String} (h : IsSnake name.toList) : IsLegal (escaped name) := by
  unfold escaped
  split
  · refine .inl ⟨?_, append_underscore_notMem name (by decide),
      append_underscore_notMem name (by decide)⟩
    rw [String.toList_append]
    exact (h.append (by simp)).isWord
  next hstrict =>
  split
  · exact .inr ⟨by rw [bare_raw], by rw [bare_raw]; exact h.isWord, by rw [bare_raw]; exact hstrict⟩
  · next hkeyword =>
    have hfree : name ∉ usedWords ++ keptWords := fun hm => (reserved_of_mem hm).elim hstrict hkeyword
    exact .inl ⟨h.isWord, fun hm => hfree (List.mem_append_left _ hm),
      fun hm => hfree (List.mem_append_right _ hm)⟩

end TypedCollections.Identifier
