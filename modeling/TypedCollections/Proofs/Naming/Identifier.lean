import TypedCollections.Proofs.Naming.Words

/-!
Identifiers in Pascal case and in snake case. Whatever a name holds, its canonical form is made of
ASCII letters and digits, starts with a capital letter and spells the letters and digits of the name
in their order. On such identifiers `snake` loses nothing: the canonical form of the name in snake
case is the identifier again, as the letter behind each underscore was the capital one.
-/

namespace TypedCollections.Identifier

/-- The characters that a name in snake case has besides the underscore. -/
def isSmall (c : Char) : Bool := c.isLower || c.isDigit

theorem isSmall_of_isAlphanum {c : Char} (h : c.isAlphanum) (hu : c.isUpper = false) :
    isSmall c := by
  simpa [Char.isAlphanum, Char.isAlpha, hu, isSmall] using h

/-- An identifier in Pascal case. -/
structure IsPascal (s : List Char) : Prop where
  alphanum : ∀ c ∈ s, c.isAlphanum
  head : s.head?.any Char.isUpper

/-! The canonical form of a name. -/

theorem isPascal_canonicalChars (name : List Char) : IsPascal (canonicalChars name) := by
  have hwords : ∀ w ∈ words name, ∀ c ∈ w, c.isAlphanum := fun _ => isAlphanum_of_mem_words
  have hall : ∀ c ∈ ((words name).map capitalize).flatten, c.isAlphanum := by
    intro c hc
    obtain ⟨w, hw, hc⟩ := List.mem_flatten.mp hc
    obtain ⟨v, hv, rfl⟩ := List.mem_map.mp hw
    exact isAlphanum_of_mem_capitalize (hwords v hv) c hc
  unfold canonicalChars
  split
  · exact ⟨by simp [fallback], by simp [fallback]⟩
  · next c rest heq =>
    rw [heq] at hall
    split
    · refine ⟨?_, by simp [fallback]⟩
      intro b hb
      rcases List.mem_append.mp hb with hb | hb
      · exact (show ∀ b ∈ fallback.toList, b.isAlphanum from by simp [fallback]) b hb
      · exact hall b hb
    · next hd =>
      obtain ⟨w, hw, a, ha, rfl⟩ := head_flatten_capitalize heq
      refine ⟨hall, ?_⟩
      simpa using isUpper_toUpper (hwords w hw a ha) (by simpa using hd)

theorem canonical?_of_ne {name : String} (h : name ≠ "") :
    canonical? name = some (String.ofList (canonicalChars name.toList)) := by
  simp [canonical?, h]

theorem exists_canonical {name : String} (h : name ≠ "") :
    ∃ identifier, canonical? name = some identifier :=
  ⟨_, canonical?_of_ne h⟩

theorem isPascal_of_canonical? {name identifier : String} (h : canonical? name = some identifier) :
    IsPascal identifier.toList := by
  unfold canonical? at h
  split at h
  · cases h
  · cases h
    simpa using isPascal_canonicalChars name.toList

/-- The letters and digits of a name, all letters small. -/
def letters (name : String) : List Char :=
  (name.toList.filter Char.isAlphanum).map Char.toLower

/-- But for the case of its letters, the canonical form spells the letters and digits of the name.
The fallback stands in front exactly when no letter comes first. -/
theorem map_toLower_canonicalChars (name : String) :
    (canonicalChars name.toList).map Char.toLower =
      (if (letters name).head?.all Char.isDigit then "field".toList else []) ++ letters name := by
  have hletters : ((words name.toList).map capitalize).flatten.map Char.toLower = letters name := by
    rw [map_toLower_flatten_capitalize, flatten_words, letters]
  have hfallback : fallback.toList.map Char.toLower = "field".toList := by decide
  rw [← hletters]
  unfold canonicalChars
  split
  · next hempty => simp [hempty, hfallback]
  · next c rest heq =>
    split
    · next hdigit => simp [heq, hfallback, isDigit_toLower, hdigit]
    · next hdigit => simp [heq, isDigit_toLower, hdigit]

/-- Every name but the empty one has an identifier in Pascal case. The words of the name hold its
letters and digits, each once and in their order; and so does the identifier, up to the case of the
letters, with `field` in front exactly when the first of them is a digit or there is none. -/
theorem canonical?_spells {name : String} (h : name ≠ "") :
    ∃ identifier, canonical? name = some identifier ∧ IsPascal identifier.toList ∧
      (words name.toList).flatten = name.toList.filter Char.isAlphanum ∧
      identifier.toLower.toList =
        (if (letters name).head?.all Char.isDigit then "field".toList else []) ++ letters name := by
  refine ⟨_, canonical?_of_ne h, ?_, flatten_words _, ?_⟩
  · exact isPascal_of_canonical? (canonical?_of_ne h)
  · rw [String.toLower, String.toList_map, String.toList_ofList, map_toLower_canonicalChars]

/-- Words of three kinds, a letter that is none of ASCII, and a digit in front. -/
theorem canonical?_spells_mixedName :
    "1é_HTTPServer--idOf" ≠ "" ∧ canonical? "1é_HTTPServer--idOf" = some "Field1HttpServerIdOf" ∧
      words "1é_HTTPServer--idOf".toList =
        ["1".toList, "HTTP".toList, "Server".toList, "id".toList, "Of".toList] ∧
      "Field1HttpServerIdOf".toLower.toList = "field".toList ++ letters "1é_HTTPServer--idOf" := by
  have hne : "1é_HTTPServer--idOf" ≠ "" := by decide
  obtain ⟨identifier, hidentifier, -, -, hspells⟩ := canonical?_spells hne
  have hsome : canonical? "1é_HTTPServer--idOf" = some "Field1HttpServerIdOf" := by decide +kernel
  have hsame : identifier = "Field1HttpServerIdOf" := Option.some.inj (hidentifier.symm.trans hsome)
  have hdigit : (letters "1é_HTTPServer--idOf").head?.all Char.isDigit := by decide +kernel
  rw [hsame, if_pos hdigit] at hspells
  exact ⟨hne, hsome, by decide +kernel, hspells⟩

theorem IsPascal.append {s t : List Char} (h : IsPascal s) (ht : ∀ c ∈ t, c.isAlphanum) :
    IsPascal (s ++ t) := by
  constructor
  · intro c hc
    exact (List.mem_append.mp hc).elim (h.alphanum c) (ht c)
  · have := h.head
    cases s with
    | nil => simp at this
    | cons c rest => simpa using this

theorem IsPascal.numbered {identifier : String} (h : IsPascal identifier.toList) (n : Nat) :
    IsPascal (identifier ++ toString n).toList := by
  rw [String.toList_append, Nat.toString_eq_repr, Nat.toList_repr]
  refine h.append fun c hc => ?_
  have hdigit := Nat.isDigit_of_mem_toDigits (by decide) (by decide) hc
  simp [Char.isAlphanum, hdigit]

/-! Snake case. -/

theorem ne_underscore {c : Char} (h : c.isAlphanum) : c ≠ '_' := by
  rintro rfl
  exact absurd h (by decide)

/-- An underscore ends the open word, and the small letter behind it starts the next one. Nothing
else in a tail ends a word. -/
theorem flatten_capitalize_snakeTail {word s : List Char} (hword : word ≠ [])
    (hs : ∀ c ∈ s, c.isAlphanum) :
    ((wordsFrom word (snakeTail s)).map capitalize).flatten = capitalize word.reverse ++ s := by
  induction s generalizing word with
  | nil => simp [snakeTail, wordsFrom, close_of_ne hword]
  | cons c rest ih =>
    have hc : c.isAlphanum := hs c List.mem_cons_self
    have hrest : ∀ b ∈ rest, b.isAlphanum := fun b hb => hs b (List.mem_cons_of_mem c hb)
    unfold snakeTail
    split
    · next hupper =>
      have hfirst : capitalize [c.toLower] = [c] := by simp [capitalize, toUpper_toLower hupper]
      rw [wordsFrom_separator (by decide), close_of_ne hword,
        wordsFrom_of_not_isUpper (isAlphanum_toLower hc) (Char.isUpper_toLower_eq_false c),
        List.map_cons, List.flatten_cons, ih (List.cons_ne_nil _ _) hrest, List.reverse_singleton,
        hfirst, List.singleton_append]
    · next hupper =>
      have hsame : c.toLower = c := Char.toLower_eq_of_not_isUpper hupper
      have hreverse : word.reverse ≠ [] := by simpa using hword
      rw [wordsFrom_of_not_isUpper hc (by simpa using hupper), ih (List.cons_ne_nil _ _) hrest,
        List.reverse_cons, capitalize_concat hreverse, hsame, List.append_assoc,
        List.singleton_append]

/-- The words of a name in snake case, capitalised, are those of the identifier. -/
theorem canonicalChars_snakeChars {s : List Char} (h : IsPascal s) :
    canonicalChars (snakeChars s) = s := by
  cases s with
  | nil => exact absurd h.head (by simp)
  | cons c rest =>
    have hupper : c.isUpper := by simpa using h.head
    have hc : c.isAlphanum := h.alphanum c List.mem_cons_self
    have hrest : ∀ b ∈ rest, b.isAlphanum := fun b hb => h.alphanum b (List.mem_cons_of_mem c hb)
    have hwords : ((words (snakeChars (c :: rest))).map capitalize).flatten = c :: rest := by
      rw [words, snakeChars, if_pos hupper,
        wordsFrom_of_not_isUpper (isAlphanum_toLower hc) (Char.isUpper_toLower_eq_false c),
        flatten_capitalize_snakeTail (List.cons_ne_nil _ _) hrest]
      simp [capitalize, toUpper_toLower hupper]
    have hdigit : c.isDigit = false := isDigit_eq_false_of_isAlpha (by simp [Char.isAlpha, hupper])
    simp [canonicalChars, hwords, hdigit]

/-- The characters of the tail of a name in snake case. -/
theorem isSmall_of_mem_snakeTail {s : List Char} (h : ∀ c ∈ s, c.isAlphanum) :
    ∀ c ∈ snakeTail s, isSmall c ∨ c = '_' := by
  induction s with
  | nil => simp [snakeTail]
  | cons a rest ih =>
    have hrest := ih fun b hb => h b (List.mem_cons_of_mem _ hb)
    intro c hc
    simp only [snakeTail] at hc
    split at hc
    · next hu =>
      rcases List.mem_cons.mp hc with rfl | hc
      · exact .inr rfl
      rcases List.mem_cons.mp hc with rfl | hc
      · exact .inl (by simp [isSmall, isLower_toLower hu])
      · exact hrest c hc
    · next hu =>
      rcases List.mem_cons.mp hc with rfl | hc
      · exact .inl (isSmall_of_isAlphanum (h c (by simp)) (by simpa using hu))
      · exact hrest c hc

/-- A tail in snake case never ends with an underscore. -/
theorem getLast?_snakeTail {s : List Char} (h : ∀ c ∈ s, c.isAlphanum) :
    (snakeTail s).getLast? ≠ some '_' := by
  induction s with
  | nil => simp [snakeTail]
  | cons a rest ih =>
    have hrest := ih fun b hb => h b (List.mem_cons_of_mem _ hb)
    -- the last character is the one of the rest, or the small form of `a` before an empty rest
    have hlast : ∀ b : Char, b ≠ '_' → (b :: snakeTail rest).getLast? ≠ some '_' := by
      intro b hb
      cases hr : snakeTail rest with
      | nil => simpa using hb
      | cons d l => rw [List.getLast?_cons_cons, ← hr]; exact hrest
    simp only [snakeTail]
    split
    · next hu =>
      rw [List.getLast?_cons_cons]
      exact hlast _ (ne_underscore (isAlphanum_toLower (h a (by simp))))
    · exact hlast a (ne_underscore (h a (by simp)))

/-- A name in snake case is a small letter and a tail of small letters, digits and underscores, and
its last character is no underscore. -/
theorem snake_shape {identifier : String} (h : IsPascal identifier.toList) :
    ∃ c rest, (snake identifier).toList = c :: rest ∧ c.isLower ∧
      (∀ b ∈ rest, isSmall b ∨ b = '_') ∧ (c :: rest).getLast? ≠ some '_' := by
  unfold snake
  rw [String.toList_ofList]
  revert h
  generalize identifier.toList = s
  intro h
  cases s with
  | nil => exact absurd h.head (by simp)
  | cons c s =>
    have hc : c.isUpper := by simpa using h.head
    have hs : ∀ b ∈ s, b.isAlphanum := fun b hb => h.alphanum b (List.mem_cons_of_mem _ hb)
    refine ⟨c.toLower, snakeTail s, by simp [snakeChars, hc], isLower_toLower hc,
      isSmall_of_mem_snakeTail hs, ?_⟩
    cases ht : snakeTail s with
    | nil => simpa using ne_underscore (isAlphanum_toLower (h.alphanum c (by simp)))
    | cons d l => rw [List.getLast?_cons_cons, ← ht]; exact getLast?_snakeTail hs

/-- The canonical form undoes snake case. -/
theorem canonical?_snake {identifier : String} (h : IsPascal identifier.toList) :
    canonical? (snake identifier) = some identifier := by
  obtain ⟨c, rest, hchars, -⟩ := snake_shape h
  have hne : snake identifier ≠ "" := by
    intro hempty
    simp [hempty] at hchars
  rw [canonical?_of_ne hne, snake, String.toList_ofList, canonicalChars_snakeChars h,
    String.ofList_toList]

/-- Two identifiers with the same name in snake case are one. -/
theorem snake_injective {a b : String} (ha : IsPascal a.toList) (hb : IsPascal b.toList)
    (h : snake a = snake b) : a = b := by
  have hcanonical : canonical? (snake a) = canonical? (snake b) := congrArg canonical? h
  rw [canonical?_snake ha, canonical?_snake hb] at hcanonical
  exact Option.some.inj hcanonical

end TypedCollections.Identifier
