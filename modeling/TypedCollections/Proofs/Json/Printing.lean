import TypedCollections.Json.Printer
import TypedCollections.Proofs.Json.Complete.Shapes
import TypedCollections.Proofs.Text.Utf8

/-!
Printed strings, and lists of them, as texts of the grammar. Every escape stands for the character
that it was written for, so a printed string denotes what was printed, whatever its characters are.
-/
namespace TypedCollections.Json

/-! ## Strings -/

theorem unquoted_plain_append {s raw bytes : Bytes} (hs : ∀ b ∈ s, isPlain b)
    (h : Unquoted raw bytes) : Unquoted (s ++ raw) (s ++ bytes) := by
  induction s with
  | nil => exact h
  | cons b s ih =>
    obtain ⟨hb, hs⟩ := List.forall_mem_cons.mp hs
    simp only [isPlain, Bool.and_eq_true, decide_eq_true_eq, bne_iff_ne] at hb
    exact .plain hb.1.1 hb.1.2 hb.2 (ih hs)

/-- A character that is neither a control nor an escape nor a quotation mark stands for itself. -/
theorem isPlain_of_mem_encodeChar {c : Char} (hquote : c ≠ '"') (hback : c ≠ '\\')
    (hcontrol : 0x20 ≤ c.toNat) {b : UInt8} (h : b ∈ String.utf8EncodeChar c) : isPlain b := by
  have hplain (hlow : 0x20 ≤ b.toNat) (hq : b ≠ Ascii.quote) (hs : b ≠ Ascii.backslash) :
      isPlain b := by
    simp only [isPlain, Bool.and_eq_true, decide_eq_true_eq, bne_iff_ne, UInt8.le_iff_toNat_le]
    exact ⟨⟨hlow, hq⟩, hs⟩
  by_cases hb : b.toNat < 0x80
  · have hvalue := Utf8.toNat_of_mem_encodeChar h hb
    refine hplain (hvalue ▸ hcontrol) ?_ ?_
    · rintro rfl
      exact hquote (Char.toNat_inj.mp hvalue)
    · rintro rfl
      exact hback (Char.toNat_inj.mp hvalue)
  · refine hplain (by omega) ?_ ?_
    · rintro rfl
      exact hb (by decide)
    · rintro rfl
      exact hb (by decide)

/-- The escape of a control character that has no letter. -/
theorem hexCode?_control {n : Nat} (h : n < 0x20) :
    ∃ a b, String.utf8EncodeChar (hexDigit (n / 16)) = [a] ∧
      String.utf8EncodeChar (hexDigit (n % 16)) = [b] ∧ hexCode? 0x30 0x30 a b = some n := by
  have hall : ∀ n < 0x20, ∃ a ∈ String.utf8EncodeChar (hexDigit (n / 16)),
      ∃ b ∈ String.utf8EncodeChar (hexDigit (n % 16)),
        String.utf8EncodeChar (hexDigit (n / 16)) = [a] ∧
        String.utf8EncodeChar (hexDigit (n % 16)) = [b] ∧ hexCode? 0x30 0x30 a b = some n := by
    decide +kernel
  obtain ⟨a, -, b, -, hab⟩ := hall n h
  exact ⟨a, b, hab⟩

theorem unquoted_escapeChar (c : Char) {raw bytes : Bytes} (h : Unquoted raw bytes) :
    Unquoted ((escapeChar c).flatMap String.utf8EncodeChar ++ raw)
      (String.utf8EncodeChar c ++ bytes) := by
  unfold escapeChar
  split
  · next hc => subst hc; exact .escape (by decide) h
  next hquote =>
  split
  · next hc => subst hc; exact .escape (by decide) h
  next hback =>
  split
  · next hc => subst hc; exact .escape (by decide) h
  split
  · next hc => subst hc; exact .escape (by decide) h
  split
  · next hc => subst hc; exact .escape (by decide) h
  split
  · next hc =>
    obtain rfl : c = '\x08' := Char.toNat_inj.mp hc
    exact .escape (by decide) h
  split
  · next hc =>
    obtain rfl : c = '\x0c' := Char.toNat_inj.mp hc
    exact .escape (by decide) h
  split
  · next hc =>
    obtain ⟨a, b, ha, hb, hcode⟩ := hexCode?_control hc
    have hnamed := Unquoted.unicode hcode (by simp [Quotation.isLeading]; omega)
      (by simp [Quotation.isTrailing]; omega) h
    have hfront : ['\\', 'u', '0', '0'].flatMap String.utf8EncodeChar =
        [Ascii.backslash, 0x75, 0x30, 0x30] := by decide
    have hbytes : (['\\', 'u', '0', '0'] ++
        [hexDigit (c.toNat / 16), hexDigit (c.toNat % 16)]).flatMap String.utf8EncodeChar =
        [Ascii.backslash, 0x75, 0x30, 0x30] ++ [a, b] := by
      rw [List.flatMap_append, hfront]
      simp [ha, hb]
    rw [Char.ofNat_toNat] at hnamed
    exact hbytes ▸ hnamed
  · next hcontrol =>
    rw [List.flatMap_singleton]
    exact unquoted_plain_append
      (fun b hb => isPlain_of_mem_encodeChar hquote hback (Nat.le_of_not_lt hcontrol) hb) h

/-- What is printed between the quotation marks. -/
def escaped (s : String) : Bytes := (s.toList.flatMap escapeChar).flatMap String.utf8EncodeChar

theorem unquoted_escaped (chars : List Char) :
    Unquoted ((chars.flatMap escapeChar).flatMap String.utf8EncodeChar)
      (chars.flatMap String.utf8EncodeChar) := by
  induction chars with
  | nil => exact .nil
  | cons c chars ih =>
    rw [List.flatMap_cons, List.flatMap_append, List.flatMap_cons]
    exact unquoted_escapeChar c ih

theorem denotes_escaped (s : String) : Denotes (escaped s) s :=
  ⟨Utf8.encode s, unquoted_escaped s.toList, Utf8.decode_encode s⟩

theorem encode_quoted (s : String) :
    (quoted s).flatMap String.utf8EncodeChar =
      Ascii.quote :: (escaped s ++ [Ascii.quote]) := by
  have hquote : String.utf8EncodeChar '"' = [Ascii.quote] := by decide
  simp [quoted, escaped, hquote]

theorem spells_quoted (s : String) :
    Spells (.string (escaped s)) ((quoted s).flatMap String.utf8EncodeChar) := by
  rw [encode_quoted]
  exact .string (denotes_escaped s).quoted

/-! ## Lists of strings -/

theorem compactItems_string (xs : List String) :
    compactItems (xs.map Value.string) = xs.map quoted := by
  induction xs with
  | nil => rfl
  | cons s xs ih => simp only [List.map_cons, compactItems, compact, ih]

theorem spellsItems_quoted (xs : List String) :
    SpellsItems (xs.map fun s => .string (escaped s))
      ((separated [','] (xs.map quoted)).flatMap String.utf8EncodeChar) := by
  induction xs with
  | nil => exact .none blank_nil
  | cons s xs ih =>
    have hs := (spells_quoted s).bare
    cases xs with
    | nil => exact .last hs
    | cons t xs =>
      have hcomma : [','].flatMap String.utf8EncodeChar = [Ascii.comma] := by decide
      simp only [List.map_cons] at ih ⊢
      rw [separated, List.flatMap_append, List.flatMap_append, hcomma, List.append_assoc]
      · exact .more hs ih
      · simp

/-- A text of the grammar for a list of strings, from bracket to bracket. -/
def IsListText (text : String) (xs : List String) : Prop :=
  ∃ tree, Spells tree (Utf8.encode text) ∧ IsListOf IsText tree xs

theorem isListText_text (xs : List String) :
    IsListText (Value.array (xs.map .string)).text xs := by
  refine ⟨.list (xs.map fun s => .string (escaped s)), ?_, _, rfl, ?_⟩
  · have hopen : String.utf8EncodeChar '[' = [Ascii.openSquare] := by decide
    have hclose : [']'].flatMap String.utf8EncodeChar = [Ascii.closeSquare] := by decide
    rw [Utf8.encode, Value.text, String.toList_ofList, compact, compactItems_string,
      List.cons_append, List.flatMap_cons, List.flatMap_append, hopen, hclose]
    exact .list (spellsItems_quoted xs)
  · rw [List.forall₂_map_left_iff, List.forall₂_same]
    exact fun s _ => ⟨_, rfl, denotes_escaped s⟩

/-- The first and the last character of such a text are its brackets. -/
theorem IsListText.exists_toList {text : String} {xs : List String} (h : IsListText text xs) :
    (∃ rest, text.toList = '[' :: rest) ∧ ∃ front, text.toList = front ++ [']'] := by
  obtain ⟨tree, hspells, trees, rfl, -⟩ := h
  generalize hbytes : Utf8.encode text = bytes at hspells
  cases hspells with
  | @list _ inner _ =>
    have hlast : Utf8.encode text = (Ascii.openSquare :: inner) ++ [Ascii.closeSquare] := hbytes
    exact ⟨Utf8.toList_of_encode_cons hbytes (by decide),
      Utf8.toList_of_encode_concat hlast (by decide)⟩

/-! ## Reading -/

/-- A string is read as a value that holds it. -/
theorem value_reads_text (depth : Nat) :
    Reads (value depth) fun tree v => ∃ s, IsText tree s ∧ v = .string s := by
  rintro _ _ s rest ⟨text, ⟨raw, rfl, hraw⟩, rfl⟩ h -
  obtain ⟨_, ht, hs⟩ := h.skipBlank_eq
  cases ht
  rw [List.cons_append, List.append_assoc] at hs
  unfold value
  split
  · next hnil => rw [hs] at hnil; cases hnil
  next heq =>
  obtain ⟨rfl, rfl⟩ := List.cons.inj (hs.symm.trans heq)
  rw [if_neg (by decide), if_neg (by decide), scalar, if_pos rfl]
  exact ((quotation_append hraw rest).map (fun _ => rfl) fun _ => rfl).map (fun _ => rfl)
    fun _ => rfl

/-- A list is read as a value that holds its items, one bracket deeper than they are. -/
theorem value_reads_list {depth : Nat} {means : Tree → Value → Prop}
    (hread : Reads (value depth) means) :
    Reads (value (depth + 1)) fun tree v =>
      ∃ items, IsListOf means tree items ∧ v = .array items := by
  rintro _ _ s rest ⟨items, ⟨trees, rfl, hall⟩, rfl⟩ h -
  obtain ⟨_, ht, hs⟩ := h.skipBlank_eq
  cases ht with
  | list hi =>
    rw [List.cons_append, List.append_assoc] at hs
    unfold value
    split
    · next hnil => rw [hs] at hnil; cases hnil
    next heq =>
    obtain ⟨rfl, rfl⟩ := List.cons.inj (hs.symm.trans heq)
    rw [if_pos rfl]
    exact (list_reads hread hall ⟨_, hi, rfl⟩).map (fun _ => rfl) fun _ => rfl

/-- A list of strings is read as one. -/
theorem IsListText.read {text : String} {xs : List String} (h : IsListText text xs) :
    Value.read text = .ok (.array (xs.map .string)) := by
  obtain ⟨tree, hspells, trees, rfl, hall⟩ := h
  refine readAll_of_means (value_reads_list (value_reads_text 126)) hspells.bare
    ⟨xs.map .string, ⟨trees, rfl, ?_⟩, rfl⟩
  rw [List.forall₂_map_right_iff]
  exact hall.imp fun tree s hs => ⟨s, hs, rfl⟩

end TypedCollections.Json
