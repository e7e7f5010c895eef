import TypedCollections.Json.Scan

/-!
The grammar of JSON texts, over bytes. A tree keeps what a text says: strings and numbers in their
own spelling, items and members in their order. White space between the tokens is left out of it.
The bytes of a string need not be UTF-8, and nothing bounds the nesting.
-/
namespace TypedCollections.Json

/-- What holds of all bytes of a list is decided along the list. An instance that goes through all
the bytes there are would come first where one is known. -/
instance (priority := high) decidableForallMem {α : Type} {p : α → Prop} [DecidablePred p]
    (l : List α) : Decidable (∀ a ∈ l, p a) := List.decidableBAll p l

/-- The syntax tree of a JSON text. Keys and strings hold the bytes between the quotation marks. -/
inductive Tree where
  | word (letters : Bytes)
  | number (digits : Bytes)
  | string (raw : Bytes)
  | list (items : List Tree)
  | object (members : List (Bytes × Tree))

def Blank (s : Bytes) : Prop := ∀ b ∈ s, isSeparator b

def IsHexDigit (b : UInt8) : Prop := (Ascii.hexValue? b).isSome

/-- What may stand between quotation marks: no control character, and no bare quotation mark. -/
inductive Quoted : Bytes → Prop
  | nil : Quoted []
  | plain {b s} : 0x20 ≤ b → b ≠ Ascii.quote → b ≠ Ascii.backslash → Quoted s → Quoted (b :: s)
  | escape {c s} : c ∈ [Ascii.quote, Ascii.backslash, Ascii.slash, 0x62, 0x66, 0x6e, 0x72, 0x74] →
      Quoted s → Quoted (Ascii.backslash :: c :: s)
  | unicode {a b c d s} : IsHexDigit a → IsHexDigit b → IsHexDigit c → IsHexDigit d →
      Quoted s → Quoted (Ascii.backslash :: 0x75 :: a :: b :: c :: d :: s)

def IsDigits (s : Bytes) : Prop := s ≠ [] ∧ ∀ b ∈ s, Ascii.isDigit b

/-- A zero at the front stands alone. -/
def IsWhole (s : Bytes) : Prop := IsDigits s ∧ (s.head? = some Ascii.zero → s = [Ascii.zero])

def IsFraction (s : Bytes) : Prop := s = [] ∨ ∃ ds, IsDigits ds ∧ s = Ascii.point :: ds

def IsExponent (s : Bytes) : Prop :=
  s = [] ∨ ∃ mark sign ds, (mark = 0x65 ∨ mark = 0x45) ∧
    sign ∈ [[], [Ascii.plus], [Ascii.minus]] ∧ IsDigits ds ∧ s = mark :: (sign ++ ds)

def IsNumber (s : Bytes) : Prop :=
  ∃ sign whole fraction exponent, sign ∈ [[], [Ascii.minus]] ∧ IsWhole whole ∧
    IsFraction fraction ∧ IsExponent exponent ∧ s = sign ++ (whole ++ (fraction ++ exponent))

mutual

/-- A value, from its first byte to its last. -/
inductive Spells : Tree → Bytes → Prop
  | word {s} : s ∈ [trueWord, falseWord, nullWord] → Spells (.word s) s
  | number {s} : IsNumber s → Spells (.number s) s
  | string {s} : Quoted s → Spells (.string s) (Ascii.quote :: (s ++ [Ascii.quote]))
  | list {items s} : SpellsItems items s →
      Spells (.list items) (Ascii.openSquare :: (s ++ [Ascii.closeSquare]))
  | object {members s} : SpellsMembers members s →
      Spells (.object members) (Ascii.openCurly :: (s ++ [Ascii.closeCurly]))

/-- A value with the white space around it. -/
inductive SpellsPadded : Tree → Bytes → Prop
  | mk {tree before s after} : Blank before → Spells tree s → Blank after →
      SpellsPadded tree (before ++ (s ++ after))

/-- What stands between the brackets of a list. -/
inductive SpellsItems : List Tree → Bytes → Prop
  | none {s} : Blank s → SpellsItems [] s
  | last {tree s} : SpellsPadded tree s → SpellsItems [tree] s
  | more {tree next items s r} : SpellsPadded tree s → SpellsItems (next :: items) r →
      SpellsItems (tree :: next :: items) (s ++ Ascii.comma :: r)

/-- A key, a colon and a value. -/
inductive SpellsMember : Bytes × Tree → Bytes → Prop
  | mk {key tree before after s} : Blank before → Quoted key → Blank after → SpellsPadded tree s →
      SpellsMember (key, tree)
        (before ++ Ascii.quote :: (key ++ Ascii.quote :: (after ++ Ascii.colon :: s)))

/-- What stands between the brackets of an object. -/
inductive SpellsMembers : List (Bytes × Tree) → Bytes → Prop
  | none {s} : Blank s → SpellsMembers [] s
  | last {member s} : SpellsMember member s → SpellsMembers [member] s
  | more {member next members s r} : SpellsMember member s → SpellsMembers (next :: members) r →
      SpellsMembers (member :: next :: members) (s ++ Ascii.comma :: r)

end

/-- What holds of digits and of the marks of a number holds of all its bytes. -/
theorem IsNumber.forall_mem {p : UInt8 → Prop} {s : Bytes} (h : IsNumber s)
    (hdigit : ∀ b, Ascii.isDigit b → p b)
    (hmark : ∀ b ∈ [Ascii.minus, Ascii.plus, Ascii.point, 0x65, 0x45], p b) : ∀ b ∈ s, p b := by
  obtain ⟨sign, whole, fraction, exponent, hsign, hwhole, hfraction, hexponent, rfl⟩ := h
  have hdigits : ∀ ds, IsDigits ds → ∀ b ∈ ds, p b := fun ds hds b hb => hdigit b (hds.2 b hb)
  have hsigns : ∀ signs ∈ [[], [Ascii.plus], [Ascii.minus]], ∀ b ∈ signs,
      b ∈ [Ascii.minus, Ascii.plus, Ascii.point, 0x65, 0x45] := by decide
  simp only [List.forall_mem_append]
  refine ⟨?_, hdigits whole hwhole.1, ?_, ?_⟩
  · have hsign : sign ∈ [[], [Ascii.plus], [Ascii.minus]] := by
      simp only [List.mem_cons, List.not_mem_nil, or_false] at hsign ⊢
      exact hsign.imp_right .inr
    exact fun b hb => hmark b (hsigns sign hsign b hb)
  · rcases hfraction with rfl | ⟨ds, hds, rfl⟩
    · simp
    · exact List.forall_mem_cons.mpr ⟨hmark _ (by decide), hdigits ds hds⟩
  · rcases hexponent with rfl | ⟨mark, sign, ds, hm, hs, hds, rfl⟩
    · simp
    · refine List.forall_mem_cons.mpr ⟨?_, List.forall_mem_append.mpr
        ⟨fun b hb => hmark b (hsigns sign hs b hb), hdigits ds hds⟩⟩
      rcases hm with rfl | rfl <;> exact hmark _ (by decide)

/-! ## Texts without white space -/

theorem blank_nil : Blank [] := by simp [Blank]

theorem Spells.bare {tree : Tree} {s : Bytes} (h : Spells tree s) : SpellsPadded tree s := by
  simpa using SpellsPadded.mk blank_nil h blank_nil

theorem SpellsPadded.keyed {key : Bytes} {tree : Tree} {s : Bytes} (h : SpellsPadded tree s)
    (hk : Quoted key) :
    SpellsMember (key, tree) (Ascii.quote :: (key ++ Ascii.quote :: Ascii.colon :: s)) := by
  simpa using SpellsMember.mk blank_nil hk blank_nil h

/-- A byte that stands for itself between quotation marks. -/
def isPlain (b : UInt8) : Bool := 0x20 ≤ b && b != Ascii.quote && b != Ascii.backslash

theorem quoted_of_plain {s : Bytes} (h : s.all isPlain) : Quoted s := by
  induction s with
  | nil => exact .nil
  | cons b s ih =>
    rw [List.all_cons, Bool.and_eq_true] at h
    obtain ⟨hb, hrest⟩ := h
    simp only [isPlain, Bool.and_eq_true, decide_eq_true_eq, bne_iff_ne] at hb
    exact .plain hb.1.1 hb.1.2 hb.2 (ih hrest)

end TypedCollections.Json
