import TypedCollections.Proofs.Json.Grammar

/-!
A text has one tree. The first byte of a value tells its kind, and each kind shows where it ends:
strings and what stands between brackets at their closing mark, words and numbers at the first byte
that is no part of one. So two readings of one text agree piece by piece, whatever follows it.
-/
namespace TypedCollections.Json

/-- The bytes that are tokens by themselves or begin a string. -/
def marks : Bytes :=
  [Ascii.quote, Ascii.openSquare, Ascii.closeSquare, Ascii.openCurly, Ascii.closeCurly,
    Ascii.comma, Ascii.colon]

/-- A byte of a word or a number. -/
def IsAtom (b : UInt8) : Prop := isSeparator b = false ∧ b ∉ marks

instance (b : UInt8) : Decidable (IsAtom b) := inferInstanceAs (Decidable (_ ∧ _))

theorem isAtom_of_digit {b : UInt8} (h : Ascii.isDigit b) : IsAtom b := by
  refine ⟨?_, ?_⟩
  · cases hb : isSeparator b with
    | false => rfl
    | true =>
      simp only [isSeparator, Bool.or_eq_true, beq_iff_eq] at hb
      rcases hb with ((rfl | rfl) | rfl) | rfl <;> exact absurd h (by decide)
  · intro hm
    simp only [marks, List.mem_cons, List.not_mem_nil, or_false] at hm
    rcases hm with rfl | rfl | rfl | rfl | rfl | rfl | rfl <;> exact absurd h (by decide)

/-- A word or a number has no other bytes, and at least one. -/
inductive IsAtomic (s : Bytes) : Prop
  | mk (nonempty : s ≠ []) (atoms : ∀ b ∈ s, IsAtom b)

theorem isAtomic_of_word {s : Bytes} (h : s ∈ [trueWord, falseWord, nullWord]) : IsAtomic s := by
  have hall : ∀ w ∈ [trueWord, falseWord, nullWord], w ≠ [] ∧ ∀ b ∈ w, IsAtom b := by decide
  exact ⟨(hall s h).1, (hall s h).2⟩

theorem isAtomic_of_number {s : Bytes} (h : IsNumber s) : IsAtomic s := by
  refine ⟨?_, h.forall_mem (fun b => isAtom_of_digit) (by decide)⟩
  obtain ⟨sign, whole, fraction, exponent, -, hwhole, -, -, rfl⟩ := h
  simp [hwhole.1.1]

theorem IsAtomic.exists_cons {s : Bytes} (h : IsAtomic s) : ∃ b rest, s = b :: rest ∧ IsAtom b := by
  obtain ⟨hne, hatoms⟩ := h
  obtain ⟨b, rest, rfl⟩ := List.exists_cons_of_ne_nil hne
  exact ⟨b, rest, rfl, hatoms b List.mem_cons_self⟩

theorem not_isNumber_word {s : Bytes} (h : s ∈ [trueWord, falseWord, nullWord]) : ¬IsNumber s := by
  intro hn
  have hdigits := hn.forall_mem (p := fun b => Ascii.isDigit b ∨
    b ∈ [Ascii.minus, Ascii.plus, Ascii.point, 0x65, 0x45]) (fun b => .inl) (fun b => .inr)
  have hword : ∀ w ∈ [trueWord, falseWord, nullWord],
      ∃ b ∈ w, ¬(Ascii.isDigit b ∨ b ∈ [Ascii.minus, Ascii.plus, Ascii.point, 0x65, 0x45]) := by
    decide
  obtain ⟨b, hb, hnot⟩ := hword s h
  exact hnot (hdigits b hb)

/-! ## Where pieces end -/

/-- Of two texts that go on equally, the longest fronts of one kind of byte are the same. -/
theorem span_unique {p : UInt8 → Prop} {a a' r r' : Bytes} (ha : ∀ b ∈ a, p b)
    (ha' : ∀ b ∈ a', p b) (hr : ∀ b ∈ r.head?, ¬p b) (hr' : ∀ b ∈ r'.head?, ¬p b)
    (h : a ++ r = a' ++ r') : a = a' ∧ r = r' := by
  induction a generalizing a' with
  | nil =>
    cases a' with
    | nil => exact ⟨rfl, h⟩
    | cons b a' =>
      have hb : b ∈ r.head? := by rw [show r = b :: (a' ++ r') from h]; rfl
      exact absurd (ha' b List.mem_cons_self) (hr b hb)
  | cons b a ih =>
    cases a' with
    | nil =>
      have hb : b ∈ r'.head? := by rw [show r' = b :: (a ++ r) from h.symm]; rfl
      exact absurd (ha b List.mem_cons_self) (hr' b hb)
    | cons c a' =>
      obtain ⟨rfl, hrest⟩ := List.cons.inj h
      obtain ⟨rfl, hrs⟩ := ih (fun d hd => ha d (List.mem_cons_of_mem _ hd))
        (fun d hd => ha' d (List.mem_cons_of_mem _ hd)) hrest
      exact ⟨rfl, hrs⟩

/-- No word and no number goes on here. -/
def Ended (r : Bytes) : Prop := ∀ b ∈ r.head?, ¬IsAtom b

/-- The next token closes a bracket or separates entries. -/
def Delimited (r : Bytes) : Prop :=
  ∀ b ∈ r.head?, b = Ascii.comma ∨ b = Ascii.closeSquare ∨ b = Ascii.closeCurly

theorem Delimited.not_separator {r : Bytes} (h : Delimited r) : ∀ b ∈ r.head?, ¬isSeparator b := by
  intro b hb
  rcases h b hb with rfl | rfl | rfl <;> decide

theorem Delimited.ended {r : Bytes} (h : Delimited r) : Ended r := by
  intro b hb
  rcases h b hb with rfl | rfl | rfl <;> decide

theorem Ended.append_blank {s r : Bytes} (hs : Blank s) (hr : Ended r) : Ended (s ++ r) := by
  cases s with
  | nil => exact hr
  | cons b s =>
    rintro c ⟨⟩ hatom
    simp [hs b List.mem_cons_self, IsAtom] at hatom

theorem delimited_nil : Delimited [] := by simp [Delimited]

theorem delimited_comma (r : Bytes) : Delimited (Ascii.comma :: r) := by simp [Delimited]

theorem delimited_closeSquare (r : Bytes) : Delimited (Ascii.closeSquare :: r) := by
  simp [Delimited]

theorem delimited_closeCurly (r : Bytes) : Delimited (Ascii.closeCurly :: r) := by simp [Delimited]

/-- White space ends where the same token begins. -/
theorem blank_unique {s s' r r' : Bytes} (hs : Blank s) (hs' : Blank s')
    (hr : ∀ b ∈ r.head?, ¬isSeparator b) (hr' : ∀ b ∈ r'.head?, ¬isSeparator b)
    (h : s ++ r = s' ++ r') : s = s' ∧ r = r' := span_unique hs hs' hr hr' h

/-- A string ends at its first quotation mark that is not escaped. -/
theorem Quoted.unique {s s' r r' : Bytes} (hs : Quoted s) (hs' : Quoted s')
    (h : s ++ Ascii.quote :: r = s' ++ Ascii.quote :: r') : s = s' ∧ r = r' := by
  induction hs generalizing s' with
  | nil =>
    cases hs' with
    | nil => exact ⟨rfl, (List.cons.inj h).2⟩
    | plain _ hq => exact absurd (List.cons.inj h).1.symm hq
    | escape | unicode => exact absurd (List.cons.inj h).1 (by decide)
  | @plain b s hb hq hback _ ih =>
    cases hs' with
    | nil => exact absurd (List.cons.inj h).1 hq
    | plain _ _ _ hs' =>
      obtain ⟨rfl, hrest⟩ := List.cons.inj h
      obtain ⟨rfl, hr⟩ := ih hs' hrest
      exact ⟨rfl, hr⟩
    | escape | unicode => exact absurd (List.cons.inj h).1 hback
  | escape hc _ ih =>
    cases hs' with
    | nil => exact absurd (List.cons.inj h).1 (by decide)
    | plain _ _ hback => exact absurd (List.cons.inj h).1.symm hback
    | escape _ hs' =>
      obtain ⟨rfl, hrest⟩ := List.cons.inj (List.cons.inj h).2
      obtain ⟨rfl, hr⟩ := ih hs' hrest
      exact ⟨rfl, hr⟩
    | unicode =>
      obtain ⟨rfl, -⟩ := List.cons.inj (List.cons.inj h).2
      exact absurd hc (by decide)
  | unicode _ _ _ _ _ ih =>
    cases hs' with
    | nil => exact absurd (List.cons.inj h).1 (by decide)
    | plain _ _ hback => exact absurd (List.cons.inj h).1.symm hback
    | escape hc =>
      obtain ⟨rfl, -⟩ := List.cons.inj (List.cons.inj h).2
      exact absurd hc (by decide)
    | unicode _ _ _ _ hs' =>
      simp only [List.cons_append, List.cons.injEq, true_and] at h
      obtain ⟨rfl, rfl, rfl, rfl, hrest⟩ := h
      obtain ⟨rfl, hr⟩ := ih hs' hrest
      exact ⟨rfl, hr⟩

/-- A value begins with an atom or with one of three marks. -/
theorem Spells.exists_cons {tree : Tree} {s : Bytes} (h : Spells tree s) :
    ∃ b rest, s = b :: rest ∧
      (IsAtom b ∨ b ∈ [Ascii.quote, Ascii.openSquare, Ascii.openCurly]) := by
  cases h with
  | word hw =>
    obtain ⟨b, rest, rfl, hb⟩ := (isAtomic_of_word hw).exists_cons
    exact ⟨b, rest, rfl, .inl hb⟩
  | number hn =>
    obtain ⟨b, rest, rfl, hb⟩ := (isAtomic_of_number hn).exists_cons
    exact ⟨b, rest, rfl, .inl hb⟩
  | string | list | object => exact ⟨_, _, rfl, .inr (by decide)⟩

theorem Spells.head_not_separator {tree : Tree} {s : Bytes} (h : Spells tree s) (r : Bytes) :
    ∀ b ∈ (s ++ r).head?, ¬isSeparator b := by
  obtain ⟨b, rest, rfl, hb⟩ := h.exists_cons
  rintro c ⟨⟩
  rcases hb with hb | hb
  · simp [hb.1]
  · simp only [List.mem_cons, List.not_mem_nil, or_false] at hb
    rcases hb with rfl | rfl | rfl <;> decide

/-- A value does not begin with a byte that ends one. -/
theorem Spells.ne_cons_append {tree : Tree} {s r r' before : Bytes} (h : Spells tree s)
    (hb : Blank before) {b : UInt8}
    (hmark : b ∈ [Ascii.comma, Ascii.closeSquare, Ascii.closeCurly]) {blank : Bytes}
    (hblank : Blank blank) : blank ++ b :: r ≠ before ++ (s ++ r') := by
  intro heq
  have hsep : ∀ c ∈ (b :: r).head?, ¬isSeparator c := by
    rintro c ⟨⟩
    simp only [List.mem_cons, List.not_mem_nil, or_false] at hmark
    rcases hmark with rfl | rfl | rfl <;> decide
  obtain ⟨-, hrest⟩ := blank_unique hblank hb hsep (h.head_not_separator r') heq
  obtain ⟨c, rest, rfl, hc⟩ := h.exists_cons
  obtain ⟨rfl, -⟩ := List.cons.inj hrest
  simp only [List.mem_cons, List.not_mem_nil, or_false] at hmark
  rcases hmark with rfl | rfl | rfl <;> exact absurd hc (by decide)

/-- A member begins with a quotation mark, so not with the bracket that closes its object. -/
theorem SpellsMember.ne_cons_append {member : Bytes × Tree} {s r r' blank : Bytes}
    (h : SpellsMember member s) (hblank : Blank blank) :
    blank ++ Ascii.closeCurly :: r ≠ s ++ r' := by
  intro heq
  cases h with
  | mk hb hk ha hp =>
    simp only [List.append_assoc, List.cons_append] at heq
    have hquote (t : Bytes) : ∀ b ∈ (Ascii.quote :: t).head?, ¬isSeparator b := by
      rintro b ⟨⟩
      decide
    obtain ⟨-, hrest⟩ :=
      blank_unique hblank hb (delimited_closeCurly r).not_separator (hquote _) heq
    exact absurd (List.cons.inj hrest).1 (by decide)

theorem IsAtomic.append_ne {s : Bytes} (hs : IsAtomic s) {b : UInt8} (hb : ¬IsAtom b)
    (r rest : Bytes) : s ++ r ≠ b :: rest := by
  obtain ⟨c, t, rfl, hc⟩ := hs.exists_cons
  rintro ⟨⟩
  exact hb hc

/-- What begins like a word or a number is that word or number. -/
theorem IsAtomic.unique {s s' r r' : Bytes} {tree : Tree} (hs : IsAtomic s) (h' : Spells tree s')
    (hr : Ended r) (hr' : Ended r') (h : s ++ r = s' ++ r') :
    s = s' ∧ r = r' ∧ ((tree = .word s ∧ s ∈ [trueWord, falseWord, nullWord]) ∨
      (tree = .number s ∧ IsNumber s)) := by
  have hspan (hs' : IsAtomic s') : s = s' ∧ r = r' := by
    obtain ⟨-, hatoms⟩ := hs
    obtain ⟨-, hatoms'⟩ := hs'
    exact span_unique hatoms hatoms' hr hr' h
  cases h' with
  | word hw =>
    obtain ⟨rfl, rfl⟩ := hspan (isAtomic_of_word hw)
    exact ⟨rfl, rfl, .inl ⟨rfl, hw⟩⟩
  | number hn =>
    obtain ⟨rfl, rfl⟩ := hspan (isAtomic_of_number hn)
    exact ⟨rfl, rfl, .inr ⟨rfl, hn⟩⟩
  | string | list | object => exact absurd h (hs.append_ne (by decide) r _)

/-! ## Whole texts

Each piece of a text is shorter than the text, or is the whole of it; then it is of a simpler kind.
-/

mutual

theorem Spells.unique {tree tree' : Tree} {s s' r r' : Bytes} (ht : Spells tree s)
    (ht' : Spells tree' s') (hr : Ended r) (hr' : Ended r') (h : s ++ r = s' ++ r') :
    tree = tree' ∧ s = s' ∧ r = r' := by
  cases ht with
  | word hw =>
    obtain ⟨rfl, rfl, ⟨rfl, -⟩ | ⟨-, hn⟩⟩ := (isAtomic_of_word hw).unique ht' hr hr' h
    · exact ⟨rfl, rfl, rfl⟩
    · exact absurd hn (not_isNumber_word hw)
  | number hn =>
    obtain ⟨rfl, rfl, ⟨-, hw⟩ | ⟨rfl, -⟩⟩ := (isAtomic_of_number hn).unique ht' hr hr' h
    · exact absurd hn (not_isNumber_word hw)
    · exact ⟨rfl, rfl, rfl⟩
  | string hq =>
    cases ht' with
    | word hw => exact absurd h.symm ((isAtomic_of_word hw).append_ne (by decide) r' _)
    | number hn => exact absurd h.symm ((isAtomic_of_number hn).append_ne (by decide) r' _)
    | string hq' =>
      simp only [List.cons_append, List.append_assoc, List.nil_append, List.cons.injEq,
        true_and] at h
      obtain ⟨rfl, rfl⟩ := hq.unique hq' h
      exact ⟨rfl, rfl, rfl⟩
    | list | object => exact absurd (List.cons.inj h).1 (by decide)
  | list hi =>
    cases ht' with
    | word hw => exact absurd h.symm ((isAtomic_of_word hw).append_ne (by decide) r' _)
    | number hn => exact absurd h.symm ((isAtomic_of_number hn).append_ne (by decide) r' _)
    | list hi' =>
      simp only [List.cons_append, List.append_assoc, List.nil_append, List.cons.injEq,
        true_and] at h
      obtain ⟨rfl, rfl, rfl⟩ := hi.unique hi' h
      exact ⟨rfl, rfl, rfl⟩
    | string | object => exact absurd (List.cons.inj h).1 (by decide)
  | object hm =>
    cases ht' with
    | word hw => exact absurd h.symm ((isAtomic_of_word hw).append_ne (by decide) r' _)
    | number hn => exact absurd h.symm ((isAtomic_of_number hn).append_ne (by decide) r' _)
    | object hm' =>
      simp only [List.cons_append, List.append_assoc, List.nil_append, List.cons.injEq,
        true_and] at h
      obtain ⟨rfl, rfl, rfl⟩ := hm.unique hm' h
      exact ⟨rfl, rfl, rfl⟩
    | string | list => exact absurd (List.cons.inj h).1 (by decide)
termination_by 2 * s.length
decreasing_by
  all_goals subst_vars
  all_goals simp only [List.length_append, List.length_cons]
  all_goals omega

theorem SpellsPadded.unique {tree tree' : Tree} {s s' r r' : Bytes} (ht : SpellsPadded tree s)
    (ht' : SpellsPadded tree' s') (hr : Delimited r) (hr' : Delimited r')
    (h : s ++ r = s' ++ r') : tree = tree' ∧ s = s' ∧ r = r' := by
  cases ht with
  | mk hb hv ha =>
    cases ht' with
    | mk hb' hv' ha' =>
      simp only [List.append_assoc] at h
      obtain ⟨rfl, hvalue⟩ :=
        blank_unique hb hb' (hv.head_not_separator _) (hv'.head_not_separator _) h
      obtain ⟨rfl, rfl, hrest⟩ :=
        hv.unique hv' (hr.ended.append_blank ha) (hr'.ended.append_blank ha') hvalue
      obtain ⟨rfl, rfl⟩ := blank_unique ha ha' hr.not_separator hr'.not_separator hrest
      exact ⟨rfl, rfl, rfl⟩
termination_by 2 * s.length + 1
decreasing_by
  subst_vars
  simp only [List.length_append]
  omega

theorem SpellsItems.unique {items items' : List Tree} {s s' r r' : Bytes}
    (hi : SpellsItems items s) (hi' : SpellsItems items' s')
    (h : s ++ Ascii.closeSquare :: r = s' ++ Ascii.closeSquare :: r') :
    items = items' ∧ s = s' ∧ r = r' := by
  cases hi with
  | none hb =>
    cases hi' with
    | none hb' =>
      obtain ⟨rfl, hrest⟩ := blank_unique hb hb' (delimited_closeSquare r).not_separator
        (delimited_closeSquare r').not_separator h
      exact ⟨rfl, rfl, (List.cons.inj hrest).2⟩
    | last hp =>
      obtain ⟨hbefore, hv, -⟩ := hp
      simp only [List.append_assoc] at h
      exact absurd h (hv.ne_cons_append hbefore (by decide) hb)
    | more hp =>
      obtain ⟨hbefore, hv, -⟩ := hp
      simp only [List.append_assoc] at h
      exact absurd h (hv.ne_cons_append hbefore (by decide) hb)
  | last hp =>
    cases hi' with
    | none hb =>
      obtain ⟨hbefore, hv, -⟩ := hp
      simp only [List.append_assoc] at h
      exact absurd h.symm (hv.ne_cons_append hbefore (by decide) hb)
    | last hp' =>
      obtain ⟨rfl, rfl, hrest⟩ :=
        hp.unique hp' (delimited_closeSquare r) (delimited_closeSquare r') h
      exact ⟨rfl, rfl, (List.cons.inj hrest).2⟩
    | more hp' =>
      rw [List.append_assoc] at h
      obtain ⟨-, -, hrest⟩ := hp.unique hp' (delimited_closeSquare r) (delimited_comma _) h
      exact absurd (List.cons.inj hrest).1 (by decide)
  | more hp hi =>
    cases hi' with
    | none hb =>
      obtain ⟨hbefore, hv, -⟩ := hp
      simp only [List.append_assoc] at h
      exact absurd h.symm (hv.ne_cons_append hbefore (by decide) hb)
    | last hp' =>
      rw [List.append_assoc] at h
      obtain ⟨-, -, hrest⟩ := hp.unique hp' (delimited_comma _) (delimited_closeSquare r') h
      exact absurd (List.cons.inj hrest).1 (by decide)
    | more hp' hi' =>
      simp only [List.append_assoc, List.cons_append] at h
      obtain ⟨rfl, rfl, hrest⟩ := hp.unique hp' (delimited_comma _) (delimited_comma _) h
      obtain ⟨hitems, rfl, rfl⟩ := hi.unique hi' (List.cons.inj hrest).2
      exact ⟨by rw [hitems], rfl, rfl⟩
termination_by 2 * s.length + 2
decreasing_by
  all_goals subst_vars
  all_goals try simp only [List.length_append, List.length_cons]
  all_goals omega

theorem SpellsMember.unique {member member' : Bytes × Tree} {s s' r r' : Bytes}
    (hm : SpellsMember member s) (hm' : SpellsMember member' s') (hr : Delimited r)
    (hr' : Delimited r') (h : s ++ r = s' ++ r') : member = member' ∧ s = s' ∧ r = r' := by
  have hquote (t : Bytes) : ∀ b ∈ (Ascii.quote :: t).head?, ¬isSeparator b := by
    rintro b ⟨⟩
    decide
  have hcolon (t : Bytes) : ∀ b ∈ (Ascii.colon :: t).head?, ¬isSeparator b := by
    rintro b ⟨⟩
    decide
  cases hm with
  | mk hb hk ha hp =>
    cases hm' with
    | mk hb' hk' ha' hp' =>
      simp only [List.append_assoc, List.cons_append] at h
      obtain ⟨rfl, hkey⟩ := blank_unique hb hb' (hquote _) (hquote _) h
      obtain ⟨rfl, hafter⟩ := hk.unique hk' (List.cons.inj hkey).2
      obtain ⟨rfl, hvalue⟩ := blank_unique ha ha' (hcolon _) (hcolon _) hafter
      obtain ⟨rfl, rfl, rfl⟩ := hp.unique hp' hr hr' (List.cons.inj hvalue).2
      exact ⟨rfl, rfl, rfl⟩
termination_by 2 * s.length + 1
decreasing_by
  subst_vars
  simp only [List.length_append, List.length_cons]
  omega

theorem SpellsMembers.unique {members members' : List (Bytes × Tree)} {s s' r r' : Bytes}
    (hm : SpellsMembers members s) (hm' : SpellsMembers members' s')
    (h : s ++ Ascii.closeCurly :: r = s' ++ Ascii.closeCurly :: r') :
    members = members' ∧ s = s' ∧ r = r' := by
  cases hm with
  | none hb =>
    cases hm' with
    | none hb' =>
      obtain ⟨rfl, hrest⟩ := blank_unique hb hb' (delimited_closeCurly r).not_separator
        (delimited_closeCurly r').not_separator h
      exact ⟨rfl, rfl, (List.cons.inj hrest).2⟩
    | last hm' => exact absurd h (hm'.ne_cons_append hb)
    | more hm' =>
      rw [List.append_assoc] at h
      exact absurd h (hm'.ne_cons_append hb)
  | last hm =>
    cases hm' with
    | none hb => exact absurd h.symm (hm.ne_cons_append hb)
    | last hm' =>
      obtain ⟨rfl, rfl, hrest⟩ := hm.unique hm' (delimited_closeCurly r) (delimited_closeCurly r') h
      exact ⟨rfl, rfl, (List.cons.inj hrest).2⟩
    | more hm' =>
      rw [List.append_assoc] at h
      obtain ⟨-, -, hrest⟩ := hm.unique hm' (delimited_closeCurly r) (delimited_comma _) h
      exact absurd (List.cons.inj hrest).1 (by decide)
  | more hm hms =>
    cases hm' with
    | none hb =>
      rw [List.append_assoc] at h
      exact absurd h.symm (hm.ne_cons_append hb)
    | last hm' =>
      rw [List.append_assoc] at h
      obtain ⟨-, -, hrest⟩ := hm.unique hm' (delimited_comma _) (delimited_closeCurly r') h
      exact absurd (List.cons.inj hrest).1 (by decide)
    | more hm' hms' =>
      simp only [List.append_assoc, List.cons_append] at h
      obtain ⟨rfl, rfl, hrest⟩ := hm.unique hm' (delimited_comma _) (delimited_comma _) h
      obtain ⟨hmembers, rfl, rfl⟩ := hms.unique hms' (List.cons.inj hrest).2
      exact ⟨by rw [hmembers], rfl, rfl⟩
termination_by 2 * s.length + 2
decreasing_by
  all_goals subst_vars
  all_goals try simp only [List.length_append, List.length_cons]
  all_goals omega

end

/-- A text is spelled by one tree. -/
theorem SpellsPadded.tree_unique {tree tree' : Tree} {s : Bytes} (h : SpellsPadded tree s)
    (h' : SpellsPadded tree' s) : tree = tree' :=
  (h.unique h' delimited_nil delimited_nil rfl).1

end TypedCollections.Json
