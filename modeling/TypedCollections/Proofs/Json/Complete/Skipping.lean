import TypedCollections.Proofs.Json.Complete.Tokens

/-!
Every value of the grammar is passed over, however deep it is nested. What follows a value must
close the brackets that are open, or go on inside them; this is what each step hands on to the next.
-/
namespace TypedCollections.Json

variable {s t r mid rest : Bytes}

theorem colon_append {after : Bytes} (ha : Blank after) (t : Bytes) :
    Leaves (colon (after ++ Ascii.colon :: t)) t := by
  have hs : skipBlank (after ++ Ascii.colon :: t) = Ascii.colon :: t :=
    skipBlank_append ha (by rintro b ⟨⟩; decide)
  unfold colon
  split
  · next hnil => rw [hs] at hnil; cases hnil
  · next heq =>
    obtain ⟨rfl, rfl⟩ := List.cons.inj (hs.symm.trans heq)
    rw [if_pos rfl]
    exact leaves_ok rfl

theorem skipBlank_spelled {tree : Tree} {before text : Bytes} (hb : Blank before)
    (h : Spells tree text) (r : Bytes) : skipBlank (before ++ (text ++ r)) = text ++ r :=
  skipBlank_append hb (h.head_not_separator r)

/-- The text of a member, with what follows it moved behind its value. -/
theorem append_member (before raw after padding text behind t : Bytes) :
    before ++ Ascii.quote :: (raw ++ Ascii.quote :: (after ++ Ascii.colon ::
      (padding ++ (text ++ behind)))) ++ t =
    before ++ Ascii.quote :: (raw ++ Ascii.quote :: (after ++ Ascii.colon ::
      (padding ++ (text ++ (behind ++ t))))) := by
  simp only [List.append_assoc, List.cons_append]

namespace Skip

variable {opened : List Bracket} {bracket : Bracket} {b : UInt8}

/-! ## Values that are no brackets -/

/-- The text starts with a value that is no list and no object, and the rest follows it. -/
def StartsScalar (s rest : Bytes) : Prop :=
  ∃ b t, s = b :: t ∧ Bracket.open? b = none ∧ Leaves (scalar b t) rest

theorem startsScalar_word {letters : Bytes} (h : letters ∈ [trueWord, falseWord, nullWord])
    (r : Bytes) : StartsScalar (letters ++ r) r := by
  have hword (b : UInt8) (letters : Bytes) :
      Leaves (word letters (letters ++ r) : Except Fault (Rest (b :: (letters ++ r)))) r :=
    (literal_append letters r).map fun _ => rfl
  simp only [List.mem_cons, List.not_mem_nil, or_false] at h
  rcases h with rfl | rfl | rfl
  · exact ⟨_, _, rfl, by decide, hword 0x74 trueWord.tail⟩
  · exact ⟨_, _, rfl, by decide, hword 0x66 falseWord.tail⟩
  · exact ⟨_, _, rfl, by decide, hword 0x6e nullWord.tail⟩

theorem startsScalar_number {digits : Bytes} (h : IsNumber digits) (hr : Ended r) :
    StartsScalar (digits ++ r) r := by
  obtain ⟨sign, whole, fraction, exponent, hsign, hw, hf, he, rfl⟩ := h
  obtain ⟨x, hx⟩ := Numeral.read_append .invalidNumber hw hf he hr
  simp only [List.mem_cons, List.not_mem_nil, or_false] at hsign
  rcases hsign with rfl | rfl
  · obtain ⟨b, more, rfl, hb, -⟩ := hw.1.exists_cons
    have hquote : b ≠ Ascii.quote := by rintro rfl; exact absurd hb (by decide)
    have hminus : b ≠ Ascii.minus := by rintro rfl; exact absurd hb (by decide)
    have hopen : Bracket.open? b = none := by
      unfold Bracket.open?
      rw [if_neg (by rintro rfl; exact absurd hb (by decide)),
        if_neg (by rintro rfl; exact absurd hb (by decide))]
    refine ⟨b, more ++ (fraction ++ (exponent ++ r)), by simp, hopen, ?_⟩
    rw [List.cons_append] at hx
    obtain ⟨h, hx⟩ := hx
    rw [scalar, if_neg hquote, if_neg hminus, if_pos hb, hx]
    exact leaves_ok rfl
  · refine ⟨Ascii.minus, whole ++ (fraction ++ (exponent ++ r)), by simp, by decide, ?_⟩
    obtain ⟨h, hx⟩ := hx
    rw [scalar, if_neg (by decide), if_pos rfl, hx]
    exact leaves_ok rfl

theorem startsScalar_string {raw : Bytes} (h : Quoted raw) (r : Bytes) :
    StartsScalar (Ascii.quote :: (raw ++ [Ascii.quote]) ++ r) r := by
  refine ⟨Ascii.quote, raw ++ Ascii.quote :: r, by simp, by decide, ?_⟩
  rw [scalar, if_pos rfl]
  exact (string_append h r).map fun _ => rfl

/-! ## One step -/

theorem fromValue_of_scalar (hs : StartsScalar (skipBlank s) mid)
    (hon : Leaves (afterValue opened mid) rest) : Leaves (fromValue opened s) rest := by
  obtain ⟨b, t, hs, hopen, h, hscalar⟩ := hs
  obtain ⟨h', hon⟩ := hon
  unfold fromValue
  split
  · next hnil => rw [hs] at hnil; cases hnil
  next heq =>
  obtain ⟨rfl, rfl⟩ := List.cons.inj (hs.symm.trans heq)
  simp only [hopen]
  rw [hscalar, Stopping.ok_bind]
  dsimp only
  rw [hon, Stopping.ok_bind]
  exact leaves_ok rfl

theorem fromValue_of_open (hs : skipBlank s = b :: t) (hb : Bracket.open? b = some bracket)
    (h : Leaves (fromOpening bracket opened t) rest) : Leaves (fromValue opened s) rest := by
  unfold fromValue
  split
  · next hnil => rw [hs] at hnil; cases hnil
  next heq =>
  obtain ⟨rfl, rfl⟩ := List.cons.inj (hs.symm.trans heq)
  simp only [hb]
  exact h.map fun _ => rfl

theorem fromOpening_of_close (hs : skipBlank s = bracket.closing :: t)
    (hon : Leaves (afterValue opened t) rest) : Leaves (fromOpening bracket opened s) rest := by
  unfold fromOpening
  split
  · next hnil => rw [hs] at hnil; cases hnil
  next heq =>
  obtain ⟨rfl, rfl⟩ := List.cons.inj (hs.symm.trans heq)
  rw [if_pos rfl]
  exact hon.map fun _ => rfl

theorem fromOpening_of_entry (hs : skipBlank s = b :: t) (hb : b ≠ bracket.closing)
    (h : Leaves (fromEntry bracket opened s) rest) : Leaves (fromOpening bracket opened s) rest := by
  unfold fromOpening
  split
  · next hnil => rw [hs] at hnil; cases hnil
  next heq =>
  obtain ⟨rfl, rfl⟩ := List.cons.inj (hs.symm.trans heq)
  rw [if_neg hb]
  exact h

theorem afterValue_of_close (hs : skipBlank s = bracket.closing :: t)
    (hon : Leaves (afterValue opened t) rest) :
    Leaves (afterValue (bracket :: opened) s) rest := by
  unfold afterValue
  dsimp only
  split
  · next hnil => rw [hs] at hnil; cases hnil
  next heq =>
  obtain ⟨rfl, rfl⟩ := List.cons.inj (hs.symm.trans heq)
  rw [if_pos rfl]
  exact hon.map fun _ => rfl

theorem afterValue_of_comma (hs : skipBlank s = Ascii.comma :: t)
    (h : Leaves (fromEntry bracket opened t) rest) :
    Leaves (afterValue (bracket :: opened) s) rest := by
  unfold afterValue
  dsimp only
  split
  · next hnil => rw [hs] at hnil; cases hnil
  next heq =>
  obtain ⟨rfl, rfl⟩ := List.cons.inj (hs.symm.trans heq)
  rw [if_neg (by cases bracket <;> decide), if_pos rfl]
  exact h.map fun _ => rfl

theorem fromEntry_square (opened : List Bracket) (s : Bytes) :
    fromEntry .square opened s = fromValue (.square :: opened) s := by
  unfold fromEntry
  rfl

theorem fromEntry_of_key {raw before after : Bytes} (hb : Blank before) (hk : Quoted raw)
    (ha : Blank after) (h : Leaves (fromValue (.curly :: opened) t) rest) :
    Leaves (fromEntry .curly opened
      (before ++ Ascii.quote :: (raw ++ Ascii.quote :: (after ++ Ascii.colon :: t)))) rest := by
  have hs := skipBlank_append (s := Ascii.quote :: (raw ++ Ascii.quote :: (after ++ Ascii.colon :: t)))
    hb (by rintro b ⟨⟩; decide)
  have hkey : Leaves (key (before ++
      Ascii.quote :: (raw ++ Ascii.quote :: (after ++ Ascii.colon :: t)))) t := by
    obtain ⟨h₁, hstring⟩ := string_append hk (after ++ Ascii.colon :: t)
    obtain ⟨h₂, hcolon⟩ := colon_append ha t
    unfold key
    split
    · next hnil => rw [hs] at hnil; cases hnil
    next heq =>
    obtain ⟨rfl, rfl⟩ := List.cons.inj (hs.symm.trans heq)
    rw [if_pos rfl, hstring, Stopping.ok_bind]
    dsimp only
    rw [hcolon, Stopping.ok_bind]
    exact leaves_ok rfl
  obtain ⟨h', hkey⟩ := hkey
  unfold fromEntry
  dsimp only
  rw [hkey, Stopping.ok_bind]
  exact h.map fun _ => rfl

/-! ## Whole values -/

theorem fromOpening_items {items : List Tree} {text : Bytes} (h : SpellsItems items text)
    (hentry : items ≠ [] → Leaves (fromEntry .square opened (text ++ Ascii.closeSquare :: mid)) rest)
    (hon : Leaves (afterValue opened mid) rest) :
    Leaves (fromOpening .square opened (text ++ Ascii.closeSquare :: mid)) rest := by
  have hhead {tree : Tree} {before text r : Bytes} (hb : Blank before) (hv : Spells tree text)
      (hs : Leaves (fromEntry .square opened (before ++ (text ++ r))) rest) :
      Leaves (fromOpening .square opened (before ++ (text ++ r))) rest := by
    obtain ⟨b, t, rfl, hmark⟩ := hv.exists_cons
    refine fromOpening_of_entry (skipBlank_spelled hb hv r) ?_ hs
    rintro rfl
    exact absurd hmark (by decide)
  cases h with
  | none hb =>
    exact fromOpening_of_close (skipBlank_append hb (delimited_closeSquare _).not_separator) hon
  | last hp =>
    obtain ⟨hb, hv, ha⟩ := hp
    rw [List.append_assoc, List.append_assoc] at hentry ⊢
    exact hhead hb hv (hentry (List.cons_ne_nil _ _))
  | more hp hr =>
    obtain ⟨hb, hv, ha⟩ := hp
    rw [List.append_assoc, List.append_assoc, List.append_assoc] at hentry ⊢
    exact hhead hb hv (hentry (List.cons_ne_nil _ _))

theorem fromOpening_members {members : List (Bytes × Tree)} {text : Bytes}
    (h : SpellsMembers members text)
    (hentry : members ≠ [] → Leaves (fromEntry .curly opened (text ++ Ascii.closeCurly :: mid)) rest)
    (hon : Leaves (afterValue opened mid) rest) :
    Leaves (fromOpening .curly opened (text ++ Ascii.closeCurly :: mid)) rest := by
  have hhead {before r : Bytes} (hb : Blank before)
      (hs : Leaves (fromEntry .curly opened (before ++ Ascii.quote :: r)) rest) :
      Leaves (fromOpening .curly opened (before ++ Ascii.quote :: r)) rest :=
    fromOpening_of_entry (skipBlank_append hb (by rintro b ⟨⟩; decide)) (by decide) hs
  cases h with
  | none hb =>
    exact fromOpening_of_close (skipBlank_append hb (delimited_closeCurly _).not_separator) hon
  | last hm =>
    obtain ⟨hb, hk, ha, hp⟩ := hm
    rw [List.append_assoc, List.cons_append] at hentry ⊢
    exact hhead hb (hentry (List.cons_ne_nil _ _))
  | more hm hr =>
    obtain ⟨hb, hk, ha, hp⟩ := hm
    rw [List.append_assoc, List.append_assoc, List.cons_append] at hentry ⊢
    exact hhead hb (hentry (List.cons_ne_nil _ _))

mutual

theorem fromValue_spelled {tree : Tree} {text : Bytes} (h : Spells tree text)
    (opened : List Bracket) {before mid rest : Bytes} (hb : Blank before) (hmid : Ended mid)
    (hon : Leaves (afterValue opened mid) rest) :
    Leaves (fromValue opened (before ++ (text ++ mid))) rest :=
  match h with
  | .word hw => by
    refine fromValue_of_scalar ?_ hon
    rw [skipBlank_spelled hb (.word hw)]
    exact startsScalar_word hw mid
  | .number hn => by
    refine fromValue_of_scalar ?_ hon
    rw [skipBlank_spelled hb (.number hn)]
    exact startsScalar_number hn hmid
  | .string hq => by
    refine fromValue_of_scalar ?_ hon
    rw [skipBlank_spelled hb (.string hq)]
    exact startsScalar_string hq mid
  | .list hi => by
    have hs := skipBlank_spelled hb (.list hi) mid
    rw [List.cons_append, List.append_assoc] at hs ⊢
    exact fromValue_of_open hs rfl
      (fromOpening_items hi (fun hne => fromEntry_items hi opened hne hon) hon)
  | .object hm => by
    have hs := skipBlank_spelled hb (.object hm) mid
    rw [List.cons_append, List.append_assoc] at hs ⊢
    exact fromValue_of_open hs rfl
      (fromOpening_members hm (fun hne => fromEntry_members hm opened hne hon) hon)

theorem fromEntry_items {items : List Tree} {text : Bytes} (h : SpellsItems items text)
    (opened : List Bracket) {mid rest : Bytes} (hne : items ≠ [])
    (hon : Leaves (afterValue opened mid) rest) :
    Leaves (fromEntry .square opened (text ++ Ascii.closeSquare :: mid)) rest :=
  match h with
  | .none _ => absurd rfl hne
  | .last (.mk hb hv ha) => by
    rw [List.append_assoc, List.append_assoc, fromEntry_square]
    have hclose := delimited_closeSquare mid
    exact fromValue_spelled hv _ hb (hclose.ended.append_blank ha)
      (afterValue_of_close (skipBlank_append ha hclose.not_separator) hon)
  | .more (r := r) (.mk hb hv ha) hr => by
    rw [List.append_assoc, List.append_assoc, List.append_assoc, fromEntry_square]
    have hcomma := delimited_comma (r ++ Ascii.closeSquare :: mid)
    exact fromValue_spelled hv _ hb (hcomma.ended.append_blank ha)
      (afterValue_of_comma (skipBlank_append ha hcomma.not_separator)
        (fromEntry_items hr opened (List.cons_ne_nil _ _) hon))

theorem fromEntry_members {members : List (Bytes × Tree)} {text : Bytes}
    (h : SpellsMembers members text) (opened : List Bracket) {mid rest : Bytes}
    (hne : members ≠ []) (hon : Leaves (afterValue opened mid) rest) :
    Leaves (fromEntry .curly opened (text ++ Ascii.closeCurly :: mid)) rest :=
  match h with
  | .none _ => absurd rfl hne
  | .last (.mk hbefore hk hafter (.mk hb hv ha)) => by
    rw [append_member]
    have hclose := delimited_closeCurly mid
    exact fromEntry_of_key hbefore hk hafter (fromValue_spelled hv _ hb (hclose.ended.append_blank ha)
      (afterValue_of_close (skipBlank_append ha hclose.not_separator) hon))
  | .more (r := r) (.mk hbefore hk hafter (.mk hb hv ha)) hr => by
    rw [List.append_assoc, append_member]
    have hcomma := delimited_comma (r ++ Ascii.closeCurly :: mid)
    exact fromEntry_of_key hbefore hk hafter (fromValue_spelled hv _ hb (hcomma.ended.append_blank ha)
      (afterValue_of_comma (skipBlank_append ha hcomma.not_separator)
        (fromEntry_members hr opened (List.cons_ne_nil _ _) hon)))

end

end Skip

/-- A value that stands at the front of a text is passed over. -/
theorem skip_atFront {tree : Tree} (h : AtFront tree s rest) (hrest : Ended rest) :
    Leaves (skip s) rest := by
  obtain ⟨before, text, hb, ht, rfl⟩ := h
  refine Skip.fromValue_spelled ht [] hb hrest ?_
  unfold Skip.afterValue
  exact leaves_ok rfl

end TypedCollections.Json
