import TypedCollections.Proofs.Json.Complete.Skipping
import TypedCollections.Proofs.Json.Reading

/-!
Every value that means something is read. A typed reader is given the tree of a value and what the
tree means, and takes that from any text that the tree spells, as long as the value ends there. So a
text of the grammar is read as its tree says, and neither white space nor a value that nobody asks
for has a part in it.
-/
namespace TypedCollections.Json

variable {α β σ ι : Type} {s t mid rest : Bytes} {tree : Tree}

/-- A reader takes every value that means something, and returns what it means. -/
def Reads (read : Reader α) (means : Tree → α → Prop) : Prop :=
  ∀ tree x s rest, means tree x → AtFront tree s rest → Ended rest → Takes (read s) x rest

/-- The converse of `Accepts.map`. -/
theorem Reads.map {read : Reader α} {means : Tree → α → Prop} (hread : Reads read means)
    (f : α → β) :
    Reads (fun s => (read s).map fun (x, r) => (f x, r)) fun tree y =>
      ∃ x, means tree x ∧ y = f x := by
  rintro tree _ s rest ⟨x, hx, rfl⟩ h hrest
  exact (hread tree x s rest hx h hrest).map (fun _ => rfl) fun _ => rfl

/-! ## What stands at the front of a text -/

theorem AtFront.skipBlank_eq (h : AtFront tree s rest) :
    ∃ text, Spells tree text ∧ skipBlank s = text ++ rest := by
  obtain ⟨before, text, hb, ht, rfl⟩ := h
  exact ⟨text, ht, skipBlank_spelled hb ht rest⟩

/-- A value does not start with a bracket that closes one. -/
theorem AtFront.skipBlank_ne (h : AtFront tree s rest) {b : UInt8}
    (hb : b ∈ [Ascii.comma, Ascii.closeSquare, Ascii.closeCurly]) : skipBlank s ≠ b :: t := by
  obtain ⟨text, ht, hs⟩ := h.skipBlank_eq
  intro heq
  exact ht.ne_cons_append blank_nil hb blank_nil (heq.symm.trans hs)

/-- The only value that starts as null does is null. -/
theorem Spells.eq_null (h : Spells tree (0x6e :: s)) : tree = .word nullWord := by
  generalize htext : 0x6e :: s = text at h
  cases h with
  | word hw =>
    simp only [List.mem_cons, List.not_mem_nil, or_false] at hw
    rcases hw with rfl | rfl | rfl
    · cases htext
    · cases htext
    · rfl
  | number hn =>
    subst htext
    obtain ⟨sign, whole, fraction, exponent, hsign, hw, -, -, hs⟩ := hn
    obtain ⟨b, more, rfl, hb, -⟩ := hw.1.exists_cons
    simp only [List.mem_cons, List.not_mem_nil, or_false] at hsign
    rcases hsign with rfl | rfl
    · obtain ⟨rfl, -⟩ := List.cons.inj hs
      exact absurd hb (by decide)
    · cases hs
  | string | list | object => cases htext

/-- Behind the first item its list is closed, or goes on after a comma. -/
theorem ItemsAtFront.uncons {items : List Tree} (h : ItemsAtFront (tree :: items) s rest) :
    ∃ mid, AtFront tree s mid ∧ Ended mid ∧ Shape.FollowAtFront items mid rest := by
  obtain ⟨text, htext, rfl⟩ := h
  cases htext with
  | last hp =>
    obtain ⟨hb, hv, ha⟩ := hp
    have hclose := delimited_closeSquare rest
    refine ⟨_, ⟨_, _, hb, hv, ?_⟩, hclose.ended.append_blank ha, .inl ⟨rfl, ?_⟩⟩
    · rw [List.append_assoc, List.append_assoc]
    · exact skipBlank_append ha hclose.not_separator
  | @more _ _ _ _ r hp hr =>
    obtain ⟨hb, hv, ha⟩ := hp
    have hcomma := delimited_comma (r ++ Ascii.closeSquare :: rest)
    refine ⟨_, ⟨_, _, hb, hv, ?_⟩, hcomma.ended.append_blank ha,
      .inr ⟨_, List.cons_ne_nil _ _, ?_, r, hr, rfl⟩⟩
    · rw [List.append_assoc, List.append_assoc, List.append_assoc, List.cons_append]
    · exact skipBlank_append ha hcomma.not_separator

/-- Behind the first member its object is closed, or goes on after a comma. -/
theorem MembersAtFront.uncons {member : Bytes × Tree} {members : List (Bytes × Tree)}
    (h : MembersAtFront (member :: members) s rest) :
    ∃ mid, MemberAtFront member s mid ∧ Ended mid ∧
      ((members = [] ∧ skipBlank mid = Ascii.closeCurly :: rest) ∨
        ∃ t, members ≠ [] ∧ skipBlank mid = Ascii.comma :: t ∧ MembersAtFront members t rest) := by
  obtain ⟨text, htext, rfl⟩ := h
  cases htext with
  | last hm =>
    obtain ⟨hbefore, hk, hafter, hb, hv, ha⟩ := hm
    have hclose := delimited_closeCurly rest
    refine ⟨_, ⟨_, _, _, hbefore, hk, hafter, append_member .., _, _, hb, hv, rfl⟩,
      hclose.ended.append_blank ha, .inl ⟨rfl, ?_⟩⟩
    exact skipBlank_append ha hclose.not_separator
  | @more _ _ _ _ r hm hr =>
    obtain ⟨hbefore, hk, hafter, hb, hv, ha⟩ := hm
    have hcomma := delimited_comma (r ++ Ascii.closeCurly :: rest)
    refine ⟨_, ⟨_, _, _, hbefore, hk, hafter, ?_, _, _, hb, hv, rfl⟩,
      hcomma.ended.append_blank ha, .inr ⟨_, List.cons_ne_nil _ _, ?_, r, hr, rfl⟩⟩
    · rw [List.append_assoc, append_member, List.cons_append]
    · exact skipBlank_append ha hcomma.not_separator

/-- A member starts with the mark that opens its key. -/
theorem MemberAtFront.skipBlank_eq {member : Bytes × Tree} (h : MemberAtFront member s rest) :
    ∃ u, skipBlank s = Ascii.quote :: u ∧ ∃ after t, Blank after ∧
      u = member.1 ++ Ascii.quote :: (after ++ Ascii.colon :: t) ∧ AtFront member.2 t rest := by
  obtain ⟨before, after, t, hb, -, ha, rfl, hvalue⟩ := h
  exact ⟨_, skipBlank_append hb (by rintro b ⟨⟩; decide), after, t, ha, rfl, hvalue⟩

/-! ## Strings, words and null -/

theorem text_reads : Reads text IsText := by
  rintro _ x s rest ⟨raw, rfl, hraw⟩ h -
  obtain ⟨_, ht, hs⟩ := h.skipBlank_eq
  cases ht
  rw [List.cons_append, List.append_assoc] at hs
  unfold text
  split
  · next hnil => rw [hs] at hnil; cases hnil
  next heq =>
  obtain ⟨rfl, rfl⟩ := List.cons.inj (hs.symm.trans heq)
  rw [if_pos rfl]
  exact (quotation_append hraw rest).map (fun _ => rfl) fun _ => rfl

theorem flag_reads : Reads flag IsFlag := by
  rintro _ x s rest rfl h -
  obtain ⟨_, ht, hs⟩ := h.skipBlank_eq
  cases ht
  unfold flag
  split
  · next hnil => rw [hs] at hnil; cases x <;> cases hnil
  next b r heq =>
  cases x with
  | true =>
    obtain ⟨rfl, rfl⟩ := List.cons.inj (hs.symm.trans heq)
    obtain ⟨h, hword⟩ := literal_append trueWord.tail rest
    rw [if_pos rfl]
    change Takes ((literal trueWord.tail (trueWord.tail ++ rest)).map _) true rest
    rw [hword]
    exact takes_ok rfl
  | false =>
    obtain ⟨rfl, rfl⟩ := List.cons.inj (hs.symm.trans heq)
    obtain ⟨h, hword⟩ := literal_append falseWord.tail rest
    rw [if_neg (by decide), if_pos rfl]
    change Takes ((literal falseWord.tail (falseWord.tail ++ rest)).map _) false rest
    rw [hword]
    exact takes_ok rfl

theorem orNull_reads {read : Reader α} {means : Tree → α → Prop} (hread : Reads read means)
    (hnull : ∀ x, ¬means (.word nullWord) x) : Reads (orNull read) (IsNullOr means) := by
  intro tree x s rest hx h hrest
  obtain ⟨text, ht, hs⟩ := h.skipBlank_eq
  obtain ⟨c, more, rfl, -⟩ := ht.exists_cons
  rw [List.cons_append] at hs
  unfold orNull
  split
  · next hnil => rw [hs] at hnil; cases hnil
  next heq =>
  obtain ⟨rfl, rfl⟩ := List.cons.inj (hs.symm.trans heq)
  cases x with
  | none =>
    obtain rfl : tree = .word nullWord := hx
    cases ht
    obtain ⟨h, hword⟩ := literal_append nullWord.tail rest
    rw [if_pos rfl]
    change Takes ((literal nullWord.tail (nullWord.tail ++ rest)).map _) none rest
    rw [hword]
    exact takes_ok rfl
  | some x =>
    have hfirst : c ≠ 0x6e := by
      rintro rfl
      exact hnull x (ht.eq_null ▸ hx)
    rw [if_neg hfirst]
    exact (hread tree x s rest hx h hrest).map (fun _ => rfl) fun _ => rfl

/-! ## Lists -/

theorem items_reads {read : Reader α} {means : Tree → α → Prop} (hread : Reads read means)
    {trees : List Tree} {xs : List α} (hall : List.Forall₂ means trees xs) (hne : trees ≠ [])
    (before : List α) (h : ItemsAtFront trees s rest) :
    Takes (items read before s) (before.reverse ++ xs) rest := by
  induction hall generalizing before s with
  | nil => exact absurd rfl hne
  | @cons tree x trees xs hx hall ih =>
    obtain ⟨mid, htree, hended, hfollow⟩ := h.uncons
    obtain ⟨hlt, htakes⟩ := hread tree x s mid hx htree hended
    unfold items
    rw [htakes, Stopping.ok_bind]
    dsimp only
    obtain ⟨rfl, hmid⟩ | ⟨t, hne, hmid, htrees⟩ := hfollow
    · cases hall
      split
      · next hnil => rw [hmid] at hnil; cases hnil
      next heq =>
      obtain ⟨rfl, rfl⟩ := List.cons.inj (hmid.symm.trans heq)
      rw [if_pos rfl, List.reverse_cons]
      exact takes_ok rfl
    · have hopen {u : Bytes} : skipBlank t ≠ Ascii.closeSquare :: u := by
        obtain ⟨next, trees, rfl⟩ := List.exists_cons_of_ne_nil hne
        obtain ⟨_, hnext, -⟩ := htrees.uncons
        exact hnext.skipBlank_ne (by decide)
      obtain ⟨hlt', hitems⟩ := ih hne (x :: before) htrees
      split
      · next hnil => rw [hmid] at hnil; cases hnil
      next heq =>
      obtain ⟨rfl, rfl⟩ := List.cons.inj (hmid.symm.trans heq)
      rw [if_neg (by decide), if_pos rfl]
      split
      · next hclose => exact absurd hclose hopen
      · rw [hitems, Stopping.ok_bind, List.reverse_cons, List.append_assoc]
        exact takes_ok rfl

theorem skipBlank_of_itemsAtFront_nil (h : ItemsAtFront [] s rest) :
    skipBlank s = Ascii.closeSquare :: rest := by
  obtain ⟨text, htext, rfl⟩ := h
  cases htext with
  | none hb => exact skipBlank_append hb (delimited_closeSquare rest).not_separator

theorem skipBlank_of_membersAtFront_nil (h : MembersAtFront [] s rest) :
    skipBlank s = Ascii.closeCurly :: rest := by
  obtain ⟨text, htext, rfl⟩ := h
  cases htext with
  | none hb => exact skipBlank_append hb (delimited_closeCurly rest).not_separator

theorem list_reads {read : Reader α} {means : Tree → α → Prop} (hread : Reads read means)
    {trees : List Tree} {xs : List α} (hall : List.Forall₂ means trees xs)
    (h : ItemsAtFront trees s rest) : Takes (list read s) xs rest := by
  unfold list
  cases trees with
  | nil =>
    cases hall
    have hs := skipBlank_of_itemsAtFront_nil h
    split
    · next hnil => rw [hs] at hnil; cases hnil
    next heq =>
    obtain ⟨rfl, rfl⟩ := List.cons.inj (hs.symm.trans heq)
    rw [if_pos rfl]
    exact takes_ok rfl
  | cons tree trees =>
    obtain ⟨_, htree, -⟩ := h.uncons
    split
    · next hnil =>
      obtain ⟨text, ht, hs⟩ := htree.skipBlank_eq
      obtain ⟨b, more, rfl, -⟩ := ht.exists_cons
      rw [hs] at hnil
      cases hnil
    next b r heq =>
    have hb : b ≠ Ascii.closeSquare := by
      rintro rfl
      exact htree.skipBlank_ne (by decide) heq
    rw [if_neg hb]
    exact items_reads hread hall (List.cons_ne_nil _ _) [] h

theorem listOf_reads {read : Reader α} {means : Tree → α → Prop} (hread : Reads read means) :
    Reads (listOf read) (IsListOf means) := by
  rintro _ xs s rest ⟨trees, rfl, hall⟩ h -
  obtain ⟨_, ht, hs⟩ := h.skipBlank_eq
  cases ht with
  | list hi =>
    rw [List.cons_append, List.append_assoc] at hs
    unfold listOf
    split
    · next hnil => rw [hs] at hnil; cases hnil
    next heq =>
    obtain ⟨rfl, rfl⟩ := List.cons.inj (hs.symm.trans heq)
    rw [if_pos rfl]
    exact (list_reads hread hall ⟨_, hi, rfl⟩).map (fun _ => rfl) fun _ => rfl

end TypedCollections.Json
