import TypedCollections.Proofs.Json.Tokens
import TypedCollections.Proofs.Json.Unambiguity

/-!
A value that is passed over is a value of the grammar. The reader that passes over it does not call
itself for each bracket but goes on behind the values with the list of the brackets that are open;
so what is shown of it says where the value ends and that it goes on from there.
-/
namespace TypedCollections.Json

variable {s t mid rest : Bytes} {tree : Tree} {member : Bytes × Tree}

/-! ## Pieces at the front of a text -/

/-- A value with white space before it, and the rest behind it. -/
def AtFront (tree : Tree) (s rest : Bytes) : Prop :=
  ∃ before text, Blank before ∧ Spells tree text ∧ s = before ++ (text ++ rest)

/-- A key, a colon and a value with white space before them, and the rest behind them. -/
def MemberAtFront (member : Bytes × Tree) (s rest : Bytes) : Prop :=
  ∃ before after t, Blank before ∧ Quoted member.1 ∧ Blank after ∧
    s = before ++ Ascii.quote :: (member.1 ++ Ascii.quote :: (after ++ Ascii.colon :: t)) ∧
    AtFront member.2 t rest

/-- Items, and the rest behind the bracket that closes their list. -/
def ItemsAtFront (items : List Tree) (s rest : Bytes) : Prop :=
  ∃ text, SpellsItems items text ∧ s = text ++ Ascii.closeSquare :: rest

/-- Members, and the rest behind the bracket that closes their object. -/
def MembersAtFront (members : List (Bytes × Tree)) (s rest : Bytes) : Prop :=
  ∃ text, SpellsMembers members text ∧ s = text ++ Ascii.closeCurly :: rest

theorem exists_blank_of_skipBlank {b : UInt8} (h : skipBlank s = b :: t) :
    ∃ before, Blank before ∧ s = before ++ b :: t := by
  rw [← h]
  exact exists_blank_append_skipBlank s

theorem atFront_of_skipBlank {text : Bytes} (htext : Spells tree text)
    (h : skipBlank s = text ++ rest) : AtFront tree s rest := by
  obtain ⟨before, hb, hs⟩ := exists_blank_append_skipBlank s
  exact ⟨before, text, hb, htext, hs.trans (congrArg (before ++ ·) h)⟩

theorem AtFront.of_skipBlank (h : AtFront tree (skipBlank s) rest) : AtFront tree s rest := by
  obtain ⟨before, text, hb, ht, hs⟩ := h
  obtain ⟨blank, hblank, hs'⟩ := exists_blank_append_skipBlank s
  refine ⟨blank ++ before, text, List.forall_mem_append.mpr ⟨hblank, hb⟩, ht, ?_⟩
  rw [List.append_assoc, ← hs, ← hs']

theorem AtFront.padded (h : AtFront tree s rest) :
    ∃ text, SpellsPadded tree text ∧ s = text ++ skipBlank rest := by
  obtain ⟨before, text, hb, ht, rfl⟩ := h
  obtain ⟨after, ha, hrest⟩ := exists_blank_append_skipBlank rest
  refine ⟨before ++ (text ++ after), .mk hb ht ha, ?_⟩
  rw [List.append_assoc, List.append_assoc, ← hrest]

theorem MemberAtFront.padded (h : MemberAtFront member s rest) :
    ∃ text, SpellsMember member text ∧ s = text ++ skipBlank rest := by
  obtain ⟨before, after, t, hb, hk, ha, rfl, hvalue⟩ := h
  obtain ⟨text, htext, rfl⟩ := hvalue.padded
  exact ⟨_, .mk hb hk ha htext, by simp⟩

theorem AtFront.length_lt (h : AtFront tree s rest) : rest.length < s.length := by
  obtain ⟨before, text, -, ht, rfl⟩ := h
  obtain ⟨b, text, rfl, -⟩ := ht.exists_cons
  simp only [List.length_append, List.length_cons]
  omega

theorem MemberAtFront.length_lt (h : MemberAtFront member s rest) : rest.length < s.length := by
  obtain ⟨before, after, t, -, -, -, rfl, hvalue⟩ := h
  have := hvalue.length_lt
  simp only [List.length_append, List.length_cons]
  omega

theorem AtFront.last (h : AtFront tree s mid) (hmid : skipBlank mid = Ascii.closeSquare :: rest) :
    ItemsAtFront [tree] s rest := by
  obtain ⟨text, htext, hs⟩ := h.padded
  exact ⟨text, .last htext, hmid ▸ hs⟩

theorem AtFront.more {items : List Tree} (h : AtFront tree s mid)
    (hmid : skipBlank mid = Ascii.comma :: t) (hitems : ItemsAtFront items t rest)
    (hne : items ≠ []) : ItemsAtFront (tree :: items) s rest := by
  obtain ⟨next, items, rfl⟩ := List.exists_cons_of_ne_nil hne
  obtain ⟨text, htext, hs⟩ := h.padded
  obtain ⟨more, hmore, ht⟩ := hitems
  refine ⟨text ++ Ascii.comma :: more, .more htext hmore, ?_⟩
  rw [hs, hmid, ht, List.append_assoc, List.cons_append]

theorem MemberAtFront.last (h : MemberAtFront member s mid)
    (hmid : skipBlank mid = Ascii.closeCurly :: rest) : MembersAtFront [member] s rest := by
  obtain ⟨text, htext, hs⟩ := h.padded
  exact ⟨text, .last htext, hmid ▸ hs⟩

theorem MemberAtFront.more {members : List (Bytes × Tree)} (h : MemberAtFront member s mid)
    (hmid : skipBlank mid = Ascii.comma :: t) (hmembers : MembersAtFront members t rest)
    (hne : members ≠ []) : MembersAtFront (member :: members) s rest := by
  obtain ⟨next, members, rfl⟩ := List.exists_cons_of_ne_nil hne
  obtain ⟨text, htext, hs⟩ := h.padded
  obtain ⟨more, hmore, ht⟩ := hmembers
  refine ⟨text ++ Ascii.comma :: more, .more htext hmore, ?_⟩
  rw [hs, hmid, ht, List.append_assoc, List.cons_append]

theorem itemsAtFront_nil (h : skipBlank s = Ascii.closeSquare :: rest) :
    ItemsAtFront [] s rest := by
  obtain ⟨before, hb, hs⟩ := exists_blank_of_skipBlank h
  exact ⟨before, .none hb, hs⟩

theorem membersAtFront_nil (h : skipBlank s = Ascii.closeCurly :: rest) :
    MembersAtFront [] s rest := by
  obtain ⟨before, hb, hs⟩ := exists_blank_of_skipBlank h
  exact ⟨before, .none hb, hs⟩

theorem ItemsAtFront.list {items : List Tree} (h : ItemsAtFront items t rest)
    (hs : skipBlank s = Ascii.openSquare :: t) : AtFront (.list items) s rest := by
  obtain ⟨text, htext, rfl⟩ := h
  exact atFront_of_skipBlank (.list htext) (by simp [hs])

theorem MembersAtFront.object {members : List (Bytes × Tree)} (h : MembersAtFront members t rest)
    (hs : skipBlank s = Ascii.openCurly :: t) : AtFront (.object members) s rest := by
  obtain ⟨text, htext, rfl⟩ := h
  exact atFront_of_skipBlank (.object htext) (by simp [hs])

theorem colon_ok {r : Rest s} (h : colon s = .ok r) :
    ∃ after, Blank after ∧ s = after ++ Ascii.colon :: r.1 := by
  unfold colon at h
  split at h
  · cases h
  next hs =>
  split at h
  · next hb =>
    cases h
    rw [hb] at hs
    exact exists_blank_of_skipBlank hs
  · cases h

/-! ## Passing over a value -/

namespace Skip

theorem word_ok {b : UInt8} {letters : Bytes} {r : Rest (b :: s)} (h : word letters s = .ok r) :
    b :: s = b :: letters ++ r.1 := by
  obtain ⟨t, ht, rfl⟩ := Stopping.map_ok h
  exact congrArg (b :: ·) (literal_ok ht)

theorem scalar_ok {b : UInt8} {r : Rest (b :: s)} (h : scalar b s = .ok r) :
    ∃ tree text, Spells tree text ∧ b :: s = text ++ r.1 := by
  have hword {letters : Bytes} (hm : b :: letters ∈ [trueWord, falseWord, nullWord])
      (h : word letters s = .ok r) : ∃ tree text, Spells tree text ∧ b :: s = text ++ r.1 :=
    ⟨_, _, .word hm, word_ok h⟩
  unfold scalar at h
  split at h
  · next hb =>
    obtain ⟨t, hstring, rfl⟩ := Stopping.map_ok h
    obtain ⟨raw, hraw, hs⟩ := string_ok s hstring
    refine ⟨_, _, .string hraw, ?_⟩
    rw [hb, List.cons_append, List.append_assoc]
    exact congrArg (Ascii.quote :: ·) hs
  split at h
  · next hb =>
    obtain ⟨⟨x, t⟩, hnumber, rfl⟩ := Stopping.map_ok h
    obtain ⟨text, -, hsigned, hs⟩ := Numeral.read_ok hnumber
    refine ⟨_, _, .number hsigned, ?_⟩
    rw [hb]
    exact congrArg (Ascii.minus :: ·) hs
  split at h
  · obtain ⟨⟨x, t⟩, hnumber, rfl⟩ := Stopping.map_ok h
    obtain ⟨text, hplain, -, hs⟩ := Numeral.read_ok hnumber
    exact ⟨_, _, .number hplain, hs⟩
  split at h
  · next hb => exact hword (by rw [hb]; decide) h
  split at h
  · next hb => exact hword (by rw [hb]; decide) h
  split at h
  · next hb => exact hword (by rw [hb]; decide) h
  · cases h

theorem key_ok {r : Rest s} (h : key s = .ok r) (hvalue : AtFront tree r.1 rest) :
    ∃ raw, MemberAtFront (raw, tree) s rest := by
  unfold key at h
  split at h
  · cases h
  next hs =>
  split at h
  · next hb =>
    obtain ⟨⟨r₁, h₁⟩, hstring, h⟩ := Stopping.bind_ok h
    obtain ⟨⟨r₂, h₂⟩, hcolon, h⟩ := Stopping.bind_ok h
    cases h
    obtain ⟨before, hbefore, rfl⟩ := exists_blank_of_skipBlank hs
    obtain ⟨raw, hraw, ht⟩ := string_ok _ hstring
    obtain ⟨after, hafter, hr₁⟩ := colon_ok hcolon
    exact ⟨raw, before, after, r₂, hbefore, hraw, hafter, by rw [hb, ht, ← hr₁], hvalue⟩
  · cases h

/-- One entry of what the bracket opens. -/
def EntryAtFront (s rest : Bytes) : Bracket → Prop
  | .square => ∃ tree, AtFront tree s rest
  | .curly => ∃ member, MemberAtFront member s rest

/-- At least one entry, and the rest behind the closing bracket. -/
def EntriesAtFront (s rest : Bytes) : Bracket → Prop
  | .square => ∃ items, items ≠ [] ∧ ItemsAtFront items s rest
  | .curly => ∃ members, members ≠ [] ∧ MembersAtFront members s rest

/-- Any number of entries, and the rest behind the closing bracket. -/
def InsideAtFront (s rest : Bytes) : Bracket → Prop
  | .square => ∃ items, ItemsAtFront items s rest
  | .curly => ∃ members, MembersAtFront members s rest

variable {bracket : Bracket}

theorem length_lt_of_entry (h : EntryAtFront s rest bracket) : rest.length < s.length := by
  cases bracket with
  | square =>
    obtain ⟨tree, h⟩ := h
    exact h.length_lt
  | curly =>
    obtain ⟨member, h⟩ := h
    exact h.length_lt

theorem entries_of_last (h : EntryAtFront s mid bracket)
    (hmid : skipBlank mid = bracket.closing :: rest) : EntriesAtFront s rest bracket := by
  cases bracket with
  | square =>
    obtain ⟨tree, h⟩ := h
    exact ⟨[tree], List.cons_ne_nil _ _, h.last hmid⟩
  | curly =>
    obtain ⟨member, h⟩ := h
    exact ⟨[member], List.cons_ne_nil _ _, h.last hmid⟩

theorem entries_of_more (h : EntryAtFront s mid bracket)
    (hmid : skipBlank mid = Ascii.comma :: t) (ht : EntriesAtFront t rest bracket) :
    EntriesAtFront s rest bracket := by
  cases bracket with
  | square =>
    obtain ⟨tree, h⟩ := h
    obtain ⟨items, hne, ht⟩ := ht
    exact ⟨tree :: items, List.cons_ne_nil _ _, h.more hmid ht hne⟩
  | curly =>
    obtain ⟨member, h⟩ := h
    obtain ⟨members, hne, ht⟩ := ht
    exact ⟨member :: members, List.cons_ne_nil _ _, h.more hmid ht hne⟩

theorem inside_of_closing (h : skipBlank s = bracket.closing :: rest) :
    InsideAtFront s rest bracket := by
  cases bracket with
  | square => exact ⟨[], itemsAtFront_nil h⟩
  | curly => exact ⟨[], membersAtFront_nil h⟩

theorem inside_of_entries (h : EntriesAtFront s rest bracket) : InsideAtFront s rest bracket := by
  cases bracket with
  | square =>
    obtain ⟨items, -, h⟩ := h
    exact ⟨items, h⟩
  | curly =>
    obtain ⟨members, -, h⟩ := h
    exact ⟨members, h⟩

theorem exists_atFront_of_inside {b : UInt8} (h : InsideAtFront t rest bracket)
    (hb : Bracket.open? b = some bracket) (hs : skipBlank s = b :: t) :
    ∃ tree, AtFront tree s rest := by
  unfold Bracket.open? at hb
  split at hb
  · next heq =>
    cases hb
    obtain ⟨items, h⟩ := h
    exact ⟨_, h.list (heq ▸ hs)⟩
  split at hb
  · next heq =>
    cases hb
    obtain ⟨members, h⟩ := h
    exact ⟨_, h.object (heq ▸ hs)⟩
  · cases hb

/-- What is left of the text by the reader that goes on behind a value. -/
def GoesOn (opened : List Bracket) (mid rest : Bytes) : Prop :=
  ∃ u, afterValue opened mid = .ok u ∧ u.1 = rest

mutual

theorem fromValue_ok (opened : List Bracket) (s : Bytes) {r : Rest s}
    (h : fromValue opened s = .ok r) :
    ∃ tree mid, AtFront tree s mid ∧ GoesOn opened mid r.1 := by
  unfold fromValue at h
  split at h
  · cases h
  next b t hs =>
  have hlt := length_lt_of_skipBlank hs
  split at h
  · next bracket hopen =>
    obtain ⟨u, hopening, rfl⟩ := Stopping.map_ok h
    obtain ⟨mid, hinside, hon⟩ := fromOpening_ok bracket opened t hopening
    obtain ⟨tree, htree⟩ := exists_atFront_of_inside hinside hopen hs
    exact ⟨tree, mid, htree, hon⟩
  · obtain ⟨⟨mid, hmid⟩, hscalar, h⟩ := Stopping.bind_ok h
    obtain ⟨u, hafter, h⟩ := Stopping.bind_ok h
    cases h
    obtain ⟨tree, text, htext, ht⟩ := scalar_ok hscalar
    exact ⟨tree, mid, atFront_of_skipBlank htext (hs.trans ht), u, hafter, rfl⟩
termination_by (s.length, 0)

theorem fromOpening_ok (bracket : Bracket) (opened : List Bracket) (s : Bytes) {r : Rest s}
    (h : fromOpening bracket opened s = .ok r) :
    ∃ mid, InsideAtFront s mid bracket ∧ GoesOn opened mid r.1 := by
  unfold fromOpening at h
  split at h
  · cases h
  next b t hs =>
  split at h
  · next hb =>
    obtain ⟨u, hafter, rfl⟩ := Stopping.map_ok h
    exact ⟨t, inside_of_closing (hb ▸ hs), u, hafter, rfl⟩
  · obtain ⟨mid, hentries, hon⟩ := fromEntry_ok bracket opened s h
    exact ⟨mid, inside_of_entries hentries, hon⟩
termination_by (s.length, 2)

theorem fromEntry_ok (bracket : Bracket) (opened : List Bracket) (s : Bytes) {r : Rest s}
    (h : fromEntry bracket opened s = .ok r) :
    ∃ mid, EntriesAtFront s mid bracket ∧ GoesOn opened mid r.1 := by
  have hfirst : ∃ mid, EntryAtFront s mid bracket ∧ GoesOn (bracket :: opened) mid r.1 := by
    unfold fromEntry at h
    cases bracket with
    | square =>
      obtain ⟨tree, mid, hvalue, hon⟩ := fromValue_ok (.square :: opened) s h
      exact ⟨mid, ⟨tree, hvalue⟩, hon⟩
    | curly =>
      obtain ⟨⟨t, ht⟩, hkey, h⟩ := Stopping.bind_ok h
      obtain ⟨u, hfrom, rfl⟩ := Stopping.map_ok h
      obtain ⟨tree, mid, hvalue, hon⟩ := fromValue_ok (.curly :: opened) t hfrom
      obtain ⟨raw, hmember⟩ := key_ok hkey hvalue
      exact ⟨mid, ⟨_, hmember⟩, hon⟩
  obtain ⟨mid, hentry, u, hafter, hu⟩ := hfirst
  have hmid := length_lt_of_entry hentry
  unfold afterValue at hafter
  split at hafter
  · cases hafter
  next b t hs =>
  have hlt := length_lt_of_skipBlank hs
  split at hafter
  · next hb =>
    obtain ⟨v, hv, rfl⟩ := Stopping.map_ok hafter
    exact ⟨t, entries_of_last hentry (hb ▸ hs), v, hv, hu⟩
  split at hafter
  · next hb =>
    obtain ⟨v, hv, rfl⟩ := Stopping.map_ok hafter
    obtain ⟨mid', hentries, hon⟩ := fromEntry_ok bracket opened t hv
    exact ⟨mid', entries_of_more hentry (hb ▸ hs) hentries, hu ▸ hon⟩
  · cases hafter
termination_by (s.length, 1)

end

end Skip

theorem skip_ok {r : Rest s} (h : skip s = .ok r) : ∃ tree, AtFront tree s r.1 := by
  obtain ⟨tree, mid, hvalue, u, hafter, hu⟩ := Skip.fromValue_ok [] s h
  unfold Skip.afterValue at hafter
  cases hafter
  exact ⟨tree, hu ▸ hvalue⟩

end TypedCollections.Json
