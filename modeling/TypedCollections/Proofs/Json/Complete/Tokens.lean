import TypedCollections.Proofs.Json.Skipping

/-!
The other direction for single tokens: what the grammar spells, the readers take, and they leave
what follows it. A word or a number must end where it is spelled to its end; a string ends at its
closing mark whatever follows.
-/
namespace TypedCollections.Json

variable {α β : Type} {p q : Bytes → Prop} {s r rest : Bytes}

/-- A reading comes to its end and leaves the rest. -/
def Leaves (reading : Except Fault (Subtype p)) (rest : Bytes) : Prop :=
  ∃ h, reading = .ok ⟨rest, h⟩

/-- A reading gives a result and leaves the rest. -/
def Takes (reading : Except Fault (α × Subtype p)) (x : α) (rest : Bytes) : Prop :=
  ∃ h, reading = .ok (x, ⟨rest, h⟩)

theorem leaves_ok {t : Subtype p} (h : t.1 = rest) : Leaves (.ok t) rest := by
  obtain ⟨t, ht⟩ := t
  obtain rfl : t = rest := h
  exact ⟨ht, rfl⟩

theorem takes_ok {x : α} {t : Subtype p} (h : t.1 = rest) : Takes (.ok (x, t)) x rest := by
  obtain ⟨t, ht⟩ := t
  obtain rfl : t = rest := h
  exact ⟨ht, rfl⟩

theorem Leaves.map {reading : Except Fault (Subtype p)} (h : Leaves reading rest)
    {f : Subtype p → Subtype q} (hf : ∀ t, (f t).1 = t.1) : Leaves (reading.map f) rest := by
  obtain ⟨ht, rfl⟩ := h
  exact leaves_ok (hf _)

theorem Takes.map {reading : Except Fault (α × Subtype p)} {x : α} (h : Takes reading x rest)
    {f : α × Subtype p → β × Subtype q} {y : β} (hx : ∀ t, (f (x, t)).1 = y)
    (hf : ∀ t, (f (x, t)).2.1 = t.1) : Takes (reading.map f) y rest := by
  obtain ⟨ht, rfl⟩ := h
  rw [← hx ⟨rest, ht⟩]
  exact takes_ok (hf _)

/-! ## White space, words and numbers -/

theorem skipBlank_append {before : Bytes} (hb : Blank before)
    (hs : ∀ b ∈ s.head?, ¬isSeparator b) : skipBlank (before ++ s) = s := by
  unfold skipBlank
  rw [List.dropWhile_append_of_pos hb]
  cases s with
  | nil => rfl
  | cons b s => exact List.dropWhile_cons_of_neg (hs b rfl)

theorem literal_append (letters rest : Bytes) : Leaves (literal letters (letters ++ rest)) rest := by
  induction letters with
  | nil => exact leaves_ok rfl
  | cons c letters ih =>
    rw [List.cons_append, literal, if_pos rfl]
    exact ih.map fun _ => rfl

/-- No digit comes next. -/
def NoDigit (r : Bytes) : Prop := ∀ b ∈ r.head?, ¬Ascii.isDigit b

theorem Ended.noDigit (h : Ended r) : NoDigit r := fun b hb hdigit => h b hb (isAtom_of_digit hdigit)

theorem noDigit_cons {b : UInt8} (h : ¬Ascii.isDigit b) : NoDigit (b :: r) := by
  rintro c ⟨⟩
  exact h

theorem IsExponent.noDigit_append {e : Bytes} (h : IsExponent e) (hr : Ended r) :
    NoDigit (e ++ r) := by
  rcases h with rfl | ⟨mark, sign, ds, hmark, -, -, rfl⟩
  · exact hr.noDigit
  · rcases hmark with rfl | rfl <;> exact noDigit_cons (by decide)

theorem IsDigits.exists_cons {ds : Bytes} (h : IsDigits ds) :
    ∃ b more, ds = b :: more ∧ Ascii.isDigit b ∧ ∀ c ∈ more, Ascii.isDigit c := by
  obtain ⟨hne, hd⟩ := h
  obtain ⟨b, more, rfl⟩ := List.exists_cons_of_ne_nil hne
  exact ⟨b, more, rfl, List.forall_mem_cons.mp hd⟩

namespace Numeral

variable (atEnd : Reason)

theorem dropDigits_append {ds : Bytes} (hd : ∀ b ∈ ds, Ascii.isDigit b) (hr : NoDigit r) :
    (dropDigits (ds ++ r)).1 = r := by
  change (ds ++ r).dropWhile Ascii.isDigit = r
  rw [List.dropWhile_append_of_pos hd]
  cases r with
  | nil => rfl
  | cons b r => exact List.dropWhile_cons_of_neg (hr b rfl)

theorem exponentDigits_append {ds : Bytes} (hd : IsDigits ds) (hr : NoDigit r) :
    ∃ x, Takes (exponentDigits atEnd (ds ++ r)) x r := by
  obtain ⟨b, more, rfl, hb, hd⟩ := hd.exists_cons
  rw [List.cons_append, exponentDigits, if_pos hb]
  exact ⟨_, takes_ok (dropDigits_append hd hr)⟩

theorem exponentPart_append {sign ds : Bytes}
    (hsign : sign ∈ [[], [Ascii.plus], [Ascii.minus]]) (hd : IsDigits ds) (hr : NoDigit r) :
    ∃ x, Takes (exponentPart atEnd (sign ++ ds ++ r)) x r := by
  obtain ⟨x, hx⟩ := exponentDigits_append atEnd hd hr
  simp only [List.mem_cons, List.not_mem_nil, or_false] at hsign
  rcases hsign with rfl | rfl | rfl
  · obtain ⟨b, more, rfl, hb, -⟩ := hd.exists_cons
    have hunsigned : ¬(b = Ascii.plus ∨ b = Ascii.minus) := by
      rintro (rfl | rfl) <;> exact absurd hb (by decide)
    rw [List.nil_append, List.cons_append, exponentPart, if_neg hunsigned]
    exact ⟨_, hx.map (fun _ => rfl) fun _ => rfl⟩
  all_goals
    rw [List.append_assoc, List.singleton_append, exponentPart, if_pos (by decide)]
    exact ⟨_, hx.map (fun _ => rfl) fun _ => rfl⟩

theorem exponent?_append {e : Bytes} (he : IsExponent e) (hr : Ended r) :
    ∃ x, Takes (exponent? atEnd (e ++ r)) x r := by
  rcases he with rfl | ⟨mark, sign, ds, hmark, hsign, hds, rfl⟩
  · cases r with
    | nil => exact ⟨_, takes_ok rfl⟩
    | cons b r =>
      have hb : ¬isMark b := by
        intro hb
        simp only [isMark, Bool.or_eq_true, beq_iff_eq] at hb
        rcases hb with rfl | rfl <;> exact hr _ rfl (by decide)
      rw [List.nil_append, exponent?, if_neg hb]
      exact ⟨_, takes_ok rfl⟩
  · have hmark : isMark mark := by rcases hmark with rfl | rfl <;> decide
    obtain ⟨x, hx⟩ := exponentPart_append atEnd hsign hds hr.noDigit
    rw [List.cons_append, exponent?, if_pos hmark]
    exact ⟨_, hx.map (fun _ => rfl) fun _ => rfl⟩

theorem fractionPart_append {ds : Bytes} (hd : IsDigits ds) (hr : NoDigit r) :
    ∃ x, Takes (fractionPart atEnd (ds ++ r)) x r := by
  obtain ⟨b, more, rfl, hb, hd⟩ := hd.exists_cons
  rw [List.cons_append, fractionPart, if_pos hb]
  exact ⟨_, takes_ok (dropDigits_append hd hr)⟩

theorem afterWhole_append {fraction exponent : Bytes} (hf : IsFraction fraction)
    (he : IsExponent exponent) (hr : Ended r) (whole : Bytes) :
    ∃ x, Takes (afterWhole atEnd whole (fraction ++ (exponent ++ r))) x r := by
  obtain ⟨e, hexponent⟩ := exponent?_append atEnd he hr
  rcases hf with rfl | ⟨ds, hds, rfl⟩
  · have hpoint : ∀ b ∈ (exponent ++ r).head?, b ≠ Ascii.point := by
      rintro b hb rfl
      rcases he with rfl | ⟨mark, sign, ds, hmark, -, -, rfl⟩
      · exact hr _ hb (by decide)
      · cases hb
        exact absurd hmark (by decide)
    rw [List.nil_append]
    generalize exponent ++ r = t at hexponent hpoint
    cases t with
    | nil =>
      obtain ⟨h, -⟩ := hexponent
      obtain rfl := List.eq_nil_of_length_eq_zero (Nat.le_zero.mp h)
      exact ⟨_, takes_ok rfl⟩
    | cons b t =>
      rw [afterWhole, if_neg (hpoint b rfl)]
      exact ⟨_, hexponent.map (fun _ => rfl) fun _ => rfl⟩
  · obtain ⟨x, hx, hfraction⟩ :=
      fractionPart_append atEnd hds (he.noDigit_append hr)
    obtain ⟨h, hexponent⟩ := hexponent
    rw [List.cons_append, afterWhole, if_pos rfl, hfraction, Stopping.ok_bind]
    dsimp only
    rw [hexponent, Stopping.ok_bind]
    exact ⟨_, takes_ok rfl⟩

/-- A number without its sign is read to its end. -/
theorem read_append {whole fraction exponent : Bytes} (hw : IsWhole whole)
    (hf : IsFraction fraction) (he : IsExponent exponent) (hr : Ended r) :
    ∃ x, Takes (read atEnd (whole ++ (fraction ++ (exponent ++ r)))) x r := by
  have hfront : NoDigit (fraction ++ (exponent ++ r)) := by
    rcases hf with rfl | ⟨ds, -, rfl⟩
    · exact he.noDigit_append hr
    · exact noDigit_cons (by decide)
  obtain ⟨hd, hzero⟩ := hw
  obtain ⟨b, more, rfl, hb, hd⟩ := hd.exists_cons
  have hdrop := dropDigits_append hd hfront
  by_cases hb0 : b = Ascii.zero
  · obtain ⟨rfl, rfl⟩ := List.cons.inj (hzero (congrArg some hb0))
    obtain ⟨x, hx⟩ := afterWhole_append atEnd hf he hr [Ascii.zero]
    rw [List.singleton_append]
    generalize fraction ++ (exponent ++ r) = t at hfront hx
    unfold read
    dsimp only
    rw [if_pos rfl]
    cases t with
    | nil =>
      obtain ⟨h, -⟩ := hx
      obtain rfl := List.eq_nil_of_length_eq_zero (Nat.le_zero.mp h)
      exact ⟨_, takes_ok rfl⟩
    | cons d t =>
      dsimp only
      rw [if_neg (hfront d rfl)]
      exact ⟨_, hx.map (fun _ => rfl) fun _ => rfl⟩
  · have hafter := afterWhole_append atEnd hf he hr
    rw [← hdrop] at hafter
    rw [List.cons_append]
    unfold read
    dsimp only
    rw [if_neg hb0, if_pos hb]
    obtain ⟨x, hx⟩ := hafter _
    exact ⟨_, hx.map (fun _ => rfl) fun _ => rfl⟩

end Numeral

/-! ## Strings -/

theorem exists_hexCode? {a b c d : UInt8} (ha : IsHexDigit a) (hb : IsHexDigit b)
    (hc : IsHexDigit c) (hd : IsHexDigit d) : ∃ n, hexCode? a b c d = some n := by
  obtain ⟨i, hi⟩ := Option.isSome_iff_exists.mp ha
  obtain ⟨j, hj⟩ := Option.isSome_iff_exists.mp hb
  obtain ⟨k, hk⟩ := Option.isSome_iff_exists.mp hc
  obtain ⟨l, hl⟩ := Option.isSome_iff_exists.mp hd
  simp only [hexCode?, hi, hj, hk, hl]
  exact ⟨_, rfl⟩

namespace Quotation

theorem hexEscape_of_code {a b c d : UInt8} {n : Nat} (h : hexCode? a b c d = some n) (r : Bytes) :
    Takes (hexEscape (a :: b :: c :: d :: r)) n r := by
  unfold hexCode? at h
  unfold hexEscape
  split at h
  · next ha hb hc hd =>
    cases h
    simp only [ha, hb, hc, hd]
    exact takes_ok rfl
  · cases h

/-- A letter behind a backslash is read as what it stands for. -/
theorem escape_of_mem {c b : UInt8} (h : (c, b) ∈ escapes) (r : Bytes) :
    Takes (escape (c :: r)) [b] r := by
  simp only [escapes, List.mem_cons, List.not_mem_nil, or_false, Prod.mk.injEq] at h
  rcases h with ⟨rfl, rfl⟩ | ⟨rfl, rfl⟩ | ⟨rfl, rfl⟩ | ⟨rfl, rfl⟩ | ⟨rfl, rfl⟩ | ⟨rfl, rfl⟩ |
    ⟨rfl, rfl⟩ | ⟨rfl, rfl⟩
  all_goals exact takes_ok rfl

/-- One number names a character of the first plane. -/
theorem escape_of_code {a b c d : UInt8} {n : Nat} (hn : hexCode? a b c d = some n)
    (hleading : isLeading n = false) (htrailing : isTrailing n = false) (r : Bytes) :
    Takes (escape (0x75 :: a :: b :: c :: d :: r)) (String.utf8EncodeChar (Char.ofNat n)) r := by
  obtain ⟨h, hcode⟩ := hexEscape_of_code hn r
  have hread : Takes (unicodeEscape (a :: b :: c :: d :: r))
      (String.utf8EncodeChar (Char.ofNat n)) r := by
    rw [unicodeEscape, hcode, Stopping.ok_bind]
    dsimp only
    rw [htrailing, hleading]
    exact takes_ok rfl
  exact hread.map (fun _ => rfl) fun _ => rfl

theorem pairMark_cons (mark : UInt8) (r : Bytes) : Leaves (pairMark mark (mark :: r)) r := by
  rw [pairMark, if_pos rfl]
  exact leaves_ok rfl

/-- Two numbers name a character beyond it. -/
theorem escape_of_pair {a b c d a' b' c' d' : UInt8} {n m : Nat} (hn : hexCode? a b c d = some n)
    (hleading : isLeading n) (hm : hexCode? a' b' c' d' = some m) (htrailing : isTrailing m)
    (r : Bytes) :
    Takes (escape (0x75 :: a :: b :: c :: d :: Ascii.backslash :: 0x75 :: a' :: b' :: c' :: d' :: r))
      (String.utf8EncodeChar (Char.ofNat (joinPair n m))) r := by
  obtain ⟨h, hcode⟩ :=
    hexEscape_of_code hn (Ascii.backslash :: 0x75 :: a' :: b' :: c' :: d' :: r)
  obtain ⟨h₁, hback⟩ := pairMark_cons Ascii.backslash (0x75 :: a' :: b' :: c' :: d' :: r)
  obtain ⟨h₂, hmark⟩ := pairMark_cons 0x75 (a' :: b' :: c' :: d' :: r)
  obtain ⟨h₃, hcode'⟩ := hexEscape_of_code hm r
  have hapart : isTrailing n = false := by
    simp only [isLeading, isTrailing, Bool.and_eq_true, decide_eq_true_eq] at hleading ⊢
    simp only [Bool.and_eq_false_iff, decide_eq_false_iff_not]
    omega
  have hread : Takes (unicodeEscape (a :: b :: c :: d ::
      Ascii.backslash :: 0x75 :: a' :: b' :: c' :: d' :: r))
      (String.utf8EncodeChar (Char.ofNat (joinPair n m))) r := by
    rw [unicodeEscape, hcode, Stopping.ok_bind]
    dsimp only
    rw [hapart, hleading, if_neg (by decide), if_pos rfl]
    rw [hback, Stopping.ok_bind, hmark, Stopping.ok_bind, hcode', Stopping.ok_bind]
    dsimp only
    rw [htrailing, if_pos rfl]
    exact takes_ok rfl
  generalize String.utf8EncodeChar (Char.ofNat (joinPair n m)) = bytes at hread ⊢
  exact hread.map (fun _ => rfl) fun _ => rfl

theorem body_escape (front : Bytes) {bytes out read t : Bytes}
    (hescape : Takes (escape (front ++ t)) bytes t)
    (hbody : Takes (body (bytes.reverse ++ read) t) out r) :
    Takes (body read (Ascii.backslash :: (front ++ t))) out r := by
  obtain ⟨h, hescape⟩ := hescape
  obtain ⟨h', hbody⟩ := hbody
  unfold body
  rw [if_neg (by decide), if_pos rfl, hescape, Stopping.ok_bind]
  dsimp only
  rw [hbody, Stopping.ok_bind]
  exact takes_ok rfl

/-- A string is read to its closing mark. -/
theorem body_append {raw bytes : Bytes} (h : Unquoted raw bytes) (read r : Bytes) :
    Takes (body read (raw ++ Ascii.quote :: r)) (read.reverse ++ bytes) r := by
  induction h generalizing read with
  | nil =>
    rw [List.nil_append, List.append_nil]
    unfold body
    rw [if_pos rfl]
    exact takes_ok rfl
  | @plain b s t hb hquote hback _ ih =>
    rw [List.cons_append]
    unfold body
    rw [if_neg hquote, if_neg hback, if_neg (UInt8.not_lt.mpr hb)]
    have hrest := ih (b :: read)
    rw [List.reverse_cons, List.append_assoc, List.singleton_append] at hrest
    exact hrest.map (fun _ => rfl) fun _ => rfl
  | @escape c b s t hc _ ih =>
    have hrest := ih ([b].reverse ++ read)
    rw [List.reverse_append, List.reverse_reverse, List.append_assoc] at hrest
    exact body_escape [c] (escape_of_mem hc _) hrest
  | @unicode a b c d n s t hn hleading htrailing _ ih =>
    have hrest := ih ((String.utf8EncodeChar (Char.ofNat n)).reverse ++ read)
    rw [List.reverse_append, List.reverse_reverse, List.append_assoc] at hrest
    exact body_escape [0x75, a, b, c, d]
      (escape_of_code hn hleading htrailing _) hrest
  | @pair a b c d n a' b' c' d' m s t hn hleading hm htrailing _ ih =>
    have hrest := ih ((String.utf8EncodeChar (Char.ofNat (joinPair n m))).reverse ++ read)
    rw [List.reverse_append, List.reverse_reverse, List.append_assoc] at hrest
    exact body_escape [0x75, a, b, c, d, Ascii.backslash, 0x75, a', b', c', d']
      (escape_of_pair hn hleading hm htrailing _) hrest

end Quotation

theorem quotation_append {raw : Bytes} {text : String} (h : Denotes raw text) (r : Bytes) :
    Takes (quotation (raw ++ Ascii.quote :: r)) text r := by
  obtain ⟨bytes, hraw, htext⟩ := h
  obtain ⟨h, hbody⟩ := Quotation.body_append hraw [] r
  rw [List.reverse_nil, List.nil_append] at hbody
  unfold quotation
  rw [hbody, Stopping.ok_bind]
  dsimp only
  rw [htext]
  exact takes_ok rfl

namespace Skip

theorem string_escape (front : Bytes) {t : Bytes} (hescape : Leaves (escape (front ++ t)) t)
    (hstring : Leaves (string t) r) : Leaves (string (Ascii.backslash :: (front ++ t))) r := by
  obtain ⟨h, hescape⟩ := hescape
  obtain ⟨h', hstring⟩ := hstring
  unfold string
  rw [if_neg (by decide), if_pos rfl, hescape, Stopping.ok_bind]
  dsimp only
  rw [hstring, Stopping.ok_bind]
  exact leaves_ok rfl

/-- A string is passed over to its closing mark, whatever its escapes stand for. -/
theorem string_append {raw : Bytes} (h : Quoted raw) (r : Bytes) :
    Leaves (string (raw ++ Ascii.quote :: r)) r := by
  induction h with
  | nil =>
    rw [List.nil_append]
    unfold string
    rw [if_pos rfl]
    exact leaves_ok rfl
  | plain hb hquote hback _ ih =>
    rw [List.cons_append]
    unfold string
    rw [if_neg hquote, if_neg hback, if_neg (UInt8.not_lt.mpr hb)]
    exact ih.map fun _ => rfl
  | @escape c s hc _ ih =>
    have hmark : c ≠ 0x75 := by
      rintro rfl
      exact absurd hc (by decide)
    refine string_escape [c] ?_ ih
    rw [List.singleton_append, escape, if_neg hmark, if_pos hc]
    exact leaves_ok rfl
  | @unicode a b c d s ha hb hc hd _ ih =>
    obtain ⟨n, hn⟩ := exists_hexCode? ha hb hc hd
    refine string_escape [0x75, a, b, c, d] ?_ ih
    obtain ⟨h, hcode⟩ := Quotation.hexEscape_of_code hn (s ++ Ascii.quote :: r)
    change Leaves (escape (0x75 :: a :: b :: c :: d :: (s ++ Ascii.quote :: r))) _
    rw [escape, if_pos rfl, hcode]
    exact leaves_ok rfl

end Skip
end TypedCollections.Json
