import Mathlib.Data.List.TakeWhile
import TypedCollections.Json.Skip
import TypedCollections.Proofs.Json.Grammar
import TypedCollections.Proofs.Stopping

/-!
What the readers of single tokens accept. Each takes a token of the grammar from the front of its
text and leaves the rest. A string is read in two ways, with its escapes replaced or only passed
over; `Unquoted` tells what the bytes between the quotation marks stand for.
-/
namespace TypedCollections.Json

/-! ## White space, words and numbers -/

theorem exists_blank_append_skipBlank (s : Bytes) :
    ∃ before, Blank before ∧ s = before ++ skipBlank s :=
  ⟨s.takeWhile isSeparator, fun _ hb => List.mem_takeWhile_imp hb,
    (List.takeWhile_append_dropWhile).symm⟩

theorem literal_ok {letters s : Bytes} {r : Tail s} (h : literal letters s = .ok r) :
    s = letters ++ r.1 := by
  induction letters generalizing s with
  | nil =>
    cases h
    rfl
  | cons c letters ih =>
    cases s with
    | nil => cases h
    | cons b s =>
      rw [literal] at h
      split at h
      · next hb =>
        obtain ⟨t, ht, rfl⟩ := Stopping.map_ok h
        rw [hb, List.cons_append, ← ih ht]
      · cases h

namespace Numeral

variable {atEnd : Reason} {s : Bytes}

theorem isDigits_cons_takeWhile {b : UInt8} (h : Ascii.isDigit b) (s : Bytes) :
    IsDigits (b :: s.takeWhile Ascii.isDigit) :=
  ⟨List.cons_ne_nil _ _, List.forall_mem_cons.mpr ⟨h, fun _ hc => List.mem_takeWhile_imp hc⟩⟩

theorem exponentDigits_ok {ds : Bytes} {r : Rest s} (h : exponentDigits atEnd s = .ok (ds, r)) :
    IsDigits ds ∧ s = ds ++ r.1 := by
  cases s with
  | nil => cases h
  | cons b s =>
    rw [exponentDigits] at h
    split at h
    · next hb =>
      cases h
      exact ⟨isDigits_cons_takeWhile hb s,
        congrArg (b :: ·) (List.takeWhile_append_dropWhile).symm⟩
    · cases h

theorem exponent?_ok {e : Option (Bool × Bytes)} {r : Tail s} (h : exponent? atEnd s = .ok (e, r)) :
    ∃ text, IsExponent text ∧ s = text ++ r.1 := by
  cases s with
  | nil =>
    cases h
    exact ⟨[], .inl rfl, rfl⟩
  | cons mark s =>
    rw [exponent?] at h
    split at h
    · next hmark =>
      have hmark : mark = 0x65 ∨ mark = 0x45 := by simpa [isMark] using hmark
      obtain ⟨⟨e, t⟩, hpart, h⟩ := Stopping.map_ok h
      cases h
      cases s with
      | nil => cases hpart
      | cons b s =>
        rw [exponentPart] at hpart
        split at hpart
        · next hsign =>
          obtain ⟨⟨ds, u⟩, hdigits, hpart⟩ := Stopping.map_ok hpart
          cases hpart
          obtain ⟨hds, hs⟩ := exponentDigits_ok hdigits
          refine ⟨mark :: ([b] ++ ds), .inr ⟨mark, [b], ds, hmark, ?_, hds, rfl⟩, ?_⟩
          · rcases hsign with rfl | rfl <;> decide
          · exact congrArg (mark :: b :: ·) hs
        · obtain ⟨⟨ds, u⟩, hdigits, hpart⟩ := Stopping.map_ok hpart
          cases hpart
          obtain ⟨hds, hs⟩ := exponentDigits_ok hdigits
          exact ⟨mark :: ([] ++ ds), .inr ⟨mark, [], ds, hmark, by decide, hds, rfl⟩,
            congrArg (mark :: ·) hs⟩
    · cases h
      exact ⟨[], .inl rfl, rfl⟩

theorem fractionPart_ok {ds : Bytes} {r : Tail s} (h : fractionPart atEnd s = .ok (ds, r)) :
    IsDigits ds ∧ s = ds ++ r.1 := by
  cases s with
  | nil => cases h
  | cons b s =>
    rw [fractionPart] at h
    split at h
    · next hb =>
      cases h
      exact ⟨isDigits_cons_takeWhile hb s,
        congrArg (b :: ·) (List.takeWhile_append_dropWhile).symm⟩
    · cases h

/-- After the whole part, a number is read to its end, with or without the sign that was read
before. -/
theorem afterWhole_ok {whole : Bytes} {x : Numeral} {r : Tail s} (hwhole : IsWhole whole)
    (h : afterWhole atEnd whole s = .ok (x, r)) :
    ∃ text, IsNumber (whole ++ text) ∧ IsNumber (Ascii.minus :: (whole ++ text)) ∧
      s = text ++ r.1 := by
  have hnumber {fraction exponent : Bytes} (hf : IsFraction fraction) (he : IsExponent exponent) :
      IsNumber (whole ++ (fraction ++ exponent)) ∧
        IsNumber (Ascii.minus :: (whole ++ (fraction ++ exponent))) :=
    ⟨⟨[], whole, fraction, exponent, by decide, hwhole, hf, he, rfl⟩,
      ⟨[Ascii.minus], whole, fraction, exponent, by decide, hwhole, hf, he, rfl⟩⟩
  cases s with
  | nil =>
    cases h
    obtain ⟨hplain, hsigned⟩ := hnumber (.inl rfl) (.inl rfl)
    exact ⟨[], hplain, hsigned, rfl⟩
  | cons b s =>
    rw [afterWhole] at h
    split at h
    · next hpoint =>
      obtain ⟨⟨ds, t⟩, hfraction, h⟩ := Stopping.bind_ok h
      obtain ⟨⟨e, u⟩, hexponent, h⟩ := Stopping.bind_ok h
      cases h
      obtain ⟨hds, hs⟩ := fractionPart_ok hfraction
      obtain ⟨text, htext, ht⟩ := exponent?_ok hexponent
      obtain ⟨hplain, hsigned⟩ := hnumber (.inr ⟨ds, hds, rfl⟩) htext
      refine ⟨Ascii.point :: ds ++ text, hplain, hsigned, ?_⟩
      rw [hpoint, List.append_assoc, ← ht]
      exact congrArg (Ascii.point :: ·) hs
    · obtain ⟨⟨e, u⟩, hexponent, h⟩ := Stopping.map_ok h
      cases h
      obtain ⟨text, htext, ht⟩ := exponent?_ok hexponent
      obtain ⟨hplain, hsigned⟩ := hnumber (.inl rfl) htext
      exact ⟨text, hplain, hsigned, ht⟩

theorem read_ok {x : Numeral} {r : Rest s} (h : read atEnd s = .ok (x, r)) :
    ∃ text, IsNumber text ∧ IsNumber (Ascii.minus :: text) ∧ s = text ++ r.1 := by
  have hzero : IsWhole [Ascii.zero] := ⟨⟨by decide, by decide⟩, fun _ => rfl⟩
  cases s with
  | nil => cases h
  | cons b s =>
    unfold read at h
    dsimp only at h
    split at h
    · next hb =>
      subst hb
      cases s with
      | nil =>
        cases h
        exact ⟨[Ascii.zero], ⟨[], [Ascii.zero], [], [], by decide, hzero, .inl rfl, .inl rfl, rfl⟩,
          ⟨[Ascii.minus], [Ascii.zero], [], [], by decide, hzero, .inl rfl, .inl rfl, rfl⟩, rfl⟩
      | cons d t =>
        dsimp only at h
        split at h
        · cases h
        · obtain ⟨⟨y, u⟩, hafter, h⟩ := Stopping.map_ok h
          cases h
          obtain ⟨text, hplain, hsigned, ht⟩ := afterWhole_ok hzero hafter
          exact ⟨Ascii.zero :: text, hplain, hsigned, congrArg (Ascii.zero :: ·) ht⟩
    · next hb =>
      split at h
      · next hdigit =>
        obtain ⟨⟨y, u⟩, hafter, h⟩ := Stopping.map_ok h
        cases h
        have hwhole : IsWhole (b :: s.takeWhile Ascii.isDigit) :=
          ⟨isDigits_cons_takeWhile hdigit s, fun hz => absurd (Option.some.inj hz) hb⟩
        obtain ⟨text, hplain, hsigned, ht⟩ := afterWhole_ok hwhole hafter
        refine ⟨_, hplain, hsigned, ?_⟩
        rw [List.append_assoc, ← ht]
        exact congrArg (b :: ·) (List.takeWhile_append_dropWhile).symm
      · cases h

end Numeral

/-! ## Strings -/

/-- The bytes that stand for themselves or for a control character behind a backslash. -/
def escapes : List (UInt8 × UInt8) :=
  [(Ascii.quote, Ascii.quote), (Ascii.backslash, Ascii.backslash), (Ascii.slash, Ascii.slash),
    (0x62, 0x08), (0x66, Ascii.formFeed), (0x6e, Ascii.lineFeed), (0x72, Ascii.carriageReturn),
    (0x74, Ascii.tab)]

/-- The number that four hexadecimal digits spell. -/
def hexCode? (a b c d : UInt8) : Option Nat :=
  match Ascii.hexValue? a, Ascii.hexValue? b, Ascii.hexValue? c, Ascii.hexValue? d with
  | some a, some b, some c, some d => some (((a * 16 + b) * 16 + c) * 16 + d)
  | _, _, _, _ => none

/-- What the bytes between quotation marks stand for. A character that is named by its number is
written in UTF-8; one beyond the first plane is named by two numbers. -/
inductive Unquoted : Bytes → Bytes → Prop
  | nil : Unquoted [] []
  | plain {b s t} : 0x20 ≤ b → b ≠ Ascii.quote → b ≠ Ascii.backslash → Unquoted s t →
      Unquoted (b :: s) (b :: t)
  | escape {c b s t} : (c, b) ∈ escapes → Unquoted s t →
      Unquoted (Ascii.backslash :: c :: s) (b :: t)
  | unicode {a b c d n s t} : hexCode? a b c d = some n → Quotation.isLeading n = false →
      Quotation.isTrailing n = false → Unquoted s t →
      Unquoted (Ascii.backslash :: 0x75 :: a :: b :: c :: d :: s)
        (String.utf8EncodeChar (Char.ofNat n) ++ t)
  | pair {a b c d n a' b' c' d' m s t} : hexCode? a b c d = some n → Quotation.isLeading n →
      hexCode? a' b' c' d' = some m → Quotation.isTrailing m → Unquoted s t →
      Unquoted (Ascii.backslash :: 0x75 :: a :: b :: c :: d ::
          Ascii.backslash :: 0x75 :: a' :: b' :: c' :: d' :: s)
        (String.utf8EncodeChar (Char.ofNat (Quotation.joinPair n m)) ++ t)

/-- The text of a key or a string. -/
def Denotes (raw : Bytes) (text : String) : Prop :=
  ∃ bytes, Unquoted raw bytes ∧ Utf8.decode bytes = .ok text

theorem isHexDigit_of_hexCode? {a b c d : UInt8} {n : Nat} (h : hexCode? a b c d = some n) :
    IsHexDigit a ∧ IsHexDigit b ∧ IsHexDigit c ∧ IsHexDigit d := by
  unfold hexCode? at h
  split at h
  · next ha hb hc hd => simp [IsHexDigit, ha, hb, hc, hd]
  · cases h

theorem Unquoted.quoted {raw bytes : Bytes} (h : Unquoted raw bytes) : Quoted raw := by
  have hletters : ∀ e ∈ escapes, e.1 ∈
      [Ascii.quote, Ascii.backslash, Ascii.slash, 0x62, 0x66, 0x6e, 0x72, 0x74] := by decide
  induction h with
  | nil => exact .nil
  | plain hb hq hs _ ih => exact .plain hb hq hs ih
  | escape hc _ ih => exact .escape (hletters _ hc) ih
  | unicode hcode _ _ _ ih =>
    obtain ⟨ha, hb, hc, hd⟩ := isHexDigit_of_hexCode? hcode
    exact .unicode ha hb hc hd ih
  | pair hcode _ hcode' _ _ ih =>
    obtain ⟨ha, hb, hc, hd⟩ := isHexDigit_of_hexCode? hcode
    obtain ⟨ha', hb', hc', hd'⟩ := isHexDigit_of_hexCode? hcode'
    exact .unicode ha hb hc hd (.unicode ha' hb' hc' hd' ih)

/-- What the bytes stand for is determined: the byte behind a backslash tells the kind of escape. -/
theorem Unquoted.unique {raw bytes bytes' : Bytes} (h : Unquoted raw bytes)
    (h' : Unquoted raw bytes') : bytes = bytes' := by
  have hletters : ∀ e ∈ escapes, e.1 ≠ 0x75 ∧ ∀ e' ∈ escapes, e.1 = e'.1 → e.2 = e'.2 := by decide
  induction h generalizing bytes' with
  | nil =>
    cases h'
    rfl
  | plain _ _ hback _ ih =>
    cases h' with
    | plain _ _ _ hs => rw [ih hs]
    | escape | unicode | pair => exact absurd rfl hback
  | escape hc _ ih =>
    cases h' with
    | plain _ _ hback => exact absurd rfl hback
    | escape hc' hs => exact congrArg₂ List.cons ((hletters _ hc).2 _ hc' rfl) (ih hs)
    | unicode | pair => exact absurd rfl (hletters _ hc).1
  | unicode hcode hleading _ _ ih =>
    cases h' with
    | plain _ _ hback => exact absurd rfl hback
    | escape hc => exact absurd rfl (hletters _ hc).1
    | unicode hcode' _ _ hs =>
      obtain rfl := Option.some.inj (hcode.symm.trans hcode')
      rw [ih hs]
    | pair hcode' hleading' =>
      obtain rfl := Option.some.inj (hcode.symm.trans hcode')
      rw [hleading] at hleading'
      cases hleading'
  | pair hcode hleading hcode₂ _ _ ih =>
    cases h' with
    | plain _ _ hback => exact absurd rfl hback
    | escape hc => exact absurd rfl (hletters _ hc).1
    | unicode hcode' hleading' =>
      obtain rfl := Option.some.inj (hcode.symm.trans hcode')
      rw [hleading] at hleading'
      cases hleading'
    | pair hcode' _ hcode₂' _ hs =>
      obtain rfl := Option.some.inj (hcode.symm.trans hcode')
      obtain rfl := Option.some.inj (hcode₂.symm.trans hcode₂')
      rw [ih hs]

namespace Quotation

theorem hexEscape_ok {s : Bytes} {n : Nat} {r : Rest s} (h : hexEscape s = .ok (n, r)) :
    ∃ a b c d, hexCode? a b c d = some n ∧ s = a :: b :: c :: d :: r.1 := by
  unfold hexEscape at h
  split at h
  · next a b c d s =>
    split at h
    · next ha hb hc hd =>
      cases h
      exact ⟨a, b, c, d, by simp [hexCode?, ha, hb, hc, hd], rfl⟩
    · cases h
  · cases h

theorem pairMark_ok {mark : UInt8} {s : Bytes} {r : Rest s} (h : pairMark mark s = .ok r) :
    s = mark :: r.1 := by
  cases s with
  | nil => cases h
  | cons b s =>
    rw [pairMark] at h
    split at h
    · next hb =>
      cases h
      rw [hb]
    · cases h

theorem unicodeEscape_ok {s bytes : Bytes} {r : Rest s} (h : unicodeEscape s = .ok (bytes, r)) :
    ∃ front, s = front ++ r.1 ∧ ∀ raw out, Unquoted raw out →
      Unquoted (Ascii.backslash :: 0x75 :: (front ++ raw)) (bytes ++ out) := by
  obtain ⟨⟨n, r₁⟩, hcode, h⟩ := Stopping.bind_ok h
  obtain ⟨a, b, c, d, hn, hs⟩ := hexEscape_ok hcode
  simp only at h
  split at h
  · cases h
  next htrailing =>
  split at h
  · next hleading =>
    obtain ⟨r₂, hback, h⟩ := Stopping.bind_ok h
    obtain ⟨r₃, hmark, h⟩ := Stopping.bind_ok h
    obtain ⟨⟨m, r₄⟩, hcode', h⟩ := Stopping.bind_ok h
    obtain ⟨a', b', c', d', hm, hs'⟩ := hexEscape_ok hcode'
    simp only at h
    split at h
    · next hpaired =>
      obtain ⟨rfl, rfl⟩ := Prod.mk.inj (Except.ok.inj h)
      have hpair : r₁.1 = Ascii.backslash :: 0x75 :: r₃.1 :=
        (pairMark_ok hback).trans (congrArg (Ascii.backslash :: ·) (pairMark_ok hmark))
      exact ⟨[a, b, c, d, Ascii.backslash, 0x75, a', b', c', d'],
        hs.trans (congrArg ([a, b, c, d] ++ ·)
          (hpair.trans (congrArg ([Ascii.backslash, 0x75] ++ ·) hs'))),
        fun raw out hraw => .pair hn hleading hm hpaired hraw⟩
    · cases h
  · next hleading =>
    cases h
    exact ⟨[a, b, c, d], hs, fun raw out hraw =>
      .unicode hn (Bool.eq_false_iff.mpr hleading) (Bool.eq_false_iff.mpr htrailing) hraw⟩

theorem escape_ok {s bytes : Bytes} {r : Rest s} (h : escape s = .ok (bytes, r)) :
    ∃ front, s = front ++ r.1 ∧ ∀ raw out, Unquoted raw out →
      Unquoted (Ascii.backslash :: (front ++ raw)) (bytes ++ out) := by
  cases s with
  | nil => cases h
  | cons c s =>
    have hone {b : UInt8} (hb : (c, b) ∈ escapes)
        (h : (.ok ([b], ⟨s, length_lt_cons _ _⟩) : Except Fault (Bytes × Rest (c :: s))) =
          .ok (bytes, r)) :
        ∃ front, c :: s = front ++ r.1 ∧ ∀ raw out, Unquoted raw out →
          Unquoted (Ascii.backslash :: (front ++ raw)) (bytes ++ out) := by
      cases h
      exact ⟨[c], rfl, fun raw out hraw => .escape hb hraw⟩
    rw [escape] at h
    split at h
    · next hc => exact hone (by rcases hc with rfl | rfl | rfl <;> decide) h
    split at h
    · next hc => exact hone (by rw [hc]; decide) h
    split at h
    · next hc => exact hone (by rw [hc]; decide) h
    split at h
    · next hc => exact hone (by rw [hc]; decide) h
    split at h
    · next hc => exact hone (by rw [hc]; decide) h
    split at h
    · next hc => exact hone (by rw [hc]; decide) h
    split at h
    · next hc =>
      obtain ⟨⟨bs, t⟩, hunicode, h⟩ := Stopping.map_ok h
      cases h
      obtain ⟨front, hs, hfront⟩ := unicodeEscape_ok hunicode
      refine ⟨c :: front, congrArg (c :: ·) hs, fun raw out hraw => ?_⟩
      rw [hc]
      exact hfront raw out hraw
    · cases h

/-- What is read up to the closing mark is put behind the bytes before it. -/
theorem body_ok (read : Bytes) : (s : Bytes) → {bytes : Bytes} → {r : Rest s} →
    body read s = .ok (bytes, r) →
    ∃ raw out, Unquoted raw out ∧ s = raw ++ Ascii.quote :: r.1 ∧ bytes = read.reverse ++ out
  | [], _, _, h => by
    unfold body at h
    cases h
  | b :: s, _, _, h => by
    unfold body at h
    split at h
    · next hb =>
      cases h
      exact ⟨[], [], .nil, by rw [hb]; rfl, (List.append_nil _).symm⟩
    split at h
    · next hb =>
      obtain ⟨⟨escaped, t, ht⟩, hescape, h⟩ := Stopping.bind_ok h
      obtain ⟨⟨all, u⟩, hbody, h⟩ := Stopping.bind_ok h
      cases h
      obtain ⟨front, hs, hfront⟩ := escape_ok hescape
      obtain ⟨raw, out, hraw, hrest, hall⟩ := body_ok _ t hbody
      refine ⟨Ascii.backslash :: (front ++ raw), escaped ++ out, hfront raw out hraw, ?_, ?_⟩
      · rw [hb, List.cons_append, List.append_assoc]
        exact congrArg (Ascii.backslash :: ·) (hs.trans (congrArg (front ++ ·) hrest))
      · simpa using hall
    next hquote hback =>
    split at h
    · cases h
    · next hb =>
      obtain ⟨⟨all, t⟩, hbody, h⟩ := Stopping.map_ok h
      cases h
      obtain ⟨raw, out, hraw, hs, hall⟩ := body_ok _ s hbody
      exact ⟨b :: raw, b :: out, .plain (UInt8.not_lt.mp hb) hquote hback hraw,
        congrArg (b :: ·) hs, by simpa using hall⟩
termination_by s => s.length

end Quotation

theorem quotation_ok {s : Bytes} {text : String} {r : Rest s} (h : quotation s = .ok (text, r)) :
    ∃ raw, Denotes raw text ∧ s = raw ++ Ascii.quote :: r.1 := by
  obtain ⟨⟨bytes, t⟩, hbody, h⟩ := Stopping.bind_ok h
  obtain ⟨raw, out, hraw, hs, hbytes⟩ := Quotation.body_ok [] s hbody
  simp only at h
  split at h
  · next htext =>
    cases h
    rw [hbytes] at htext
    exact ⟨raw, ⟨out, hraw, htext⟩, hs⟩
  · cases h

/-- Without a backslash the bytes stand for themselves. -/
theorem unquoted_of_notMem {s : Bytes} (h : Quoted s) (hs : Ascii.backslash ∉ s) :
    Unquoted s s := by
  induction h with
  | nil => exact .nil
  | plain hb hquote hback _ ih =>
    exact .plain hb hquote hback (ih fun hm => hs (List.mem_cons_of_mem _ hm))
  | escape | unicode => exact absurd List.mem_cons_self hs

theorem Denotes.unique {raw : Bytes} {text text' : String} (h : Denotes raw text)
    (h' : Denotes raw text') : text = text' := by
  obtain ⟨bytes, hraw, htext⟩ := h
  obtain ⟨bytes', hraw', htext'⟩ := h'
  obtain rfl := hraw.unique hraw'
  exact Except.ok.inj (htext.symm.trans htext')

theorem Denotes.quoted {raw : Bytes} {text : String} (h : Denotes raw text) : Quoted raw := by
  obtain ⟨bytes, hraw, -⟩ := h
  exact hraw.quoted

namespace Skip

theorem escape_ok {s : Bytes} {r : Rest s} (h : escape s = .ok r) :
    ∃ front, s = front ++ r.1 ∧ ∀ raw, Quoted raw → Quoted (Ascii.backslash :: (front ++ raw)) := by
  cases s with
  | nil => cases h
  | cons c s =>
    rw [escape] at h
    split at h
    · next hc =>
      obtain ⟨⟨n, t⟩, hcode, h⟩ := Stopping.map_ok h
      cases h
      obtain ⟨a, b, d, e, hn, hs⟩ := Quotation.hexEscape_ok hcode
      obtain ⟨ha, hb, hd, he⟩ := isHexDigit_of_hexCode? hn
      refine ⟨[c, a, b, d, e], congrArg (c :: ·) hs, fun raw hraw => ?_⟩
      rw [hc]
      exact .unicode ha hb hd he hraw
    split at h
    · next hc =>
      cases h
      exact ⟨[c], rfl, fun raw hraw => .escape hc hraw⟩
    · cases h

theorem string_ok : (s : Bytes) → {r : Rest s} → string s = .ok r →
    ∃ raw, Quoted raw ∧ s = raw ++ Ascii.quote :: r.1
  | [], _, h => by
    unfold string at h
    cases h
  | b :: s, _, h => by
    unfold string at h
    split at h
    · next hb =>
      cases h
      exact ⟨[], .nil, by rw [hb]; rfl⟩
    split at h
    · next hb =>
      obtain ⟨⟨t, ht⟩, hescape, h⟩ := Stopping.bind_ok h
      obtain ⟨u, hstring, h⟩ := Stopping.bind_ok h
      cases h
      obtain ⟨front, hs, hfront⟩ := escape_ok hescape
      obtain ⟨raw, hraw, hrest⟩ := string_ok t hstring
      refine ⟨Ascii.backslash :: (front ++ raw), hfront raw hraw, ?_⟩
      rw [hb, List.cons_append, List.append_assoc]
      exact congrArg (Ascii.backslash :: ·) (hs.trans (congrArg (front ++ ·) hrest))
    next hquote hback =>
    split at h
    · cases h
    · next hb =>
      obtain ⟨t, hstring, h⟩ := Stopping.map_ok h
      cases h
      obtain ⟨raw, hraw, hs⟩ := string_ok s hstring
      exact ⟨b :: raw, .plain (UInt8.not_lt.mp hb) hquote hback hraw, congrArg (b :: ·) hs⟩
termination_by s => s.length

end Skip

end TypedCollections.Json
