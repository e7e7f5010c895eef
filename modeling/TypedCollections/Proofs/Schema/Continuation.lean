import TypedCollections.Proofs.Schema.Detection
import TypedCollections.Proofs.Stopping

/-!
Documents that go on. A scan that has come to a verdict never looks at what follows, and one that
has not goes on from where the text was cut, be it within a string or behind a backslash. So a
verdict that was found within the text is the verdict on every longer text; and a text that ends
before its list does is classified by the one key it has used, which no more text can take back:
from then on the scan finds the same dialect, or refuses the document.
-/

namespace TypedCollections.Schema.Dialect

/-- The verdicts that are found within a text, not at its end. -/
inductive IsFinal : Verdict → Prop
  | unknown : IsFinal (.ok .unknown)
  | mixed (fieldsIndex schemaIndex : Nat) : IsFinal (.error (.mixed fieldsIndex schemaIndex))
  | mismatched (offset : Nat) : IsFinal (.error (.unscannable offset .mismatchedBracket))

/-- A verdict on a longer text than one of the dialect: it is of the dialect, or it is refused. -/
inductive Upholds (d : Dialect) : Verdict → Prop
  | same : Upholds d (.ok d)
  | mixed (fieldsIndex schemaIndex : Nat) : Upholds d (.error (.mixed fieldsIndex schemaIndex))
  | mismatched (offset : Nat) : Upholds d (.error (.unscannable offset .mismatchedBracket))

/-! ## The keys that have been seen -/

namespace Seen

variable {seen seen' : Seen} {key : Bytes} {collection : Nat}

/-- Not both keys have been seen. -/
def IsSingle (seen : Seen) : Prop := seen.fieldsAt = none ∨ seen.schemaAt = none

theorem IsSingle.dialect_ne_unknown (h : seen.IsSingle) (hused : seen.isEmpty = false) :
    seen.dialect ≠ .unknown := by
  obtain ⟨fieldsAt, schemaAt⟩ := seen
  cases fieldsAt <;> cases schemaAt <;> simp_all [IsSingle, dialect, isEmpty]

theorem dialect_of_isEmpty (h : seen.isEmpty) : seen.dialect = .unknown := by
  obtain ⟨fieldsAt, schemaAt⟩ := seen
  cases fieldsAt <;> cases schemaAt <;> simp_all [dialect, isEmpty]

theorem isSingle_of_settled (h : seen.settled = .ok seen') : seen' = seen ∧ seen.IsSingle := by
  cases hfields : seen.fieldsAt with
  | none =>
    simp only [settled, hfields] at h
    exact ⟨(Except.ok.inj h).symm, .inl hfields⟩
  | some i =>
    cases hschema : seen.schemaAt with
    | none =>
      simp only [settled, hfields, hschema] at h
      exact ⟨(Except.ok.inj h).symm, .inr hschema⟩
    | some j =>
      rw [settled_of_both hfields hschema] at h
      cases h

/-- A key that is recorded leaves one key alone, and cannot change the dialect that is known. -/
theorem record_ok (h : seen.record key collection = .ok seen') :
    seen'.IsSingle ∧ (seen.dialect ≠ .unknown → seen'.dialect = seen.dialect) := by
  rw [record_eq_settled] at h
  obtain ⟨rfl, hsingle⟩ := isSingle_of_settled h
  refine ⟨hsingle, fun hknown => ?_⟩
  obtain ⟨fieldsAt, schemaAt⟩ := seen
  cases fieldsAt <;> cases schemaAt <;> simp_all [IsSingle, dialect]

theorem record_error {v : Verdict} (h : seen.record key collection = .error v) :
    ∃ i j, v = .error (.mixed i j) := by
  rw [record_eq_settled] at h
  generalize Seen.mk _ _ = both at h
  rcases settled_cases both with hok | ⟨i, j, hfields, hschema⟩
  · rw [hok] at h
    cases h
  · rw [settled_of_both hfields hschema] at h
    cases h
    exact ⟨i, j, rfl⟩

end Seen

/-! ## One byte -/

namespace Scan

variable {s t : Scan}

/-- What a byte does to the keys that have been seen. -/
inductive Turn (s : Scan) : Except Verdict Scan → Prop
  | passed {t : Scan} (same : t.seen = s.seen) : Turn s (.ok t)
  | recorded {t : Scan} {key : Bytes} {collection : Nat}
      (noted : s.seen.record key collection = .ok t.seen) : Turn s (.ok t)
  | mixed (fieldsIndex schemaIndex : Nat) : Turn s (.error (.error (.mixed fieldsIndex schemaIndex)))
  | mismatched (offset : Nat) : Turn s (.error (.error (.unscannable offset .mismatchedBracket)))
  | closed : Turn s (.error (.ok s.seen.dialect))

theorem turn_inString (s : Scan) (string : OpenString) (b : UInt8) :
    s.Turn (s.inString string b) := by
  unfold inString
  split
  · exact .passed rfl
  split
  · split
    · cases hrecord : s.seen.record string.bytes.reverse (s.collections - 1) with
      | ok seen => exact .recorded hrecord
      | error v =>
        obtain ⟨i, j, rfl⟩ := Seen.record_error hrecord
        exact .mixed i j
    · exact .passed rfl
  · exact .passed rfl

theorem turn_opening (s : Scan) (bracket : Json.Bracket) : s.Turn (.ok (s.opening bracket)) := by
  unfold opening
  dsimp only
  split <;> exact .passed rfl

theorem turn_closing (s : Scan) (bracket : Json.Bracket) : s.Turn (s.closing bracket) := by
  unfold closing
  split
  · exact .mismatched _
  split
  · exact .mismatched _
  split
  · exact .closed
  · exact .passed rfl

theorem turn_step (s : Scan) (b : UInt8) : s.Turn (s.step b) := by
  unfold step
  split
  · exact turn_inString s _ b
  split
  · exact .passed rfl
  split
  · exact turn_opening s .square
  split
  · exact turn_opening s .curly
  split
  · exact turn_closing s .square
  split
  · exact turn_closing s .curly
  split
  · exact .passed rfl
  split <;> exact .passed rfl

theorem isSingle_of_step {b : UInt8} (hs : s.seen.IsSingle) (h : s.step b = .ok t) :
    t.seen.IsSingle := by
  have hturn := turn_step s b
  rw [h] at hturn
  cases hturn with
  | passed same => rwa [same]
  | recorded noted => exact (Seen.record_ok noted).1

/-! ## Texts that go on -/

/-- A scan that has found no verdict in a text goes on behind it. -/
theorem run_append (s : Scan) (text more : Bytes) :
    s.run (text ++ more) =
      match text.foldlM step s with
      | .ok t => t.run more
      | .error v => v := by
  induction text generalizing s with
  | nil => rfl
  | cons b rest ih =>
    rw [List.cons_append, List.foldlM_cons]
    cases hstep : s.step b with
    | ok t => rw [run_ok hstep, ih]; rfl
    | error v => rw [run_error hstep]; rfl

theorem atEnd_of_used (h : s.seen.isEmpty = false) : s.atEnd = .ok s.seen.dialect := by
  simp [atEnd, h]

/-- The end of a text is no mismatched bracket. -/
theorem not_isFinal_atEnd (hs : s.seen.IsSingle) : ¬IsFinal s.atEnd := by
  intro hfinal
  cases hempty : s.seen.isEmpty with
  | true =>
    simp only [atEnd, hempty, if_true] at hfinal
    split at hfinal <;> cases hfinal
  | false =>
    have hknown : s.seen.dialect ≠ .unknown := hs.dialect_ne_unknown hempty
    rw [atEnd_of_used hempty] at hfinal
    generalize s.seen.dialect = d at hfinal hknown
    cases hfinal
    exact hknown rfl

/-- A text that is classified at its end has used a key of the dialect. -/
theorem dialect_of_atEnd {d : Dialect} (h : s.atEnd = .ok d) : s.seen.dialect = d := by
  cases hempty : s.seen.isEmpty with
  | true =>
    simp only [atEnd, hempty, if_true] at h
    split at h <;> cases h
  | false => exact Except.ok.inj ((atEnd_of_used hempty).symm.trans h)

/-- From a known dialect on, a scan upholds it. -/
theorem upholds_run {d : Dialect} (hknown : d ≠ .unknown) (hs : s.seen.dialect = d)
    (text : Bytes) : Upholds d (s.run text) := by
  induction text generalizing s with
  | nil =>
    have hused : s.seen.isEmpty = false := by
      cases hempty : s.seen.isEmpty with
      | true => exact absurd (hs ▸ Seen.dialect_of_isEmpty hempty) hknown
      | false => rfl
    rw [run, atEnd_of_used hused, hs]
    exact .same
  | cons b rest ih =>
    have hturn := turn_step s b
    cases hstep : s.step b with
    | ok t =>
      rw [run_ok hstep]
      rw [hstep] at hturn
      cases hturn with
      | passed same => exact ih (same ▸ hs)
      | recorded noted => exact ih (((Seen.record_ok noted).2 (hs ▸ hknown)).trans hs)
    | error v =>
      rw [run_error hstep]
      rw [hstep] at hturn
      cases hturn with
      | mixed i j => exact .mixed i j
      | mismatched offset => exact .mismatched offset
      | closed => exact hs ▸ .same

/-- What is found within a text is found in every longer one, and what is known at its end is
upheld. -/
theorem run_of_append (hs : s.seen.IsSingle) (text more : Bytes) :
    (IsFinal (s.run text) → s.run (text ++ more) = s.run text) ∧
      ∀ d, d ≠ .unknown → s.run text = .ok d → Upholds d (s.run (text ++ more)) := by
  have hshort := run_append s text []
  rw [List.append_nil] at hshort
  rw [hshort, run_append]
  -- either the verdict falls within the text, or the scan goes on from the state at its end
  cases hafter : text.foldlM step s with
  | error v => exact ⟨fun _ => rfl, fun d _ hd => hd ▸ .same⟩
  | ok t =>
    have ht : t.seen.IsSingle :=
      Stopping.foldlM_invariant (p := fun s => s.seen.IsSingle)
        (fun _ _ _ hs hstep => isSingle_of_step hs hstep) hs hafter
    refine ⟨fun hfinal => absurd hfinal (not_isFinal_atEnd ht), fun d hknown hd => ?_⟩
    exact upholds_run hknown (dialect_of_atEnd hd) more

end Scan

/-! ## Documents that go on -/

/-- A byte order mark that is not there is not completed in front of a list. -/
theorem withoutMark_append {bytes text : Bytes}
    (h : (withoutMark bytes).dropWhile Ascii.isBlank = Ascii.openSquare :: text) (more : Bytes) :
    withoutMark (bytes ++ more) = withoutMark bytes ++ more := by
  by_cases hmark : byteOrderMark.isPrefixOf bytes
  · obtain ⟨rest, rfl⟩ := List.isPrefixOf_iff_prefix.mp hmark
    rw [List.append_assoc, withoutMark_mark, withoutMark_mark]
  · have hsame : withoutMark bytes = bytes := by rw [withoutMark, if_neg hmark]
    rw [hsame] at h ⊢
    cases bytes with
    | nil => cases h
    | cons b rest =>
      have hb : b ≠ 0xef := by
        rintro rfl
        cases h
      exact withoutMark_cons hb _

/-- A document that starts like a list is scanned from behind its bracket, however it goes on. -/
theorem detect_cases (bytes : Bytes) :
    (∃ (s : Scan) (text : Bytes), s.seen = {} ∧
      ∀ more, detect (bytes ++ more) = s.run (text ++ more)) ∨
    detect bytes = .error (.unscannable 0 .emptyDocument) ∨
    ∃ offset, detect bytes = .error (.unscannable offset .notAList) := by
  cases hdrop : (withoutMark bytes).dropWhile Ascii.isBlank with
  | nil => exact .inr (.inl (by simp only [detect, hdrop]))
  | cons b text =>
    by_cases hb : b = Ascii.openSquare
    · subst hb
      let start := (withoutMark bytes).length - (text.length + 1)
      refine .inl ⟨⟨start + 1, [.square], 0, false, {}, none⟩, text, rfl, fun more => ?_⟩
      have hmore : (withoutMark bytes ++ more).dropWhile Ascii.isBlank =
          Ascii.openSquare :: (text ++ more) := by
        simp [List.dropWhile_append, hdrop]
      have hstart : (withoutMark bytes ++ more).length -
          (Ascii.openSquare :: (text ++ more)).length = start := by
        simp only [start, List.length_append, List.length_cons]
        omega
      simp only [detect, withoutMark_append hdrop, hmore, hstart, if_true]
    · refine .inr (.inr ⟨(withoutMark bytes).length - (b :: text).length, ?_⟩)
      simp only [detect, hdrop, if_neg hb]

/-- What is found in a document stays when more bytes follow it: a verdict that needs no more than a
part of the document is the verdict on the whole, and once the dialect is known the document is of
this dialect or it is refused. The cut may fall anywhere. -/
theorem detect_append (bytes more : Bytes) :
    (IsFinal (detect bytes) → detect (bytes ++ more) = detect bytes) ∧
      ∀ d ∈ [Dialect.latest, .legacy], detect bytes = .ok d →
        Upholds d (detect (bytes ++ more)) := by
  rcases detect_cases bytes with ⟨s, text, hseen, hscan⟩ | hrefused | ⟨offset, hrefused⟩
  · have hshort := hscan []
    rw [List.append_nil, List.append_nil] at hshort
    obtain ⟨hfound, hupheld⟩ := Scan.run_of_append (s := s) (hseen ▸ .inl rfl) text more
    rw [hshort, hscan more]
    refine ⟨hfound, fun d hd => hupheld d ?_⟩
    rintro rfl
    simp at hd
  -- a text that is no list so far has no verdict that counts
  all_goals
    rw [hrefused]
    refine ⟨fun hfinal => ?_, fun d _ hd => ?_⟩
    · cases hfinal
    · cases hd

/-- A document that is cut within a key. -/
def cutText : Bytes := Utf8.encode "[\x7b\"a\\\"\":[],\"fields\":[],\"sch"

/-- A document whose list is closed. -/
def closedText : Bytes := Utf8.encode " [[\x7b\"schema\":1\x7d]]"

/-- The key that was cut turns out to be the other one; what follows a list that is closed does not
count. -/
theorem detect_append_cut :
    (detect cutText = .ok .latest ∧
      Upholds .latest (detect (cutText ++ Utf8.encode "ema\":\"")) ∧
      detect (cutText ++ Utf8.encode "ema\":\"") = .error (.mixed 0 0)) ∧
    IsFinal (detect closedText) ∧
      detect (closedText ++ Utf8.encode ",[\x7b\"fields\"") = .ok .unknown := by
  have hlatest : detect cutText = .ok .latest := rfl
  have hunknown : detect closedText = .ok .unknown := rfl
  have hfinal : IsFinal (detect closedText) := hunknown ▸ .unknown
  refine ⟨⟨hlatest, ?_, rfl⟩, hfinal, ?_⟩
  · exact (detect_append _ _).2 .latest (by simp) hlatest
  · rw [(detect_append _ _).1 hfinal, hunknown]

end TypedCollections.Schema.Dialect
