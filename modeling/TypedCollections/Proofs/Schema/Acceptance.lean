import TypedCollections.Proofs.Schema.Agreement

/-!
What can still be wrong with a document that the reader accepts. Its text spells a list, so the scan
finds every string ended and every bracket closed by its own: the detection can only refuse it for
mixing the dialects. Whatever is called malformed has been rejected by the reader, on a line that
counts from one.
-/

namespace TypedCollections

namespace Schema.Dialect

/-- A document that spells a list is classified, or it mixes the dialects. -/
theorem classify_ne_unscannable (items : List Json.Tree) (offset : Nat) (obstacle : Obstacle) :
    classify items ≠ .error (.unscannable offset obstacle) := by
  unfold classify
  split <;> simp

end Schema.Dialect

namespace Json

/-- A text is rejected at a place in it, and its first line is the one with the number one. -/
theorem exists_position_of_readAll {α : Type} {read : Reader α} {text : Bytes} {r : Rejection}
    (h : readAll read text = .error r) : ∃ p, r.position = some p ∧ p.line ≠ 0 := by
  unfold readAll at h
  split at h
  · cases h
  · next f _ =>
    cases h
    exact ⟨_, rfl, Nat.succ_ne_zero _⟩

end Json

namespace Compiler

open Schema (Dialect)

variable {options : LoadOptions} {path : String} {bytes : Bytes}

theorem detect_ne_unscannable {declared : List Schema.DeclaredCollection}
    (h : Schema.readDocument bytes = .ok declared) (offset : Nat) (obstacle : Dialect.Obstacle) :
    Dialect.detect bytes ≠ .error (.unscannable offset obstacle) := by
  obtain ⟨items, hreadings⟩ := Schema.exists_readings h
  rw [hreadings.detect_eq]
  exact Dialect.classify_ne_unscannable items offset obstacle

/-- A malformed document is one that the reader rejects. -/
theorem rejection_of_malformed {file message : String} {line column : Nat}
    (h : load options path bytes = .error (.malformed file line column message)) :
    ∃ r, Schema.readDocument bytes = .error r ∧
      rejection path r = .malformed file line column message := by
  generalize he : Diagnostic.malformed file line column message = e at h
  cases failure_of_load h with
  | blank | flawed | undecided => cases he
  | unreadable r hread => exact ⟨r, hread, rfl⟩
  | undetected declared hread r hdetect =>
    cases r with
    | unscannable offset obstacle => exact absurd hdetect (detect_ne_unscannable hread _ _)
    | mixed => cases he
  | unmodelled _ _ _ fault => cases fault <;> cases he

/-- The detection can scan every document that the reader accepts. So a document that is called
malformed is one that the reader rejects, with the reader's own words and place, and never on the
line zero of a detection. -/
theorem accepted_documents_scan :
    (∀ bytes declared, Schema.readDocument bytes = .ok declared →
      ∀ offset obstacle, Dialect.detect bytes ≠ .error (.unscannable offset obstacle)) ∧
    ∀ options path bytes file line column message,
      load options path bytes = .error (.malformed file line column message) →
        line ≠ 0 ∧ ∃ r, Schema.readDocument bytes = .error r ∧
          rejection path r = .malformed file line column message := by
  constructor
  · intro bytes declared h
    exact detect_ne_unscannable h
  · intro options path bytes file line column message h
    obtain ⟨r, hread, hr⟩ := rejection_of_malformed h
    obtain ⟨p, hp, hline⟩ := Json.exists_position_of_readAll hread
    refine ⟨?_, r, hread, hr⟩
    unfold rejection at hr
    rw [hp] at hr
    cases hr
    exact hline

/-- A collection written as a list, and a value that nobody asks for: nested deeper than a value
that is read may be, and with a string that is not UTF-8 and holds a quotation mark and brackets. -/
def tangledText : Bytes :=
  Utf8.encode "[[null,\"]a\"],\x7b\"deep\":" ++ List.replicate 130 Ascii.openSquare
    ++ [Ascii.quote, 0xff, Ascii.backslash, Ascii.quote, Ascii.openCurly, Ascii.closeSquare,
      Ascii.quote]
    ++ List.replicate 130 Ascii.closeSquare ++ Utf8.encode ",\"schema\":[]\x7d]"

set_option maxRecDepth 6000 in
theorem tangled_document_scans :
    (Schema.readDocument tangledText = .ok [{ name := "]a", keys := ["id", "name"] },
        { schema := some [], keys := ["schema"] }] ∧
      Dialect.detect tangledText = .ok .legacy ∧
      ∀ offset obstacle, Dialect.detect tangledText ≠ .error (.unscannable offset obstacle)) ∧
    load {} "schema.json" (Utf8.encode "[\n,]") =
        .error (.malformed "schema.json" 2 1 "expected value at line 2 column 1") ∧
      2 ≠ 0 ∧ ∃ r, Schema.readDocument (Utf8.encode "[\n,]") = .error r ∧
        rejection "schema.json" r =
          .malformed "schema.json" 2 1 "expected value at line 2 column 1" := by
  have hread : Schema.readDocument tangledText = .ok [{ name := "]a", keys := ["id", "name"] },
      { schema := some [], keys := ["schema"] }] := by cbv
  have hload : load {} "schema.json" (Utf8.encode "[\n,]") =
      .error (.malformed "schema.json" 2 1 "expected value at line 2 column 1") := by
    decide +kernel
  exact ⟨⟨hread, by decide +kernel, accepted_documents_scan.1 _ _ hread⟩, hload,
    accepted_documents_scan.2 _ _ _ _ _ _ _ hload⟩

end Compiler
end TypedCollections
