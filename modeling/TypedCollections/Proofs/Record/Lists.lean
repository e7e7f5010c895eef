import TypedCollections.Proofs.Json.Printing
import TypedCollections.Proofs.Record.Casts
import TypedCollections.Proofs.Text.Blank

/-!
Lists of ids, in each form in which the store sends them. A list that is read has no empty id and is
read again as it is. A list of texts and the JSON text of one are read as the same list, the texts
without the empty ones, whatever escapes the text has and whatever white space stands around it.
-/

namespace TypedCollections

open Json (IsListText Value)
open Text (AllBlank IsTrimmed)

namespace Json

theorem IsListText.isTrimmed {text : String} {xs : List String} (h : IsListText text xs) :
    IsTrimmed text.toList := by
  obtain ⟨⟨rest, hopen⟩, front, hclose⟩ := h.exists_toList
  constructor
  · rw [hopen]
    rintro c ⟨⟩
    decide
  · rw [hclose, List.getLast?_concat]
    rintro c ⟨⟩
    decide

namespace Value

/-- Of a list of texts those are read that are not empty. -/
theorem asIds_strings (xs : List String) :
    (array (xs.map string)).asIds = xs.filter (· ≠ "") := by
  have htexts : asText? ∘ string = some := rfl
  rw [asIds, nonemptyTexts, List.filterMap_map, htexts, List.filterMap_some]

/-- The JSON text of a list is read as the list. -/
theorem asIds_listText {text before after : String} {xs : List String} (h : IsListText text xs)
    (hb : AllBlank before.toList) (ha : AllBlank after.toList) :
    (string (before ++ text ++ after)).asIds = xs.filter (· ≠ "") := by
  obtain ⟨⟨rest, hopen⟩, -⟩ := h.exists_toList
  have htrim : Text.trim (before ++ text ++ after).toList = '[' :: rest := by
    rw [String.toList_append, String.toList_append, List.append_assoc,
      Text.trim_append hb h.isTrimmed ha, hopen]
  have hread : read (String.ofList ('[' :: rest)) = .ok (array (xs.map string)) := by
    rw [← hopen, String.ofList_toList]
    exact h.read
  simp only [asIds, htrim, hread]
  exact asIds_strings xs

end Value
end Json

namespace Record

theorem ids_eq_asIds {r : Record} {key : String} {v : Value} (h : r.get? key = some v) :
    r.ids key = v.asIds := by
  rw [ids, h]
  rfl

/-- What is read as a list of ids has no empty one, and is read again from where it is written. A
list of texts is read as those that are not empty, and so is every JSON text of it, the printed one
among them, between white space of any kind. -/
theorem ids_stable (r : Record) (key : String) :
    (∀ s ∈ r.ids key, s ≠ "") ∧
      (r.set key (.array ((r.ids key).map .string))).ids key = r.ids key ∧
      ∀ xs : List String,
        (r.get? key = some (.array (xs.map .string)) → r.ids key = xs.filter (· ≠ "")) ∧
        IsListText (Value.array (xs.map .string)).text xs ∧
        ∀ text before after : String, IsListText text xs →
          AllBlank before.toList → AllBlank after.toList →
          r.get? key = some (.string (before ++ text ++ after)) →
          r.ids key = xs.filter (· ≠ "") := by
  have hnonempty : ∀ s ∈ r.ids key, s ≠ "" := by
    intro s hs
    cases hget : r.get? key with
    | none =>
      rw [ids, hget] at hs
      cases hs
    | some v =>
      rw [ids_eq_asIds hget] at hs
      exact Value.ne_empty_of_mem_asIds hs
  refine ⟨hnonempty, ?_, fun xs => ⟨fun hget => ?_, Json.isListText_text xs, ?_⟩⟩
  · rw [ids_eq_asIds (get?_set_self r key _), Value.asIds_array_string hnonempty]
  · rw [ids_eq_asIds hget, Value.asIds_strings]
  · intro text before after htext hb ha hget
    rw [ids_eq_asIds hget, Value.asIds_listText htext hb ha]

/-- Ids that need an escape each, and an empty one. -/
def escapedIds : List String := ["a\"b", "", "\x5c", "[\n\x01é", "😀"]

def escapedIdsText : String := (Value.array (escapedIds.map .string)).text

/-- The JSON text of the ids, between an ideographic space and a line feed. -/
def heldText : Record := empty.set "tags" (.string ("\u3000" ++ escapedIdsText ++ "\n"))

theorem ids_stable_heldText :
    AllBlank "\u3000".toList ∧ AllBlank "\n".toList ∧
      escapedIdsText = "[\"a\\\"b\",\"\",\"\\\\\",\"[\\n\\u0001é\",\"😀\"]" ∧
      heldText.get? "tags" = some (.string ("\u3000" ++ escapedIdsText ++ "\n")) ∧
      heldText.ids "tags" = ["a\"b", "\x5c", "[\n\x01é", "😀"] := by
  have hbefore : AllBlank "\u3000".toList := by
    intro c hc
    obtain rfl : c = '\u3000' := by simpa using hc
    decide
  have hafter : AllBlank "\n".toList := by
    intro c hc
    obtain rfl : c = '\n' := by simpa using hc
    decide
  obtain ⟨-, -, hlists⟩ := ids_stable heldText "tags"
  obtain ⟨-, htext, hread⟩ := hlists escapedIds
  exact ⟨hbefore, hafter, by decide +kernel, rfl, hread _ _ _ htext hbefore hafter rfl⟩

end Record
end TypedCollections
