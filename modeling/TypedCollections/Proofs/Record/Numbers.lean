import TypedCollections.Proofs.Json.Numbers
import TypedCollections.Proofs.Number.Decimals
import TypedCollections.Proofs.Record.Restoring

/-!
Numbers of a record, and which of them survive being written. A number that comes as a number or as
a truth value does. One that comes as a text may be a word, or beyond the finite numbers, and such a
number is written as null.
-/

namespace TypedCollections

open Json (Value)

theorem Json.Members.mem_of_get? {α : Type} {m : Members α} {key : String} {v : α}
    (h : get? key m = some v) : (key, v) ∈ m := by
  induction m with
  | nil => cases h
  | cons e rest ih =>
    obtain ⟨k, w⟩ := e
    rw [get?] at h
    split at h
    · next hk =>
      obtain rfl := Option.some.inj h
      exact hk ▸ List.mem_cons_self
    · exact List.mem_cons_of_mem _ (ih h)

namespace Record

/-- Whatever a record holds that was read from a text is a JSON value. -/
theorem isJson_of_read {text : String} {r : Record} (h : read text = .ok r) {key : String}
    {v : Value} (hv : r.get? key = some v) : v.IsJson := by
  unfold read Json.readAll at h
  split at h
  · next x hx =>
    cases h
    obtain ⟨⟨r, t⟩, hr, hx⟩ := Stopping.bind_ok hx
    obtain ⟨_, -, hx⟩ := Stopping.bind_ok hx
    cases hx
    dsimp only at hr
    split at hr
    · cases hr
    split at hr
    · obtain ⟨⟨w, t⟩, hw, hr⟩ := Stopping.map_ok hr
      cases Json.isJson_of_value hw with
      | object hmembers =>
        cases hr
        exact hmembers _ (Json.Members.mem_of_get? hv)
      | _ =>
        cases hr
        cases hv
    · cases hr
  · cases h

theorem number?_of_get? {r : Record} {key : String} {v : Value} (h : r.get? key = some v) :
    r.number? key = v.asNumber? := by
  rw [number?, h, Option.bind_some]

/-- Only texts are read as numbers that are not finite. -/
theorem exists_not_isFinite_iff {v : Value} (h : v.IsJson) :
    (∃ x, v.asNumber? = some x ∧ x.isFinite = false) ↔
      ∃ s, v = .string s ∧ Decimal.IsUnbounded (Text.trim s.toList) := by
  cases h with
  | string s => simp [Value.asNumber?, Decimal.exists_not_isFinite_iff]
  | number hn => simp [Value.asNumber?, hn.isFinite]
  | boolean b =>
    have hfinite : (Binary64.ofNat (if b then 1 else 0)).isFinite := by cases b <;> decide
    simp [Value.asNumber?, hfinite]
  | null => simp [Value.asNumber?]
  | array _ => simp [Value.asNumber?]
  | object _ => simp [Value.asNumber?]

/-- A finite number is read again from where it is written, any other is lost. What is read is
finite unless the record holds the text of an infinity, of what is no number, or of a decimal beyond
the finite numbers. -/
theorem number?_rewritten (r : Record) (key : String) (h : ∀ v, r.get? key = some v → v.IsJson) :
    (∀ x, r.number? key = some x →
        (r.set key (.ofBinary64 x)).number? key = if x.isFinite then some x else none) ∧
      ((∃ x, r.number? key = some x ∧ x.isFinite = false) ↔
        ∃ s, r.get? key = some (.string s) ∧ Decimal.IsUnbounded (Text.trim s.toList)) ∧
      ((r.number key).isFinite = false ↔ ∃ x, r.number? key = some x ∧ x.isFinite = false) := by
  refine ⟨fun x _ => ?_, ?_, ?_⟩
  · rw [number?_of_get? (get?_set_self r key _)]
    cases hx : x.isFinite with
    | true => exact FieldValue.asNumber?_ofBinary64 hx
    | false => simp [Value.ofBinary64, hx, Value.asNumber?]
  · cases hget : r.get? key with
    | none => simp [number?, hget]
    | some v => simpa [number?_of_get? hget] using exists_not_isFinite_iff (h v hget)
  · cases hnumber : r.number? key with
    | none => simp [number, hnumber, Binary64.zero, Binary64.isFinite]
    | some x => simp [number, hnumber]

/-- A decimal with an exponent, between spaces. -/
def decimalText : Record := empty.set "n" (.string " -12.5e-1 ")

theorem number?_rewritten_decimalText :
    (∀ v, decimalText.get? "n" = some v → v.IsJson) ∧
      decimalText.number? "n" = some (.finite true 5629499534213120 (-52)) ∧
      (decimalText.set "n" (.ofBinary64 (.finite true 5629499534213120 (-52)))).number? "n" =
        some (.finite true 5629499534213120 (-52)) := by
  have hjson : ∀ v, decimalText.get? "n" = some v → v.IsJson := by
    rintro v ⟨⟩
    exact .string _
  have hread : decimalText.number? "n" = some (.finite true 5629499534213120 (-52)) := by
    decide +kernel
  exact ⟨hjson, hread, (number?_rewritten decimalText "n" hjson).1 _ hread⟩

/-- A word is read as an infinite number, which is null once it is written. -/
theorem number?_infinityText :
    (empty.set "n" (.string "inf")).number? "n" = some (.infinite false) ∧
      ((empty.set "n" (.string "inf")).set "n" (.ofBinary64 (.infinite false))).number? "n" =
        none := by
  decide +kernel

end Record
end TypedCollections
