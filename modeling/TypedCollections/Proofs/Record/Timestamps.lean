import TypedCollections.Proofs.Timestamp.Reading
import TypedCollections.Record.Cast

/-!
Timestamps that are written and read again, as texts and under a key of a record. What a reader
returned comes back at its millisecond, and nothing changes after that: neither whether it is set,
nor whether it is a leap second, nor its text.
-/

namespace TypedCollections

namespace Instant

/-- A leap second is counted behind the second before it. -/
def isLeap (i : Instant) : Bool := nanosPerSecond ≤ i.nanosecond

/-- The start of a leap second is a whole number of milliseconds. -/
theorem isLeap_truncated (i : Instant) : i.truncated.isLeap = i.isLeap := by
  have hle : nanosPerSecond ≤ i.truncated.nanosecond ↔ nanosPerSecond ≤ i.nanosecond := by
    simp only [truncated, nanosPerSecond]
    omega
  simp only [isLeap, hle]

theorem truncated_truncated (i : Instant) : i.truncated.truncated = i.truncated := by
  simp only [truncated, Nat.mul_div_cancel _ (by decide : 0 < 1000000)]

end Instant

namespace Timestamp

def isLeap : Timestamp → Bool
  | unset => false
  | .at i => i.isLeap

@[simp] theorem isLeap_truncated (t : Timestamp) : t.truncated.isLeap = t.isLeap := by
  cases t with
  | unset => rfl
  | «at» i => exact i.isLeap_truncated

@[simp] theorem truncated_truncated (t : Timestamp) : t.truncated.truncated = t.truncated := by
  cases t with
  | unset => rfl
  | «at» i => exact congrArg Timestamp.at i.truncated_truncated

/-- A record gives a timestamp that was read back at its millisecond. -/
theorem timestamp_set_of_read? {s : String} {t : Timestamp} (h : read? s = some t) (r : Record)
    (key : String) : (r.set key t.toJson).timestamp key = t.truncated := by
  simp [Record.timestamp, toJson, Json.Value.asTimestamp, read?_text_of_read? h]

/-- What was read from a text has a text that reads as the same, cut off below the millisecond, and
that has this text again. So a record holds it as well as the text does: reading it gives it at its
millisecond, and writing that changes the record no more. -/
theorem read?_text_stable {s : String} {t : Timestamp} (h : read? s = some t) :
    read? t.text = some t.truncated ∧ t.truncated.text = t.text ∧
      t.truncated.isUnset = t.isUnset ∧ t.truncated.isLeap = t.isLeap ∧
      read? t.truncated.text = some t.truncated ∧
      ∀ (r : Record) (key : String), (r.set key t.toJson).timestamp key = t.truncated ∧
        ((r.set key t.toJson).timestamp key).toJson = t.toJson := by
  have hread := read?_text_of_read? h
  refine ⟨hread, text_truncated t, isUnset_truncated t, isLeap_truncated t, ?_, ?_⟩
  · rw [text_truncated]
    exact hread
  · intro r key
    have hback := timestamp_set_of_read? h r key
    refine ⟨hback, ?_⟩
    rw [hback, toJson, toJson, text_truncated]

/-- A leap second before the first year, in short numbers and with more digits than are kept. -/
def loneLeap : Timestamp := .at ⟨(Date.mk (-12024) 3 5).toDay, 3779, 1123456789⟩

theorem read?_text_stable_loneLeap :
    read? " -12024-3-5 1:2:60.12345678912ZZ" = some loneLeap ∧
      loneLeap.text = "-12024-03-05 01:02:60.123Z" ∧
      read? loneLeap.text = some loneLeap.truncated ∧ loneLeap.truncated.text = loneLeap.text ∧
      loneLeap.truncated.isUnset = loneLeap.isUnset ∧
      loneLeap.truncated.isLeap = loneLeap.isLeap ∧
      read? loneLeap.truncated.text = some loneLeap.truncated ∧
      ∀ (r : Record) (key : String),
        (r.set key loneLeap.toJson).timestamp key = loneLeap.truncated ∧
        ((r.set key loneLeap.toJson).timestamp key).toJson = loneLeap.toJson := by
  have hread : read? " -12024-3-5 1:2:60.12345678912ZZ" = some loneLeap := by decide +kernel
  exact ⟨hread, by decide +kernel, read?_text_stable hread⟩

end Timestamp
end TypedCollections
