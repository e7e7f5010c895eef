import TypedCollections.Proofs.Model.Loading
import TypedCollections.Proofs.Record.Casts
import TypedCollections.Proofs.Record.Writing

/-!
Reading a record into a model and writing it back is a normalization: done twice it changes no more
than done once. It goes key by key, so the theorem is about one value: what is written under a key
is read as what it was written for, and where a field is missing, what another member writes under
its key does not make it present.
-/

namespace TypedCollections

open Json (Value)

namespace FieldValue

variable {t : MemberType} {x : Option Value} {v : Value}

/-- What a field writes is read and written as it stands. -/
theorem toJson?_ofValue_self (h : (ofValue x t).toJson? = some v)
    (hfinite : t.base = .number → ∀ y, x.bind Value.asNumber? = some y → y.isFinite) :
    (ofValue (some v) t).toJson? = some v := by
  have hnumber : ∀ y : Binary64, y.isFinite → (Value.ofBinary64 y).asNumber? = some y := by
    intro y hy
    simp [Value.ofBinary64, hy, Value.asNumber?, Json.Number.toBinary64]
  obtain ⟨base, optional⟩ := t
  cases base with
  | text =>
    cases optional with
    | false =>
      cases h
      rfl
    | true =>
      obtain ⟨s, -, rfl⟩ := Option.map_eq_some_iff.mp h
      rfl
  | flag =>
    cases optional with
    | false =>
      cases h
      rfl
    | true =>
      obtain ⟨b, -, rfl⟩ := Option.map_eq_some_iff.mp h
      rfl
  | number =>
    cases optional with
    | false =>
      have hread : ((x.bind Value.asNumber?).getD (.zero false)).isFinite := by
        cases hx : x.bind Value.asNumber? with
        | none => rfl
        | some y => exact hfinite rfl y hx
      cases h
      simp only [ofValue, Option.bind_some, hnumber _ hread]
      rfl
    | true =>
      obtain ⟨y, hy, rfl⟩ := Option.map_eq_some_iff.mp h
      simp only [ofValue, Option.bind_some, hnumber y (hfinite rfl y hy)]
      rfl
  | dateTime =>
    cases h
    have hread : (Value.string ((x.map Value.asTimestamp).getD .unset).text).asTimestamp =
        ((x.map Value.asTimestamp).getD .unset).truncated := by
      cases x with
      | none => exact Value.text_asTimestamp .null
      | some v => exact Value.text_asTimestamp v
    simp [ofValue, toJson?, Timestamp.toJson, hread]
  | idList =>
    cases h
    have hids : ∀ s ∈ (x.map Value.asIds).getD [], s ≠ "" := by
      cases x with
      | none => simp
      | some v => exact fun s hs => Value.ne_empty_of_mem_asIds hs
    simp [ofValue, toJson?, Value.asIds_array_string hids]
  | json =>
    cases h
    rfl

/-- A missing field is missing where there is no value. -/
theorem toJson?_ofValue_none (h : (ofValue x t).toJson? = none) :
    (ofValue none t).toJson? = none := by
  obtain ⟨base, optional⟩ := t
  cases base <;> cases optional <;> first | rfl | cases h

/-- A missing field stays missing next to the text of the value that it was not read from. -/
theorem toJson?_ofValue_kept (h : (ofValue x t).toJson? = none) :
    (ofValue (RecordMeta.kept x) t).toJson? = none := by
  unfold RecordMeta.kept
  cases hx : x.bind Value.asText? with
  | none => exact toJson?_ofValue_none h
  | some s =>
    obtain ⟨w, rfl, hs⟩ := Option.bind_eq_some_iff.mp hx
    split
    · exact toJson?_ofValue_none h
    · obtain ⟨base, optional⟩ := t
      cases base with
      | text =>
        cases optional with
        | false => cases h
        | true =>
          have hnone : w.asText? = none := Option.map_eq_none_iff.mp h
          rw [hnone] at hs
          cases hs
      | flag =>
        cases optional with
        | false => cases h
        | true =>
          have hnone : w.asFlag? = none := Option.map_eq_none_iff.mp h
          simp only [ofValue, Option.bind_some, Option.getD_some, Value.asFlag?_text hnone hs]
          rfl
      | number =>
        cases optional with
        | false => cases h
        | true =>
          have hnone : w.asNumber? = none := Option.map_eq_none_iff.mp h
          simp only [ofValue, Option.bind_some, Option.getD_some, Value.asNumber?_text hnone hs]
          rfl
      | dateTime => cases h
      | idList => cases h
      | json => cases h

end FieldValue

theorem RecordMeta.kept_kept (x : Option Value) : kept (kept x) = kept x := by
  unfold kept
  split
  · rfl
  · next h => simp [Value.asText?, h]

theorem Timestamps.kept_kept (x : Option Value) : kept (kept x) = kept x := by
  unfold kept
  split
  · rfl
  · next h =>
    cases x with
    | none => exact absurd rfl h
    | some v =>
      simp only [Option.map_some, Option.getD_some, Timestamp.toJson] at h ⊢
      simp [Value.text_asTimestamp, h]

namespace Collection

variable {c : Collection}

theorem ownKept_ownKept (key : String) (x : Option Value) :
    c.ownKept key (c.ownKept key x) = c.ownKept key x := by
  unfold ownKept
  split
  · exact RecordMeta.kept_kept x
  split
  · split
    · rfl
    · rfl
  split
  · split
    · exact Timestamps.kept_kept x
    · rfl
  · rfl

/-- Under the key of a field no other member writes, but for where the record comes from. -/
theorem ownKept_of_field (hc : Selection.Distinct c.dialect c.fields) {key : String} {f : Field}
    (hf : c.field? key = some f) (x : Option Value) :
    c.ownKept key x = RecordMeta.kept x ∨ c.ownKept key x = none := by
  have hkey : f.key = key := by simpa using List.find?_some hf
  unfold ownKept
  split
  · exact .inl rfl
  split
  · next hid =>
    have hhas : c.hasIdField := by
      rw [hasIdField, ← show key = "id" from hid, hf]
      rfl
    exact .inr (if_pos hhas)
  split
  · next hstamp =>
    refine .inr (if_neg fun hshares => ?_)
    refine hc.stamps hshares f (List.mem_of_find?_eq_some hf) ?_
    rw [hkey]
    rcases hstamp with rfl | rfl <;> decide
  · exact .inr rfl

/-- What is written under a key is written again when it is read. -/
theorem kept_kept (hc : Selection.Distinct c.dialect c.fields) (key : String) (x : Option Value)
    (hfinite : ∀ f ∈ c.fields, f.key = key → f.type.base = .number →
      ∀ y, x.bind Value.asNumber? = some y → y.isFinite) :
    c.kept key (c.kept key x) = c.kept key x := by
  cases hf : c.field? key with
  | none =>
    have hkept : ∀ x, c.kept key x = c.ownKept key x := by
      intro x
      simp [kept, fieldKept, hf]
    rw [hkept, hkept, ownKept_ownKept]
  | some f =>
    have hkept : ∀ x, c.kept key x =
        (FieldValue.ofValue x f.type).toJson?.or (c.ownKept key x) := by
      intro x
      simp [kept, fieldKept, hf]
    have hkey : f.key = key := by simpa using List.find?_some hf
    rw [hkept x]
    cases hx : (FieldValue.ofValue x f.type).toJson? with
    | some v =>
      rw [Option.some_or, hkept, FieldValue.toJson?_ofValue_self hx
        (hfinite f (List.mem_of_find?_eq_some hf) hkey), Option.some_or]
    | none =>
      have hmissing : (FieldValue.ofValue (c.ownKept key x) f.type).toJson? = none := by
        rcases ownKept_of_field hc hf x with hown | hown
        · rw [hown]
          exact FieldValue.toJson?_ofValue_kept hx
        · rw [hown]
          exact FieldValue.toJson?_ofValue_none hx
      rw [Option.none_or, hkept, hmissing, Option.none_or, ownKept_ownKept]

end Collection

namespace Instance

/-- A record that a model of a loaded collection has read and written once stays as it is, if the
numbers that the model reads are finite. -/
theorem normalized_normalized {options : LoadOptions} {path : String} {bytes : Bytes} {s : Schema}
    {c : Collection} (h : Compiler.load options path bytes = .ok s) (hc : c ∈ s.collections)
    (r : Record) (hfinite : ∀ f ∈ c.fields, f.type.base = .number →
      ∀ x, r.number? f.key = some x → x.isFinite) :
    normalized c (normalized c r) = normalized c r := by
  have hdistinct := Compiler.distinct_of_load h hc
  refine (increasing_normalized hdistinct.keys _).ext (increasing_normalized hdistinct.keys r) ?_
  intro key
  rw [get?_normalized hdistinct.keys, get?_normalized hdistinct.keys]
  refine Collection.kept_kept hdistinct key (r.get? key) ?_
  rintro f hf rfl hnumber
  exact hfinite f hf hnumber

/-- A number, a timestamp, ids, and a field under a key that says where the record comes from. -/
def looseText : String :=
  "[\x7b\"name\":\"p\",\"schema\":[\x7b\"name\":\"n\",\"type\":\"number\"\x7d,"
    ++ "\x7b\"name\":\"due\",\"type\":\"date\"\x7d,\x7b\"name\":\"ids\",\"type\":\"file\"\x7d,"
    ++ "\x7b\"name\":\"collectionId\",\"type\":\"bool\"\x7d]\x7d]"

def loose : Collection where
  name := "p"
  structName := "P"
  id := none
  fields :=
    [⟨"N", "n", ⟨.number, true⟩⟩, ⟨"Due", "due", ⟨.dateTime, false⟩⟩,
      ⟨"Ids", "ids", ⟨.idList, false⟩⟩, ⟨"CollectionId", "collectionId", ⟨.flag, true⟩⟩]
  dialect := .legacy

/-- A record that has none of the values in the form in which they are written. -/
def looseRecord : Record :=
  ⟨[("collectionId", .array [.number (.integer 1)]), ("created", .string "+12024-3-5 1:2:60"),
    ("due", .string " 2024-03-05T23:20:30.1239-02:00"), ("ids", .string "[\"a\", \"\"]"),
    ("n", .string " 1e2")]⟩

theorem normalized_loose :
    Compiler.load {} "schema.json" (Utf8.encode looseText) =
        .ok ⟨"schema.json", .legacy, .legacy, [loose], []⟩ ∧
      (∀ f ∈ loose.fields, f.type.base = .number →
        ∀ x, looseRecord.number? f.key = some x → x.isFinite) ∧
      normalized loose (normalized loose looseRecord) = normalized loose looseRecord := by
  have hload : Compiler.load {} "schema.json" (Utf8.encode looseText) =
      .ok ⟨"schema.json", .legacy, .legacy, [loose], []⟩ := by decide +kernel
  have hnumbers : ∀ f ∈ loose.fields, f.type.base = .number →
      (looseRecord.number? f.key).all Binary64.isFinite := by decide +kernel
  have hfinite : ∀ f ∈ loose.fields, f.type.base = .number →
      ∀ x, looseRecord.number? f.key = some x → x.isFinite := by
    intro f hf hnumber x hx
    simpa [hx] using hnumbers f hf hnumber
  exact ⟨hload, hfinite,
    normalized_normalized hload (List.mem_singleton.mpr rfl) looseRecord hfinite⟩

end Instance
end TypedCollections
