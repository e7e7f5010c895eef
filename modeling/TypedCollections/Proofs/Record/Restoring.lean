import TypedCollections.Proofs.Record.Casts
import TypedCollections.Proofs.Record.Overwriting
import TypedCollections.Proofs.Record.Timestamps
import TypedCollections.Proofs.Record.Writing

/-!
A model that is written to a record is read from it as it was. What is absent is written in four
ways: a missing value and an empty name of a collection not at all, an unset timestamp as an empty
text, no ids as an empty list, and a JSON null as itself. Each is read back as what it stands for,
as no other member writes under the same key.
-/

namespace TypedCollections

open Json (Value)

/-- Unset, or read from a text and with nothing below a millisecond. -/
inductive Timestamp.IsWhole : Timestamp → Prop
  | unset : IsWhole .unset
  | at {s : String} {i : Instant} (read : read? s = some (.at i))
      (whole : i.nanosecond % 1000000 = 0) : IsWhole (.at i)

theorem Timestamp.IsWhole.read?_text {t : Timestamp} (h : t.IsWhole) : read? t.text = some t := by
  cases h with
  | unset => rfl
  | @«at» s i hread hwhole =>
    have htruncated : i.truncated = i := by
      rw [Instant.truncated, Nat.div_mul_cancel (Nat.dvd_of_mod_eq_zero hwhole)]
    rw [read?_text_of_read? hread, truncated, htruncated]

theorem Timestamp.IsWhole.asTimestamp_toJson {t : Timestamp} (h : t.IsWhole) :
    t.toJson.asTimestamp = t := by
  rw [toJson, Value.asTimestamp, h.read?_text, Option.getD_some]

/-! ## One value -/

namespace FieldValue

/-- The values that a member of a type can have. -/
inductive OfType : MemberType → FieldValue → Prop
  | text (s : String) : OfType ⟨.text, false⟩ (.text s)
  | text? (s : Option String) : OfType ⟨.text, true⟩ (.text? s)
  | flag (b : Bool) : OfType ⟨.flag, false⟩ (.flag b)
  | flag? (b : Option Bool) : OfType ⟨.flag, true⟩ (.flag? b)
  | number (x : Binary64) : OfType ⟨.number, false⟩ (.number x)
  | number? (x : Option Binary64) : OfType ⟨.number, true⟩ (.number? x)
  | timestamp (optional : Bool) (t : Timestamp) : OfType ⟨.dateTime, optional⟩ (.timestamp t)
  | ids (optional : Bool) (xs : List String) : OfType ⟨.idList, optional⟩ (.ids xs)
  | json (optional : Bool) (v : Value) : OfType ⟨.json, optional⟩ (.json v)

/-- The values that a record can hold in full: numbers have a JSON form, timestamps end at a
millisecond, and ids are not empty. -/
def IsStorable : FieldValue → Prop
  | number x => x.isFinite
  | number? x => ∀ y ∈ x, y.isFinite
  | timestamp t => t.IsWhole
  | ids xs => ∀ s ∈ xs, s ≠ ""
  | text _ | text? _ | flag _ | flag? _ | json _ => True

/-- Whatever is read for a member has its type. -/
theorem ofType_ofValue (x : Option Value) (t : MemberType) : OfType t (ofValue x t) := by
  obtain ⟨base, optional⟩ := t
  cases base <;> cases optional <;> constructor

theorem asNumber?_ofBinary64 {x : Binary64} (h : x.isFinite) :
    (Value.ofBinary64 x).asNumber? = some x := by
  rw [Value.ofBinary64, if_pos h]
  rfl

/-- A value is read from what is written for it. -/
theorem ofValue_toJson? {t : MemberType} {v : FieldValue} (ht : OfType t v) (hv : v.IsStorable) :
    ofValue v.toJson? t = v := by
  cases ht with
  | text s => rfl
  | text? s => cases s <;> rfl
  | flag b => rfl
  | flag? b => cases b <;> rfl
  | number x => simp only [toJson?, ofValue, Option.bind_some, asNumber?_ofBinary64 hv, Option.getD]
  | number? x =>
    cases x with
    | none => rfl
    | some y =>
      simp only [toJson?, ofValue, Option.map_some, Option.bind_some,
        asNumber?_ofBinary64 (hv y rfl)]
  | timestamp optional t =>
    have hread := Timestamp.IsWhole.asTimestamp_toJson hv
    simp only [toJson?, ofValue, Option.map_some, Option.getD_some, hread]
  | ids optional xs =>
    have hread := Value.asIds_array_string hv
    simp only [toJson?, ofValue, Option.map_some, Option.getD_some, hread]
  | json optional v => rfl

end FieldValue

/-! ## What is found under a key -/

/-- Under different keys, what is found is what was set. -/
theorem Record.get?_setAll {entries : List (String × Value)} (h : (entries.map Prod.fst).Nodup)
    (key : String) : (empty.setAll entries).get? key = entries.lookup key := by
  cases hlookup : entries.lookup key with
  | none =>
    refine get?_setAll_of_notMem (fun hkey => ?_) empty
    obtain ⟨e, he, rfl⟩ := List.mem_map.mp hkey
    exact absurd (List.lookup_eq_none_iff.mp hlookup e he) (by simp)
  | some v =>
    obtain ⟨before, after, heq, -⟩ := List.lookup_eq_some_iff.mp hlookup
    exact get?_setAll_of_nodup h empty (key, v) (by simp [heq])

theorem lookup_eq_none_of_notMem {entries : List (String × Value)} {key : String}
    (h : key ∉ entries.map Prod.fst) : entries.lookup key = none := by
  refine List.lookup_eq_none_iff.mpr fun e he => ?_
  have hne : key ≠ e.1 := fun heq => h (heq ▸ List.mem_map_of_mem he)
  simpa using hne

/-- An empty text need not be written to be read. -/
theorem Record.text_of_get? {r : Record} {key text : String}
    (h : r.get? key = if text = "" then none else some (.string text)) : r.text key = text := by
  rw [Record.text, text?, h]
  split
  · next hempty => rw [hempty]; rfl
  · rfl

/-- Nor need an unset timestamp. -/
theorem Record.timestamp_of_get? {r : Record} {key : String} {t : Timestamp} (ht : t.IsWhole)
    (h : r.get? key = if t.isUnset then none else some t.toJson) : r.timestamp key = t := by
  rw [timestamp, h]
  split
  · next hunset =>
    cases t with
    | unset => rfl
    | «at» i => cases hunset
  · exact ht.asTimestamp_toJson

theorem lookup_entryUnless (p : Prop) [Decidable p] (key other : String) (v : Value) :
    (entryUnless p key v).lookup other = if p ∨ other ≠ key then none else some v := by
  unfold entryUnless
  by_cases hp : p
  · simp [hp]
  · by_cases hkey : other = key <;> simp [hp, hkey]

namespace Instance

variable {c : Collection} {m : Instance c}

/-- The values of a model have the types of their members. Members that the model does not have are
as if they were never set. -/
structure IsTyped (m : Instance c) : Prop where
  values : List.Forall₂ (fun f v => FieldValue.OfType f.type v) c.fields m.values
  recordId : c.hasIdField → m.recordId = ""
  timestamps : c.sharesTimestamps = false → m.timestamps = {}

structure IsStorable (m : Instance c) : Prop where
  values : ∀ v ∈ m.values, v.IsStorable
  created : m.timestamps.created.IsWhole
  updated : m.timestamps.updated.IsWhole

/-- Every model that is read from a record is typed. -/
theorem isTyped_ofRecord (c : Collection) (r : Record) : (ofRecord c r).IsTyped := by
  refine ⟨?_, fun h => if_pos h, fun h => if_neg (by simp [h])⟩
  rw [ofRecord, List.forall₂_map_right_iff, List.forall₂_same]
  intro f _
  rw [FieldValue.ofRecord_eq]
  exact FieldValue.ofType_ofValue _ _

theorem lookup_fieldEntries_of_notMem {fields : List Field} {key : String}
    (h : key ∉ fields.map Field.key) (values : List FieldValue) :
    (fieldEntries fields values).lookup key = none :=
  lookup_eq_none_of_notMem fun hkey => h ((keys_fieldEntries_sublist fields values).subset hkey)

/-- Under the key of a field stands what was written of its value, if anything was. -/
theorem lookup_fieldEntries {fields : List Field} (h : (fields.map Field.key).Nodup)
    {values : List FieldValue} {f : Field} {v : FieldValue} (hf : (f, v) ∈ fields.zip values) :
    (fieldEntries fields values).lookup f.key = v.toJson? := by
  induction fields generalizing values with
  | nil => cases hf
  | cons first fields ih =>
    cases values with
    | nil => cases hf
    | cons value values =>
      rw [List.map_cons, List.nodup_cons] at h
      rw [fieldEntries, List.lookup_append]
      rcases List.mem_cons.mp hf with heq | hf
      · cases heq
        rw [lookup_fieldEntries_of_notMem h.1, Option.or_none]
        cases v.toJson? <;> simp
      · have hne : (f.key == first.key) = false := by
          refine beq_eq_false_iff_ne.mpr fun heq => ?_
          exact h.1 (heq ▸ List.mem_map_of_mem (List.of_mem_zip hf).1)
        rw [ih h.2 hf]
        cases value.toJson? <;> simp [List.lookup_cons, hne]

/-- What stands under the keys of the members that are no fields. -/
theorem lookup_ownEntries (m : Instance c) :
    m.ownEntries.lookup collectionIdKey =
        (if m.recordMeta.collectionId = "" then none
          else some (.string m.recordMeta.collectionId)) ∧
      m.ownEntries.lookup collectionNameKey =
        (if m.recordMeta.collectionName = "" then none
          else some (.string m.recordMeta.collectionName)) ∧
      (c.hasIdField = false → m.ownEntries.lookup idKey = some (.string m.recordId)) ∧
      (c.sharesTimestamps →
        m.ownEntries.lookup createdKey =
            (if m.timestamps.created.isUnset then none else some m.timestamps.created.toJson) ∧
          m.ownEntries.lookup updatedKey =
            (if m.timestamps.updated.isUnset then none
              else some m.timestamps.updated.toJson)) := by
  cases hshares : c.sharesTimestamps <;>
    simp +contextual [ownEntries, RecordMeta.entries, Timestamps.entries, hshares,
      List.lookup_append, lookup_entryUnless, collectionIdKey, collectionNameKey, idKey, createdKey,
      updatedKey]

section Keys

variable (hkeys : (c.members.flatMap Member.keys).Nodup)

include hkeys

theorem get?_toRecord (m : Instance c) (key : String) :
    m.toRecord.get? key =
      (m.ownEntries.lookup key).or ((fieldEntries c.fields m.values).lookup key) := by
  rw [toRecord_eq_setAll, Record.get?_setAll (m.keys_entries_sublist.nodup hkeys), entries_eq,
    List.lookup_append]

theorem get?_toRecord_field {f : Field} {v : FieldValue} (hf : (f, v) ∈ c.fields.zip m.values) :
    m.toRecord.get? f.key = v.toJson? := by
  have hnodup := hkeys
  rw [Collection.keys_eq, List.nodup_append'] at hnodup
  obtain ⟨-, hfields, hdisjoint⟩ := hnodup
  have hown : m.ownEntries.lookup f.key = none := by
    refine lookup_eq_none_of_notMem fun hkey => ?_
    exact hdisjoint (m.keys_ownEntries_sublist.subset hkey)
      (List.mem_map_of_mem (List.of_mem_zip hf).1)
  rw [get?_toRecord hkeys, hown, Option.none_or, lookup_fieldEntries hfields hf]

theorem get?_toRecord_own {key : String} (hown : key ∈ c.ownMembers.flatMap Member.keys) :
    m.toRecord.get? key = m.ownEntries.lookup key := by
  have hnodup := hkeys
  rw [Collection.keys_eq, List.nodup_append'] at hnodup
  rw [get?_toRecord hkeys, lookup_fieldEntries_of_notMem (hnodup.2.2 hown), Option.or_none]

/-! ## Every member -/

theorem recordMeta_toRecord (m : Instance c) : RecordMeta.ofRecord m.toRecord = m.recordMeta := by
  have hmem : ∀ key ∈ [collectionIdKey, collectionNameKey],
      key ∈ c.ownMembers.flatMap Member.keys := fun key h => c.originKeys_subset h
  obtain ⟨hid, hname, -⟩ := lookup_ownEntries m
  rw [← get?_toRecord_own hkeys (hmem _ (by simp))] at hid hname
  rw [RecordMeta.ofRecord, Record.text_of_get? hid, Record.text_of_get? hname]

theorem recordId_toRecord (h : c.hasIdField = false) : m.toRecord.text idKey = m.recordId := by
  have hmem : idKey ∈ c.ownMembers.flatMap Member.keys := by
    simp [Collection.ownMembers, h, Member.keys, idKey]
  have hid := (lookup_ownEntries m).2.2.1 h
  rw [← get?_toRecord_own hkeys hmem] at hid
  rw [Record.text, Record.text?, hid]
  rfl

theorem timestamps_toRecord (h : c.sharesTimestamps) (hm : m.IsStorable) :
    Timestamps.ofRecord m.toRecord = m.timestamps := by
  have hmem : ∀ key ∈ [createdKey, updatedKey], key ∈ c.ownMembers.flatMap Member.keys := by
    simp [Collection.ownMembers, h, Member.keys, createdKey, updatedKey]
  obtain ⟨hcreated, hupdated⟩ := (lookup_ownEntries m).2.2.2 h
  rw [← get?_toRecord_own hkeys (hmem _ (by simp))] at hcreated hupdated
  rw [Timestamps.ofRecord, Record.timestamp_of_get? hm.created hcreated,
    Record.timestamp_of_get? hm.updated hupdated]

theorem values_toRecord (htyped : m.IsTyped) (hm : m.IsStorable) :
    (c.fields.map fun f => FieldValue.ofRecord m.toRecord f.key f.type) = m.values := by
  have hlength := htyped.values.length_eq
  refine List.ext_getElem (by simpa using hlength) fun i hi hi' => ?_
  have hfield : i < c.fields.length := by simpa using hi
  have htype : FieldValue.OfType c.fields[i].type m.values[i] := htyped.values.get hfield hi'
  have hzip : (c.fields[i], m.values[i]) ∈ c.fields.zip m.values := by
    have hlt : i < (c.fields.zip m.values).length := by
      rw [List.length_zip]
      omega
    rw [← List.getElem_zip (h := hlt)]
    exact List.getElem_mem hlt
  rw [List.getElem_map, FieldValue.ofRecord_eq, get?_toRecord_field hkeys hzip]
  exact FieldValue.ofValue_toJson? htype (hm.values _ (List.getElem_mem hi'))

end Keys

/-- A model of a loaded collection that declares no field under the keys that say where a record
comes from is read from the record that it is written to as it was. -/
theorem ofRecord_toRecord_of_load {options : LoadOptions} {path : String} {bytes : Bytes}
    {s : Schema} (h : Compiler.load options path bytes = .ok s) (hc : c ∈ s.collections)
    (hfree : ∀ f ∈ c.fields, f.key ≠ "collectionId" ∧ f.key ≠ "collectionName") (m : Instance c)
    (htyped : m.IsTyped) (hm : m.IsStorable) : ofRecord c m.toRecord = m := by
  have hkeys : (c.members.flatMap Member.keys).Nodup := by
    refine (Collection.keys_nodup_iff (Compiler.distinct_of_load h hc)).mpr fun f hf => ?_
    simpa [Collection.originKeys] using hfree f hf
  have hid : (if c.hasIdField then "" else m.toRecord.text idKey) = m.recordId := by
    split
    · next hhas => exact (htyped.recordId hhas).symm
    · next hhas => exact recordId_toRecord hkeys (by simpa using hhas)
  have hstamps : (if c.sharesTimestamps then Timestamps.ofRecord m.toRecord else {}) =
      m.timestamps := by
    split
    · next hshares => exact timestamps_toRecord hkeys hshares hm
    · next hshares => exact (htyped.timestamps (by simpa using hshares)).symm
  rw [ofRecord, recordMeta_toRecord hkeys, hid, hstamps, values_toRecord hkeys htyped hm]

/-- Fields of every kind, with and without a value to be required. -/
def mixedText : String :=
  "[\x7b\"name\":\"p\",\"schema\":[\x7b\"name\":\"title\",\"type\":\"text\"\x7d,"
    ++ "\x7b\"name\":\"note\",\"type\":\"text\"\x7d,"
    ++ "\x7b\"name\":\"rank\",\"type\":\"number\",\"required\":true\x7d,"
    ++ "\x7b\"name\":\"pinned\",\"type\":\"bool\"\x7d,\x7b\"name\":\"due\",\"type\":\"date\"\x7d,"
    ++ "\x7b\"name\":\"tags\",\"type\":\"relation\"\x7d,"
    ++ "\x7b\"name\":\"data\",\"type\":\"json\"\x7d]\x7d]"

def mixed : Collection where
  name := "p"
  structName := "P"
  id := none
  fields :=
    [⟨"Title", "title", ⟨.text, true⟩⟩, ⟨"Note", "note", ⟨.text, true⟩⟩,
      ⟨"Rank", "rank", ⟨.number, false⟩⟩, ⟨"Pinned", "pinned", ⟨.flag, true⟩⟩,
      ⟨"Due", "due", ⟨.dateTime, false⟩⟩, ⟨"Tags", "tags", ⟨.idList, false⟩⟩,
      ⟨"Data", "data", ⟨.json, false⟩⟩]
  dialect := .legacy

/-- A leap second. -/
def leapSecond : Instant := ⟨(Date.mk 2024 3 5).toDay, 37259, 1123000000⟩

/-- A model with an empty text, missing values, a negative zero, a timestamp that is set and one
that is not, ids, and a JSON null. -/
def mixedModel : Instance mixed where
  recordMeta := ⟨"", "p"⟩
  recordId := ""
  timestamps := ⟨.at leapSecond, .unset⟩
  values := [.text? (some ""), .text? none, .number (.zero true), .flag? none,
    .timestamp (.at leapSecond), .ids ["b", "a", "b"], .json .null]

theorem ofRecord_toRecord_mixedModel :
    Compiler.load {} "schema.json" (Utf8.encode mixedText) =
        .ok ⟨"schema.json", .legacy, .legacy, [mixed], []⟩ ∧
      (∀ f ∈ mixed.fields, f.key ≠ "collectionId" ∧ f.key ≠ "collectionName") ∧
      mixedModel.IsTyped ∧ mixedModel.IsStorable ∧
      ofRecord mixed mixedModel.toRecord = mixedModel := by
  have hload : Compiler.load {} "schema.json" (Utf8.encode mixedText) =
      .ok ⟨"schema.json", .legacy, .legacy, [mixed], []⟩ := by decide +kernel
  have hfree : ∀ f ∈ mixed.fields, f.key ≠ "collectionId" ∧ f.key ≠ "collectionName" := by
    decide +kernel
  have htyped : mixedModel.IsTyped := by
    refine ⟨?_, fun _ => rfl, fun h => absurd h (by decide)⟩
    exact .cons (.text? _) (.cons (.text? _) (.cons (.number _) (.cons (.flag? _)
      (.cons (.timestamp _ _) (.cons (.ids _ _) (.cons (.json _ _) .nil))))))
  have hread : Timestamp.read? "2024-03-05 10:20:60.123Z" = some (.at leapSecond) := by
    decide +kernel
  have hleap : (Timestamp.at leapSecond).IsWhole := .at hread (by decide)
  have hstorable : mixedModel.IsStorable := by
    refine ⟨?_, hleap, .unset⟩
    simpa [mixedModel, FieldValue.IsStorable] using ⟨rfl, hleap⟩
  exact ⟨hload, hfree, htyped, hstorable, ofRecord_toRecord_of_load hload
    (List.mem_singleton.mpr rfl) hfree mixedModel htyped hstorable⟩

end Instance
end TypedCollections
