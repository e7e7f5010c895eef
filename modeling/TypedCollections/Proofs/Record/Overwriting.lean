import TypedCollections.Proofs.Model.MemberNames
import TypedCollections.Record.Instance

/-!
The keys under which the members of a model write. Members that are no fields write under keys of
their own, which are different; a field that is declared under one of them either takes the place
of that member or is left out, with one exception: where the record comes from is written under two
keys that a declaration may use as well. Then the field comes later, and its value is sent.
-/

namespace TypedCollections

open Json (Value)

/-! ## Keys -/

namespace Collection

variable {c : Collection}

/-- The keys that say where a record comes from. -/
def originKeys : List String := ["collectionId", "collectionName"]

theorem keys_eq (c : Collection) :
    c.members.flatMap Member.keys = c.ownMembers.flatMap Member.keys ++ c.fields.map Field.key := by
  have hfields : (fun f => Member.keys (.field f)) = fun f : Field => [f.key] := rfl
  rw [members_eq, List.flatMap_append, List.flatMap_map, hfields, ← List.map_eq_flatMap]

theorem ownKeys_nodup (c : Collection) : (c.ownMembers.flatMap Member.keys).Nodup := by
  unfold ownMembers
  split <;> split <;> decide

theorem mem_keys_ownMembers {key : String} (h : key ∈ c.ownMembers.flatMap Member.keys) :
    key ∈ originKeys ∨ (key = "id" ∧ c.hasIdField = false) ∨
      (key ∈ timestampFields ∧ c.sharesTimestamps) := by
  unfold ownMembers at h
  rw [List.flatMap_append, List.mem_append, List.flatMap_cons, List.mem_append] at h
  rcases h with (h | h) | h
  · exact .inl h
  · split at h
    · cases h
    · next hid => exact .inr (.inl ⟨by simpa [Member.keys] using h, by simpa using hid⟩)
  · split at h
    · next hshares => exact .inr (.inr ⟨by simpa [Member.keys, timestampFields] using h, hshares⟩)
    · cases h

theorem originKeys_subset (c : Collection) :
    originKeys ⊆ c.ownMembers.flatMap Member.keys := by
  intro key hkey
  rw [ownMembers, List.cons_append, List.flatMap_cons]
  exact List.mem_append_left _ hkey

/-- The members write under different keys exactly if no field is declared under one of the two keys
that say where a record comes from. -/
theorem keys_nodup_iff (hc : Selection.Distinct c.dialect c.fields) :
    (c.members.flatMap Member.keys).Nodup ↔ ∀ f ∈ c.fields, f.key ∉ originKeys := by
  rw [keys_eq]
  constructor
  · intro hnodup f hf hkey
    have hdisjoint := (List.nodup_append'.mp hnodup).2.2
    exact hdisjoint (c.originKeys_subset hkey) (List.mem_map_of_mem hf)
  · intro hfree
    refine c.ownKeys_nodup.append hc.keys ?_
    intro key hown hfield
    obtain ⟨f, hf, rfl⟩ := List.mem_map.mp hfield
    rcases mem_keys_ownMembers hown with horigin | ⟨hid, hnone⟩ | ⟨hstamp, hshares⟩
    · exact hfree f hf horigin
    · exact key_ne_id hnone hf hid
    · exact hc.stamps hshares f hf hstamp

end Collection

/-! ## What is written -/

namespace Record

/-- Sets several values, one after the other. -/
def setAll (r : Record) (entries : List (String × Value)) : Record :=
  entries.foldl (fun r e => r.set e.1 e.2) r

theorem setAll_append (r : Record) (before after : List (String × Value)) :
    r.setAll (before ++ after) = (r.setAll before).setAll after := List.foldl_append

theorem get?_setAll_of_notMem {entries : List (String × Value)} {key : String}
    (h : key ∉ entries.map Prod.fst) (r : Record) : (r.setAll entries).get? key = r.get? key := by
  induction entries generalizing r with
  | nil => rfl
  | cons e entries ih =>
    rw [List.map_cons, List.mem_cons, not_or] at h
    rw [setAll, List.foldl_cons]
    exact (ih h.2 _).trans (get?_set_of_ne h.1 r e.2)

/-- Under different keys, every value stays as it was set. -/
theorem get?_setAll_of_nodup {entries : List (String × Value)}
    (h : (entries.map Prod.fst).Nodup) (r : Record) :
    ∀ e ∈ entries, (r.setAll entries).get? e.1 = some e.2 := by
  induction entries generalizing r with
  | nil => simp
  | cons first entries ih =>
    rw [List.map_cons, List.nodup_cons] at h
    intro e he
    rw [setAll, List.foldl_cons]
    rcases List.mem_cons.mp he with rfl | he
    · exact (get?_setAll_of_notMem h.1 _).trans (get?_set_self r e.1 e.2)
    · exact ih h.2 _ e he

end Record

/-- The entry under a key, unless there is nothing to write. -/
def entryUnless (p : Prop) [Decidable p] (key : String) (v : Value) : List (String × Value) :=
  if p then [] else [(key, v)]

theorem keys_entryUnless_sublist (p : Prop) [Decidable p] (key : String) (v : Value) :
    ((entryUnless p key v).map Prod.fst).Sublist [key] := by
  unfold entryUnless
  split
  · exact List.nil_sublist _
  · exact List.Sublist.refl _

theorem setAll_entryUnless (p : Prop) [Decidable p] (key : String) (v : Value) (r : Record) :
    r.setAll (entryUnless p key v) = if p then r else r.set key v := by
  unfold entryUnless
  split <;> rfl

/-- What is written of where a record comes from. -/
def RecordMeta.entries (m : RecordMeta) : List (String × Value) :=
  entryUnless (m.collectionId = "") collectionIdKey (.string m.collectionId)
    ++ entryUnless (m.collectionName = "") collectionNameKey (.string m.collectionName)

def Timestamps.entries (t : Timestamps) : List (String × Value) :=
  entryUnless t.created.isUnset createdKey t.created.toJson
    ++ entryUnless t.updated.isUnset updatedKey t.updated.toJson

theorem RecordMeta.write_eq_setAll (m : RecordMeta) (r : Record) :
    m.write r = r.setAll m.entries := by
  rw [entries, Record.setAll_append, setAll_entryUnless, setAll_entryUnless]
  rfl

theorem Timestamps.write_eq_setAll (t : Timestamps) (r : Record) :
    t.write r = r.setAll t.entries := by
  rw [entries, Record.setAll_append, setAll_entryUnless, setAll_entryUnless]
  rfl

namespace Instance

variable {c : Collection}

def fieldEntries : List Field → List FieldValue → List (String × Value)
  | f :: fields, v :: values =>
    (v.toJson?.map fun j => (f.key, j)).toList ++ fieldEntries fields values
  | _, _ => []

/-- All that the members of a model write, in order. -/
def entries (m : Instance c) : List (String × Value) :=
  m.recordMeta.entries ++ entryUnless c.hasIdField idKey (.string m.recordId)
    ++ (if c.sharesTimestamps then m.timestamps.entries else []) ++ fieldEntries c.fields m.values

theorem writeFields_eq_setAll (fields : List Field) (values : List FieldValue) (r : Record) :
    writeFields fields values r = r.setAll (fieldEntries fields values) := by
  induction fields generalizing values r with
  | nil => cases values <;> rfl
  | cons f fields ih =>
    cases values with
    | nil => rfl
    | cons v values =>
      rw [writeFields, fieldEntries, ih, Record.setAll_append, FieldValue.write]
      cases v.toJson? <;> rfl

theorem toRecord_eq_setAll (m : Instance c) : m.toRecord = Record.empty.setAll m.entries := by
  have hstamps (r : Record) : (if c.sharesTimestamps then m.timestamps.write r else r) =
      r.setAll (if c.sharesTimestamps then m.timestamps.entries else []) := by
    split
    · exact m.timestamps.write_eq_setAll r
    · rfl
  simp only [toRecord, entries, Record.setAll_append, writeFields_eq_setAll,
    RecordMeta.write_eq_setAll, setAll_entryUnless, hstamps]

theorem keys_fieldEntries_sublist (fields : List Field) (values : List FieldValue) :
    ((fieldEntries fields values).map Prod.fst).Sublist (fields.map Field.key) := by
  induction fields generalizing values with
  | nil => cases values <;> exact List.Sublist.refl _
  | cons f fields ih =>
    cases values with
    | nil => exact List.nil_sublist _
    | cons v values =>
      rw [fieldEntries, List.map_append, List.map_cons]
      cases v.toJson? with
      | none => exact (ih values).cons f.key
      | some j => exact (ih values).cons_cons f.key

/-- What the members that are no fields write. -/
def ownEntries (m : Instance c) : List (String × Value) :=
  m.recordMeta.entries ++ entryUnless c.hasIdField idKey (.string m.recordId)
    ++ (if c.sharesTimestamps then m.timestamps.entries else [])

theorem entries_eq (m : Instance c) :
    m.entries = m.ownEntries ++ fieldEntries c.fields m.values := rfl

theorem keys_ownEntries_sublist (m : Instance c) :
    (m.ownEntries.map Prod.fst).Sublist (c.ownMembers.flatMap Member.keys) := by
  have hmeta : (m.recordMeta.entries.map Prod.fst).Sublist (Member.keys .recordMeta) := by
    rw [RecordMeta.entries, List.map_append]
    exact (keys_entryUnless_sublist _ _ _).append (keys_entryUnless_sublist _ _ _)
  have hid : ((entryUnless c.hasIdField idKey (.string m.recordId)).map Prod.fst).Sublist
      ((if c.hasIdField then [] else [.recordId]).flatMap Member.keys) := by
    unfold entryUnless
    split
    · exact List.nil_sublist _
    · exact List.Sublist.refl _
  have hstamps : (m.timestamps.entries.map Prod.fst).Sublist (Member.keys .timestamps) := by
    rw [Timestamps.entries, List.map_append]
    exact (keys_entryUnless_sublist _ _ _).append (keys_entryUnless_sublist _ _ _)
  rw [ownEntries, Collection.ownMembers, List.map_append, List.map_append, List.flatMap_append,
    List.flatMap_cons]
  refine (hmeta.append hid).append ?_
  split
  · simpa using hstamps
  · exact List.Sublist.refl _

/-- A model writes under no other keys than those of its members, and in their order. -/
theorem keys_entries_sublist (m : Instance c) :
    (m.entries.map Prod.fst).Sublist (c.members.flatMap Member.keys) := by
  rw [Collection.keys_eq, entries_eq, List.map_append]
  exact m.keys_ownEntries_sublist.append (keys_fieldEntries_sublist c.fields m.values)

/-- No member of a loaded collection writes over another one exactly if no field is declared under
one of the keys that say where a record comes from; then each value is sent as it was written. -/
theorem keys_nodup_of_load {options : LoadOptions} {path : String} {bytes : Bytes} {s : Schema}
    (h : Compiler.load options path bytes = .ok s) (hc : c ∈ s.collections) :
    ((c.members.flatMap Member.keys).Nodup ↔
        ∀ f ∈ c.fields, f.key ≠ "collectionId" ∧ f.key ≠ "collectionName") ∧
      ((c.members.flatMap Member.keys).Nodup →
        ∀ m : Instance c, ∀ e ∈ m.entries, m.toRecord.get? e.1 = some e.2) := by
  constructor
  · rw [Collection.keys_nodup_iff (Compiler.distinct_of_load h hc)]
    simp [Collection.originKeys]
  · intro hnodup m e he
    rw [toRecord_eq_setAll]
    exact Record.get?_setAll_of_nodup (m.keys_entries_sublist.nodup hnodup) _ e he

/-- Declarations under keys of members that are no fields: one takes the place of the member, one is
left out for it, and one is left out because it is flagged. -/
def guardedText : String :=
  "[\x7b\"name\":\"p\",\"schema\":[\x7b\"name\":\"id\",\"type\":\"text\"\x7d,"
    ++ "\x7b\"name\":\"created\",\"type\":\"text\"\x7d,"
    ++ "\x7b\"name\":\"collectionId\",\"system\":true\x7d]\x7d]"

def guarded : Collection where
  name := "p"
  structName := "P"
  id := none
  fields := [⟨"Id", "id", ⟨.text, true⟩⟩]
  dialect := .legacy

theorem keys_nodup_of_guarded :
    Compiler.load {} "schema.json" (Utf8.encode guardedText) =
        .ok ⟨"schema.json", .legacy, .legacy, [guarded], []⟩ ∧
      guarded.members.flatMap Member.keys =
        ["collectionId", "collectionName", "created", "updated", "id"] ∧
      ((guarded.members.flatMap Member.keys).Nodup ↔
        ∀ f ∈ guarded.fields, f.key ≠ "collectionId" ∧ f.key ≠ "collectionName") ∧
      ((guarded.members.flatMap Member.keys).Nodup →
        ∀ m : Instance guarded, ∀ e ∈ m.entries, m.toRecord.get? e.1 = some e.2) := by
  have hload : Compiler.load {} "schema.json" (Utf8.encode guardedText) =
      .ok ⟨"schema.json", .legacy, .legacy, [guarded], []⟩ := by decide +kernel
  exact ⟨hload, by decide +kernel, keys_nodup_of_load hload (List.mem_singleton.mpr rfl)⟩

/-- A declaration under one of the two keys that is not flagged. -/
def overwritingText : String :=
  "[\x7b\"name\":\"a\",\"fields\":["
    ++ "\x7b\"name\":\"collectionId\",\"type\":\"text\",\"required\":true\x7d]\x7d]"

def overwriting : Collection where
  name := "a"
  structName := "A"
  id := none
  fields := [⟨"CollectionId", "collectionId", ⟨.text, false⟩⟩]
  dialect := .latest

/-- Two members write under one key, and the record that is sent does not say where it comes
from. -/
theorem overwriting_collectionId :
    Compiler.load {} "schema.json" (Utf8.encode overwritingText) =
        .ok ⟨"schema.json", .latest, .latest, [overwriting], []⟩ ∧
      ¬(overwriting.members.flatMap Member.keys).Nodup ∧
      ∃ m : Instance overwriting, m.recordMeta.collectionId = "c1" ∧
        ("collectionId", .string "c1") ∈ m.entries ∧
        m.toRecord.get? "collectionId" = some (.string "other") := by
  refine ⟨by decide +kernel, by decide +kernel,
    ⟨⟨"c1", ""⟩, "", {}, [.text "other"]⟩, rfl, ?_, ?_⟩
  · rw [entries, RecordMeta.entries, entryUnless, if_neg (by decide)]
    simp [collectionIdKey]
  · rfl

end Instance
end TypedCollections
