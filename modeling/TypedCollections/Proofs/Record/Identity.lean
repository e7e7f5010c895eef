import TypedCollections.Proofs.Model.IdMember
import TypedCollections.Proofs.Record.Casts
import TypedCollections.Record.Instance

/-!
The identity of a record, as it shows in the record itself and in a model that was read from it. A
record tells only the texts that it holds. A model takes what it finds for a text, whatever it is.
So the two views agree where there is a text or nothing, and nowhere else.
-/

namespace TypedCollections

open Json (Value)

namespace Record

variable {r : Record} {key : String}

/-- A text or nothing. -/
def IsTextual (x : Option Value) : Prop := ∀ v, x = some v → v = .null ∨ ∃ s, v = .string s

/-- What a record takes for no text has one that is not empty, unless it is null. -/
theorem text_cases (r : Record) (key : String) :
    IsTextual (r.get? key) ∧ r.text key = r.exactText key ∨
      ¬IsTextual (r.get? key) ∧ r.exactText key = "" ∧ r.text key ≠ "" := by
  unfold text text? exactText
  cases r.get? key with
  | none => exact .inl ⟨by simp [IsTextual], rfl⟩
  | some v =>
    have hother {s : String} (hs : v.asText? = some s) (hne : ∀ t, v ≠ .string t) : s ≠ "" :=
      (Value.ne_empty_of_asText? hs).resolve_right (hne s)
    cases v with
    | null => exact .inl ⟨by simp [IsTextual], rfl⟩
    | string s => exact .inl ⟨by simp [IsTextual], rfl⟩
    | boolean b => exact .inr ⟨by simp [IsTextual], rfl, hother rfl (by simp)⟩
    | number n => exact .inr ⟨by simp [IsTextual], rfl, hother rfl (by simp)⟩
    | array items => exact .inr ⟨by simp [IsTextual], rfl, hother rfl (by simp)⟩
    | object members => exact .inr ⟨by simp [IsTextual], rfl, hother rfl (by simp)⟩

theorem text_eq_exactText_iff : r.text key = r.exactText key ↔ IsTextual (r.get? key) := by
  rcases text_cases r key with ⟨htextual, heq⟩ | ⟨hother, hexact, hne⟩
  · exact iff_of_true heq htextual
  · exact iff_of_false (by rwa [hexact]) hother

end Record

theorem FieldValue.id_ofRecord {t : MemberType} (ht : t.base = .text) (r : Record) (key : String) :
    (ofRecord r key t).id = r.text key := by
  obtain ⟨base, optional⟩ := t
  obtain rfl : base = .text := ht
  cases optional <;> rfl

namespace Instance

open Collection (idText idCollection)
open Record (IsTextual)

variable {c : Collection}

/-- A field of a new model is read from under its key. -/
theorem value?_ofRecord (r : Record) (key : String) :
    (ofRecord c r).value? key = (c.field? key).map fun f => .ofRecord r f.key f.type := by
  rw [value?, ofRecord, List.getElem?_map, Collection.field?, List.find?_eq_getElem?_findIdx]

/-- The id of a model is the text under the key of ids, whether the schema declares it or not. -/
theorem id_ofRecord (h : c.idMember.typeCode ∈ ["String", "Option<String>"]) (r : Record) :
    (ofRecord c r).id = r.text idKey := by
  have htype := c.typeCode_iff.mp h
  cases hfield : c.field? "id" with
  | none =>
    have hown : c.hasIdField = false := by simp [Collection.hasIdField, hfield]
    simp [id, ofRecord, hown]
  | some f =>
    have hown : c.hasIdField = true := by simp [Collection.hasIdField, hfield]
    obtain ⟨-, hkey⟩ := Collection.mem_of_field? hfield
    have hvalue : (ofRecord c r).value? idKey = some (.ofRecord r f.key f.type) := by
      rw [value?_ofRecord, idKey, hfield]
      rfl
    rw [id, if_pos hown, hvalue, hkey]
    exact FieldValue.id_ofRecord (htype f hfield) r "id"

/-- A model whose id is a text and the record that it is read from have the same id exactly if the
record holds a text for it, or null, or nothing; and so it is with the id and the name of the
collection. -/
theorem identity_ofRecord (h : c.idMember.typeCode ∈ ["String", "Option<String>"]) (r : Record) :
    (Model.id (Model.ofRecord r : Instance c) = Model.id r ↔ IsTextual (r.get? idKey)) ∧
      (Model.collectionId (Model.ofRecord r : Instance c) = Model.collectionId r ↔
        IsTextual (r.get? collectionIdKey)) ∧
      (Model.collectionName (Model.ofRecord r : Instance c) = Model.collectionName r ↔
        IsTextual (r.get? collectionNameKey)) := by
  refine ⟨?_, Record.text_eq_exactText_iff, Record.text_eq_exactText_iff⟩
  have hid : Model.id (Model.ofRecord r : Instance c) = r.text idKey := id_ofRecord h r
  rw [hid]
  exact Record.text_eq_exactText_iff

/-- A record whose id is a text and whose collection is named by a number. -/
def numberedRecord : Record := ⟨[("collectionId", .number (.integer 7)), ("id", .string "x")]⟩

theorem identity_of_textId :
    Compiler.load {} "schema.json" (idText "text") = .ok ⟨"schema.json", .latest, .latest,
        [idCollection ⟨.text, true⟩], []⟩ ∧
      (idCollection ⟨.text, true⟩).idMember.typeCode ∈ ["String", "Option<String>"] ∧
      Model.id (Model.ofRecord numberedRecord : Instance (idCollection ⟨.text, true⟩)) =
        Model.id numberedRecord ∧
      Model.collectionId (Model.ofRecord numberedRecord : Instance (idCollection ⟨.text, true⟩)) ≠
        Model.collectionId numberedRecord ∧
      Model.collectionName (Model.ofRecord numberedRecord : Instance (idCollection ⟨.text, true⟩)) =
        Model.collectionName numberedRecord := by
  have htype : (idCollection ⟨.text, true⟩).idMember.typeCode ∈ ["String", "Option<String>"] := by
    decide
  have hid : IsTextual (numberedRecord.get? idKey) := by
    simp [IsTextual, numberedRecord, Record.get?, Json.Members.get?, idKey]
  have hcollection : ¬IsTextual (numberedRecord.get? collectionIdKey) := by
    simp [IsTextual, numberedRecord, Record.get?, Json.Members.get?, collectionIdKey]
  have hname : IsTextual (numberedRecord.get? collectionNameKey) := by
    simp [IsTextual, numberedRecord, Record.get?, Json.Members.get?, collectionNameKey]
  obtain ⟨hid_iff, hcollection_iff, hname_iff⟩ := identity_ofRecord htype numberedRecord
  exact ⟨by decide +kernel, htype, hid_iff.mpr hid, mt hcollection_iff.mp hcollection,
    hname_iff.mpr hname⟩

/-- A number that stands for the id is one in the model, and none in the record itself. -/
theorem identity_of_numericId :
    Compiler.load {} "schema.json" (idText "text") = .ok ⟨"schema.json", .latest, .latest,
        [idCollection ⟨.text, true⟩], []⟩ ∧
      Model.id (Model.ofRecord ⟨[("id", .number (.integer 12))]⟩ :
        Instance (idCollection ⟨.text, true⟩)) = "12" ∧
      Model.id (⟨[("id", .number (.integer 12))]⟩ : Record) = "" := by
  refine ⟨by decide +kernel, ?_, rfl⟩
  decide +kernel

end Instance
end TypedCollections
