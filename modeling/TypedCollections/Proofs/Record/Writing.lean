import Mathlib.Data.List.Nodup
import TypedCollections.Proofs.Json.Members
import TypedCollections.Record.Instance

/-!
What a model that was read from a record writes under a key. Reading and writing go key by key:
`Collection.kept` tells the value that is written under a key from the one that was read there, and
nothing else of the record matters.
-/

namespace TypedCollections

open Json (Value Members)

namespace Record

variable {r : Record} {key other : String}

/-- Writes a value unless it is missing. -/
def put (r : Record) (key : String) : Option Value → Record
  | some v => r.set key v
  | none => r

theorem get?_put_self (r : Record) (key : String) (x : Option Value) :
    (r.put key x).get? key = x.or (r.get? key) := by
  cases x with
  | none => rfl
  | some v => exact get?_set_self r key v

theorem get?_put_of_ne (h : other ≠ key) (r : Record) (x : Option Value) :
    (r.put key x).get? other = r.get? other := by
  cases x with
  | none => rfl
  | some v => exact get?_set_of_ne h r v

@[simp] theorem put_ite (r : Record) (key : String) (p : Prop) [Decidable p] (v : Value) :
    r.put key (if p then none else some v) = if p then r else r.set key v := by
  split <;> rfl

/-- Writes several values, each under its key, unless it is missing. -/
def putAll (g : String → Option Value) (keys : List String) (r : Record) : Record :=
  keys.foldl (fun r key => r.put key (g key)) r

theorem putAll_cons (g : String → Option Value) (key : String) (keys : List String) (r : Record) :
    putAll g (key :: keys) r = putAll g keys (r.put key (g key)) := rfl

theorem get?_putAll (g : String → Option Value) (keys : List String) (r : Record) (key : String) :
    (putAll g keys r).get? key = if key ∈ keys then (g key).or (r.get? key) else r.get? key := by
  induction keys generalizing r with
  | nil => rfl
  | cons first rest ih =>
    rw [putAll_cons, ih]
    by_cases hfirst : key = first
    · subst hfirst
      rw [get?_put_self, ← Option.or_assoc, Option.or_self]
      simp
    · rw [get?_put_of_ne hfirst]
      simp [hfirst]

/-- Records whose keys are in order, as those are that a model writes. -/
def Increasing (r : Record) : Prop := Members.Increasing r.members

theorem increasing_empty : empty.Increasing := Members.increasing_nil

theorem Increasing.put (h : r.Increasing) (key : String) (x : Option Value) :
    (r.put key x).Increasing := by
  cases x with
  | none => exact h
  | some v => exact Members.Increasing.insert h key v

theorem Increasing.putAll (h : r.Increasing) (g : String → Option Value) (keys : List String) :
    (putAll g keys r).Increasing := by
  induction keys generalizing r with
  | nil => exact h
  | cons first rest ih => exact ih (h.put first (g first))

/-- Such a record is known by its values. -/
theorem Increasing.ext {r' : Record} (h : r.Increasing) (h' : r'.Increasing)
    (hget : ∀ key, r.get? key = r'.get? key) : r = r' :=
  congrArg Record.mk (Members.Increasing.ext h h' hget)

end Record

/-! ## One value -/

namespace FieldValue

/-- The value of a field from the JSON value under its key. -/
def ofValue (x : Option Value) (t : MemberType) : FieldValue :=
  match t.base, t.optional with
  | .text, false => text ((x.bind Value.asText?).getD "")
  | .text, true => text? (x.bind Value.asText?)
  | .flag, false => flag ((x.bind Value.asFlag?).getD false)
  | .flag, true => flag? (x.bind Value.asFlag?)
  | .number, false => number ((x.bind Value.asNumber?).getD (.zero false))
  | .number, true => number? (x.bind Value.asNumber?)
  | .dateTime, _ => timestamp ((x.map Value.asTimestamp).getD .unset)
  | .idList, _ => ids ((x.map Value.asIds).getD [])
  | .json, _ => json (x.getD .null)

theorem ofRecord_eq (r : Record) (key : String) (t : MemberType) :
    ofRecord r key t = ofValue (r.get? key) t := by
  obtain ⟨base, optional⟩ := t
  cases base <;> cases optional <;> rfl

theorem write_eq (v : FieldValue) (key : String) (r : Record) :
    v.write key r = r.put key v.toJson? := by
  unfold write
  cases v.toJson? <;> rfl

end FieldValue

/-- What is written of a part of where a record comes from. -/
def RecordMeta.kept (x : Option Value) : Option Value :=
  if (x.bind Value.asText?).getD "" = "" then none
  else some (.string ((x.bind Value.asText?).getD ""))

/-- What is written of a shared timestamp. -/
def Timestamps.kept (x : Option Value) : Option Value :=
  if ((x.map Value.asTimestamp).getD .unset).isUnset then none
  else some ((x.map Value.asTimestamp).getD .unset).toJson

/-! ## A whole model -/

namespace Collection

variable {c : Collection}

/-- The keys of the members that are no fields. -/
def ownKeys : List String := [collectionIdKey, collectionNameKey, idKey, createdKey, updatedKey]

/-- What the members that are no fields write under a key. -/
def ownKept (c : Collection) (key : String) (x : Option Value) : Option Value :=
  if key = collectionIdKey ∨ key = collectionNameKey then RecordMeta.kept x
  else if key = idKey then
    if c.hasIdField then none else some (.string ((x.bind Value.asText?).getD ""))
  else if key = createdKey ∨ key = updatedKey then
    if c.sharesTimestamps then Timestamps.kept x else none
  else none

theorem ownKept_of_notMem {key : String} (h : key ∉ ownKeys) (x : Option Value) :
    c.ownKept key x = none := by
  simp only [ownKeys, List.mem_cons, List.not_mem_nil, or_false, not_or] at h
  obtain ⟨hid, hname, hrecord, hcreated, hupdated⟩ := h
  simp [ownKept, hid, hname, hrecord, hcreated, hupdated]

/-- What the field with a key writes, if there is one. -/
def fieldKept (c : Collection) (key : String) (x : Option Value) : Option Value :=
  (c.field? key).bind fun f => (FieldValue.ofValue x f.type).toJson?

/-- What is written under a key. A field comes after the other members. -/
def kept (c : Collection) (key : String) (x : Option Value) : Option Value :=
  (c.fieldKept key x).or (c.ownKept key x)

theorem field?_eq (hc : (c.fields.map Field.key).Nodup) {f : Field} (hf : f ∈ c.fields) :
    c.field? f.key = some f := by
  unfold field?
  cases hfind : c.fields.find? fun g => g.key == f.key with
  | none => exact absurd (List.find?_eq_none.mp hfind f hf) (by simp)
  | some g =>
    have hkey : g.key = f.key := by simpa using List.find?_some hfind
    rw [List.inj_on_of_nodup_map hc (List.mem_of_find?_eq_some hfind) hf hkey]

theorem fieldKept_of_notMem {key : String} (h : key ∉ c.fields.map Field.key) (x : Option Value) :
    c.fieldKept key x = none := by
  have hfind : c.field? key = none := by
    refine List.find?_eq_none.mpr fun f hf heq => h ?_
    exact List.mem_map.mpr ⟨f, hf, by simpa using heq⟩
  simp [fieldKept, hfind]

end Collection

namespace Instance

open Collection

variable {c : Collection}

/-- The record that a model of a collection writes after it was read from a record. -/
def normalized (c : Collection) (r : Record) : Record := (ofRecord c r).toRecord

theorem writeFields_eq (r out : Record) (fields : List Field)
    (h : ∀ f ∈ fields, c.field? f.key = some f) :
    writeFields fields (fields.map fun f => .ofRecord r f.key f.type) out =
      Record.putAll (fun key => c.fieldKept key (r.get? key)) (fields.map Field.key) out := by
  induction fields generalizing out with
  | nil => rfl
  | cons f fields ih =>
    have hf : c.fieldKept f.key (r.get? f.key) =
        (FieldValue.ofRecord r f.key f.type).toJson? := by
      rw [fieldKept, h f List.mem_cons_self, FieldValue.ofRecord_eq]
      rfl
    rw [List.map_cons, writeFields, FieldValue.write_eq,
      ih _ fun g hg => h g (List.mem_cons_of_mem _ hg), List.map_cons, Record.putAll_cons, hf]

/-- All members write one after the other, those that are no fields first. -/
theorem normalized_eq (hc : (c.fields.map Field.key).Nodup) (r : Record) :
    normalized c r =
      Record.putAll (fun key => c.fieldKept key (r.get? key)) (c.fields.map Field.key)
        (Record.putAll (fun key => c.ownKept key (r.get? key)) ownKeys .empty) := by
  have hmeta : (RecordMeta.ofRecord r).write .empty =
      (Record.empty.put collectionIdKey (c.ownKept collectionIdKey (r.get? collectionIdKey))).put
        collectionNameKey (c.ownKept collectionNameKey (r.get? collectionNameKey)) := by
    simp only [ownKept, true_or, or_true, if_true, RecordMeta.kept, Record.put_ite]
    rfl
  have hid (out : Record) : (if c.hasIdField then out
      else out.set idKey (.string (if c.hasIdField then "" else r.text idKey))) =
      out.put idKey (c.ownKept idKey (r.get? idKey)) := by
    have hown : ¬(idKey = collectionIdKey ∨ idKey = collectionNameKey) := by decide
    by_cases h : c.hasIdField <;> simp [ownKept, hown, h, Record.text, Record.text?, Record.put]
  have hstamps (out : Record) : (if c.sharesTimestamps then
      (if c.sharesTimestamps then Timestamps.ofRecord r else {}).write out else out) =
      (out.put createdKey (c.ownKept createdKey (r.get? createdKey))).put updatedKey
        (c.ownKept updatedKey (r.get? updatedKey)) := by
    have hcreated : ¬(createdKey = collectionIdKey ∨ createdKey = collectionNameKey) ∧
        createdKey ≠ idKey := by decide
    have hupdated : ¬(updatedKey = collectionIdKey ∨ updatedKey = collectionNameKey) ∧
        updatedKey ≠ idKey := by decide
    by_cases h : c.sharesTimestamps
    · simp [ownKept, hcreated, hupdated, h, Timestamps.kept, Timestamps.write, Timestamps.ofRecord,
        Record.timestamp]
    · simp [ownKept, hcreated, hupdated, h, Record.put]
  unfold normalized toRecord ofRecord
  rw [writeFields_eq r _ _ fun f hf => field?_eq hc hf]
  simp only [hmeta, hid, hstamps]
  rfl

theorem increasing_normalized (hc : (c.fields.map Field.key).Nodup) (r : Record) :
    (normalized c r).Increasing := by
  rw [normalized_eq hc]
  exact (Record.increasing_empty.putAll _ _).putAll _ _

theorem get?_normalized (hc : (c.fields.map Field.key).Nodup) (r : Record) (key : String) :
    (normalized c r).get? key = c.kept key (r.get? key) := by
  rw [normalized_eq hc, Record.get?_putAll, Record.get?_putAll, Record.get?_empty, Option.or_none,
    kept]
  by_cases hown : key ∈ ownKeys
  · by_cases hfield : key ∈ c.fields.map Field.key
    · simp [hown, hfield]
    · simp [hown, hfield, fieldKept_of_notMem hfield]
  · by_cases hfield : key ∈ c.fields.map Field.key
    · simp [hown, hfield, ownKept_of_notMem hown]
    · simp [hown, hfield, fieldKept_of_notMem hfield, ownKept_of_notMem hown]

end Instance
end TypedCollections
