import TypedCollections.Proofs.Service.Ending

/-!
What is sent for a model. A changed model is sent as the record that it is written to. A new one is
sent without the id if that record tells none; a record tells texts only, so an id that is no text
is left out as well.
-/

namespace TypedCollections

open Json (Value)

namespace Record

variable {r : Record}

/-- What the record tells for its id is empty unless it is a text that is not. -/
theorem exactText_eq_empty_iff {key : String} :
    r.exactText key = "" ↔ ∀ s, r.get? key = some (.string s) → s = "" := by
  unfold exactText
  cases r.get? key with
  | none => simp
  | some v => cases v <;> simp [Value.string?]

end Record

namespace Service

variable {α : Type} [Model α]

/-- The request of a call about one record. -/
def recordRequest (method : Method) (path : String) (options : Option RecordOptions)
    (body : Body := .absent) : Request where
  method := method
  path := path
  query := (options.map RecordOptions.query).getD []
  body := body

/-- The id is left out exactly if the record tells none, and nothing else is. -/
theorem get?_newRecord (m : α) (key : String) :
    (newRecord m).get? key =
      if key = idKey ∧ (Model.toRecord m).exactText idKey = "" then none
      else (Model.toRecord m).get? key := by
  have hid : Model.id (Model.toRecord m) = (Model.toRecord m).exactText idKey := rfl
  unfold newRecord
  dsimp only
  rw [hid]
  by_cases hempty : (Model.toRecord m).exactText idKey = ""
  · rw [if_pos hempty]
    by_cases hkey : key = idKey
    · rw [hkey, Record.get?_erase_self, if_pos ⟨rfl, hempty⟩]
    · rw [Record.get?_erase_of_ne hkey, if_neg fun h => hkey h.1]
  · rw [if_neg hempty, if_neg fun h => hempty h.2]

/-- A new model is sent once, as the record that it is written to, of which nothing but the id can
be left out. An id that is a text is sent unless it is empty, and then the record is sent as it is.
Null, the empty text and all values that are no text are left out. A changed model is sent once, as
its whole record. -/
theorem create_update_send (collection : String) (m : α) (options : Option RecordOptions)
    (s : Session) :
    (∃ sent : Record,
      (create collection m options s).2 = s.later
        [recordRequest .post (Request.recordsPath collection) options (.json sent.toJson)] ∧
      (∀ key, key ≠ "id" → sent.get? key = (Model.toRecord m).get? key) ∧
      (∀ id, id ≠ "" → (Model.toRecord m).get? "id" = some (.string id) →
        sent = Model.toRecord m) ∧
      ((∀ id, (Model.toRecord m).get? "id" = some (.string id) → id = "") →
        sent.get? "id" = none)) ∧
    ∀ id, (update collection id m options s).2 = s.later
      [recordRequest .patch (Request.recordPath collection id) options
        (.json (Model.toRecord m).toJson)] := by
  have hkey : "id" = idKey := rfl
  refine ⟨⟨newRecord m, congrArg Prod.snd (call_eq _ _ _), ?_, ?_, ?_⟩, fun id =>
    congrArg Prod.snd (call_eq _ _ _)⟩
  · intro key hne
    rw [get?_newRecord, if_neg fun h => hne h.1]
  · intro id hne hid
    have htold : Model.id (Model.toRecord m) ≠ "" := fun h =>
      hne (Record.exactText_eq_empty_iff.mp h id hid)
    exact if_neg htold
  · intro hempty
    rw [get?_newRecord, if_pos ⟨hkey, Record.exactText_eq_empty_iff.mpr hempty⟩]

def numericRecord : Record := ⟨[("id", .number (.integer 12)), ("title", .string "x")]⟩

/-- A number is no id for the record, so it is not sent; it would be sent with a change. -/
theorem create_numericId :
    (create "posts" numericRecord none { pending := [], exhausted := ⟨599, ""⟩ }).2.sent.map
        Request.body = [.json (.object [("title", .string "x")])] ∧
      (update "posts" "12" numericRecord none { pending := [], exhausted := ⟨599, ""⟩ }).2.sent.map
        Request.body = [.json numericRecord.toJson] :=
  ⟨rfl, rfl⟩

end Service
end TypedCollections
