import TypedCollections.Proofs.Json.Reading
import TypedCollections.Schema.Document

/-!
What a schema document declares, read off its tree. `fillsField` and `fillsCollection` say what the
value of each key means; an accepted document is a list of trees that declare its collections.
-/
namespace TypedCollections.Schema

open Json

/-- What the value of a known key makes of a field. -/
def fillsField (key : String) (tree : Tree) (f g : DeclaredField) : Prop :=
  if key = "name" then ∃ x, IsText tree x ∧ g = { f with name := x }
  else if key = "type" then ∃ x, IsText tree x ∧ g = { f with kind := x }
  else if key = "required" then ∃ x, IsFlag tree x ∧ g = { f with required := x }
  else if key = "system" then ∃ x, IsFlag tree x ∧ g = { f with system := x }
  else ∃ x, IsFlag tree x ∧ g = { f with hidden := x }

def DeclaresField (tree : Tree) (f : DeclaredField) : Prop :=
  ∃ x, fieldShape.Means fillsField tree x ∧ f = x.1

/-- What the value of a known key makes of a collection. -/
def fillsCollection (key : String) (tree : Tree) (c d : DeclaredCollection) : Prop :=
  if key = "id" then ∃ x, IsNullOr IsText tree x ∧ d = { c with id := x }
  else if key = "name" then ∃ x, IsText tree x ∧ d = { c with name := x }
  else if key = "type" then ∃ x, IsNullOr IsText tree x ∧ d = { c with kind := x }
  else if key = "system" then ∃ x, IsFlag tree x ∧ d = { c with system := x }
  else if key = "fields" then
    ∃ x, IsNullOr (IsListOf DeclaresField) tree x ∧ d = { c with fields := x }
  else ∃ x, IsNullOr (IsListOf DeclaresField) tree x ∧ d = { c with schema := x }

/-- The tree gives the values of the collection, under the keys that it is noted to have. -/
def Declares (tree : Tree) (c : DeclaredCollection) : Prop :=
  ∃ x, collectionShape.Means fillsCollection tree x ∧ c = { x.1 with keys := x.2 }

/-! ## Accepted documents -/

theorem fill_field_ok (key : String) (f : DeclaredField) :
    Accepts (fieldShape.fill key f) fun tree g => fillsField key tree f g := by
  unfold fillsField fieldShape
  dsimp only
  split
  · exact text_ok.map fun x => { f with name := x }
  split
  · exact text_ok.map fun x => { f with kind := x }
  split
  · exact flag_ok.map fun x => { f with required := x }
  split
  · exact flag_ok.map fun x => { f with system := x }
  · exact flag_ok.map fun x => { f with hidden := x }

theorem readField_ok : Accepts readField DeclaresField :=
  (Shape.read_ok fun key _ => fill_field_ok key).map Prod.fst

theorem fill_collection_ok (key : String) (c : DeclaredCollection) :
    Accepts (collectionShape.fill key c) fun tree d => fillsCollection key tree c d := by
  unfold fillsCollection collectionShape
  dsimp only
  split
  · exact (orNull_ok text_ok).map fun x => { c with id := x }
  split
  · exact text_ok.map fun x => { c with name := x }
  split
  · exact (orNull_ok text_ok).map fun x => { c with kind := x }
  split
  · exact flag_ok.map fun x => { c with system := x }
  split
  · exact (orNull_ok (listOf_ok readField_ok)).map fun x => { c with fields := x }
  · exact (orNull_ok (listOf_ok readField_ok)).map fun x => { c with schema := x }

theorem readCollection_ok : Accepts readCollection Declares :=
  (Shape.read_ok fun key _ => fill_collection_ok key).map fun x =>
    ({ x.1 with keys := x.2 } : DeclaredCollection)

/-- An accepted document spells a list, whose items declare the collections in their order. -/
theorem readDocument_ok {bytes : Bytes} {declared : List DeclaredCollection}
    (h : readDocument bytes = .ok declared) :
    ∃ items, SpellsPadded (.list items) bytes ∧ List.Forall₂ Declares items declared := by
  obtain ⟨tree, htree, items, rfl, hall⟩ := readAll_ok (listOf_ok readCollection_ok) h
  exact ⟨items, htree, hall⟩

/-! ## The keys of a collection -/

variable {c : DeclaredCollection}

theorem Declares.object_or_list {tree : Tree} (h : Declares tree c) :
    (∃ members, tree = .object members) ∨ ∃ values, tree = .list values := by
  obtain ⟨x, ⟨entries, hgives, -, -⟩, rfl⟩ := h
  cases hgives with
  | object => exact .inl ⟨_, rfl⟩
  | list => exact .inr ⟨_, rfl⟩

/-- A collection that is written as an object has the keys that are denoted there. -/
theorem Declares.mem_keys_iff {members : List (Bytes × Tree)} (h : Declares (.object members) c)
    {key : String} (hkey : key ∈ collectionShape.keys) :
    key ∈ c.keys ↔ ∃ member ∈ members, Denotes member.1 key := by
  obtain ⟨x, ⟨entries, hgives, -, hkeys⟩, rfl⟩ := h
  dsimp only
  rw [hkeys]
  exact hgives.mem_keys_iff hkey

/-- A collection that is written as a list has a key for each of its values. -/
theorem Declares.keys_eq_take {values : List Tree} (h : Declares (.list values) c) :
    values.length ≤ 6 ∧ c.keys = collectionShape.keys.take values.length := by
  obtain ⟨x, ⟨entries, hgives, -, hkeys⟩, rfl⟩ := h
  dsimp only
  rw [hkeys]
  exact hgives.keys_eq_take

/-- Each list of fields is filled in by its own key. -/
theorem fields_or_schema_of_fills {key : String} (hkey : key ∈ collectionShape.keys) {tree : Tree}
    {d : DeclaredCollection} (h : fillsCollection key tree c d) :
    (key ≠ "fields" → d.fields = c.fields) ∧ (key ≠ "schema" → d.schema = c.schema) := by
  simp only [collectionShape, List.mem_cons, List.not_mem_nil, or_false] at hkey
  rcases hkey with rfl | rfl | rfl | rfl | rfl | rfl <;>
    · obtain ⟨x, -, rfl⟩ := h
      simp

/-- A field list whose key is missing is missing itself. -/
theorem Declares.lists_eq_none {tree : Tree} (h : Declares tree c) :
    ("fields" ∉ c.keys → c.fields = none) ∧ ("schema" ∉ c.keys → c.schema = none) := by
  obtain ⟨x, ⟨entries, -, hfilled, hkeys⟩, rfl⟩ := h
  dsimp only
  rw [hkeys]
  constructor
  · refine hfilled.eq_start DeclaredCollection.fields ?_
    intro k hk hne tree y z hfills
    exact (fields_or_schema_of_fills hk hfills).1 hne
  · refine hfilled.eq_start DeclaredCollection.schema ?_
    intro k hk hne tree y z hfills
    exact (fields_or_schema_of_fills hk hfills).2 hne

end TypedCollections.Schema
