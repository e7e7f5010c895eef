import TypedCollections.Model.Member
import TypedCollections.Proofs.Model.Loading
import TypedCollections.Proofs.Naming.Legality

/-!
The names of the members and of the setters of a generated struct. Underscores are only ever added
at the end of a name and the name in snake case has none there, so the stem of each name still tells
the identifier of its field, which no other field has.
-/

namespace TypedCollections

open Identifier (IsLegal IsPascal IsSnake bare stem snake)

namespace Field

variable {f : Field}

theorem setterName_cases (f : Field) :
    f.setterName = snake f.identifier ∨ f.setterName = snake f.identifier ++ "_" := by
  unfold setterName
  simp only
  split
  · exact .inr rfl
  · exact .inl rfl

theorem isSnake_setterName (h : IsPascal f.identifier.toList) : IsSnake f.setterName.toList := by
  rcases f.setterName_cases with heq | heq
  · rw [heq]
    exact Identifier.isSnake_snake h
  · rw [heq, String.toList_append]
    exact (Identifier.isSnake_snake h).append (by simp)

theorem stem_setterName (h : IsPascal f.identifier.toList) :
    stem f.setterName = (snake f.identifier).toList := by
  rcases f.setterName_cases with heq | heq
  · rw [heq, Identifier.stem_snake h]
  · rw [heq, Identifier.stem_append_underscore, Identifier.stem_snake h]

theorem stem_memberName (h : IsPascal f.identifier.toList) :
    stem (bare f.memberName) = (snake f.identifier).toList := by
  rcases Identifier.bare_escaped (isSnake_setterName h) with heq | heq
  · rw [memberName, heq, stem_setterName h]
  · rw [memberName, heq, Identifier.stem_append_underscore, stem_setterName h]

/-- The setter is named for none of the members that are no fields. -/
theorem setterName_notMem (f : Field) : f.setterName ∉ reservedMembers := by
  unfold setterName
  simp only
  split
  · exact Identifier.append_underscore_notMem _ (by decide)
  · next h => exact fun hm => h (.inl hm)

theorem setterName_ne_id (h : f.key ≠ "id") : f.setterName ≠ "id" := by
  unfold setterName
  simp only
  split
  · exact Identifier.append_underscore_ne _ (by decide)
  · next hne => exact fun hid => hne (.inr ⟨hid, h⟩)

/-- A word that does not end with an underscore is the name of the member only if the setter is
named for it too. -/
theorem memberName_ne (hf : IsPascal f.identifier.toList) {word : String}
    (hword : word.toList.getLast? ≠ some '_') (h : f.setterName ≠ word) :
    bare f.memberName ≠ word := by
  rcases Identifier.bare_escaped (isSnake_setterName hf) with heq | heq
  · rwa [memberName, heq]
  · rw [memberName, heq]
    exact Identifier.append_underscore_ne _ hword

end Field

namespace Member

@[simp] theorem name_field (f : Field) : (field f).name = f.memberName := rfl

theorem isLegal_name {m : Member} (h : ∀ f, m = field f → IsPascal f.identifier.toList) :
    IsLegal m.name := by
  cases m with
  | recordMeta => decide
  | recordId => decide
  | timestamps => decide
  | field f => exact Identifier.isLegal_escaped (Field.isSnake_setterName (h f rfl))

/-- No keyword starts like the name of a setter. -/
theorem isLegal_setter {f : Field} (h : IsPascal f.identifier.toList) :
    IsLegal ("set_" ++ f.setterName) := by
  have hkeyword : ∀ word ∈ Identifier.usedWords ++ Identifier.keptWords,
      word.toList.take 4 ≠ "set_".toList := by decide
  have hfree : "set_" ++ f.setterName ∉ Identifier.usedWords ++ Identifier.keptWords := by
    intro hm
    refine hkeyword _ hm ?_
    rw [String.toList_append]
    exact List.take_left' rfl
  have hsnake : IsSnake ("set_" ++ f.setterName).toList := by
    rw [String.toList_append]
    refine IsSnake.append ⟨'s', ['e', 't', '_'], rfl, by decide, by simp [Identifier.isSmall]⟩ ?_
    exact (Field.isSnake_setterName h).small
  exact .inl ⟨hsnake.isWord, fun hm => hfree (List.mem_append_left _ hm),
    fun hm => hfree (List.mem_append_right _ hm)⟩

end Member

namespace Collection

variable {c : Collection}

theorem key_ne_id (h : c.hasIdField = false) {f : Field} (hf : f ∈ c.fields) : f.key ≠ "id" := by
  intro heq
  have hfind : c.field? "id" = none := by simpa [hasIdField] using h
  exact List.find?_eq_none.mp hfind f hf (by simp [heq])

/-- The members that are no fields. -/
def ownMembers (c : Collection) : List Member :=
  .recordMeta :: (if c.hasIdField then [] else [.recordId])
    ++ (if c.sharesTimestamps then [.timestamps] else [])

theorem field_notMem_ownMembers (c : Collection) (f : Field) : .field f ∉ c.ownMembers := by
  unfold ownMembers
  split <;> split <;> simp

theorem members_eq (c : Collection) : c.members = c.ownMembers ++ c.fields.map .field := rfl

theorem ownNames_nodup (c : Collection) : (c.ownMembers.map fun m => bare m.name).Nodup := by
  unfold ownMembers
  split <;> split <;> decide

variable (hc : Selection.Distinct c.dialect c.fields)

include hc

theorem snakes_nodup : (c.fields.map fun f => (snake f.identifier).toList).Nodup := by
  have hidentifiers := hc.identifiers
  refine (List.nodup_map_iff_inj_on hidentifiers.of_map).mpr ?_
  intro f hf g hg heq
  have hsame := Identifier.snake_injective (hc.pascal f hf) (hc.pascal g hg)
    (String.toList_injective heq)
  exact List.inj_on_of_nodup_map hidentifiers hf hg hsame

theorem fieldNames_nodup : (c.fields.map fun f => bare f.memberName).Nodup := by
  refine List.Nodup.of_map stem ?_
  rw [List.map_map]
  have hstems : c.fields.map (stem ∘ fun f => bare f.memberName) =
      c.fields.map fun f => (snake f.identifier).toList := by
    refine List.map_congr_left fun f hf => ?_
    rw [Function.comp_apply, Field.stem_memberName (hc.pascal f hf)]
  rw [hstems]
  exact snakes_nodup hc

theorem setterNames_nodup : (c.fields.map fun f => "set_" ++ f.setterName).Nodup := by
  have hnames : (c.fields.map Field.setterName).Nodup := by
    refine List.Nodup.of_map stem ?_
    rw [List.map_map]
    have hstems : c.fields.map (stem ∘ Field.setterName) =
        c.fields.map fun f => (snake f.identifier).toList := by
      refine List.map_congr_left fun f hf => ?_
      rw [Function.comp_apply, Field.stem_setterName (hc.pascal f hf)]
    rw [hstems]
    exact snakes_nodup hc
  have hinj : Function.Injective fun name : String => "set_" ++ name := by
    intro a b h
    have hl := congrArg String.toList h
    simp only [String.toList_append] at hl
    exact String.toList_injective (List.append_cancel_left hl)
  have hmapped := hnames.map hinj
  rwa [List.map_map] at hmapped

/-- No field is called like a member that is none. -/
theorem bare_name_ne {m : Member} (hm : m ∈ c.ownMembers) {f : Field} (hf : f ∈ c.fields) :
    bare m.name ≠ bare f.memberName := by
  have hpascal := hc.pascal f hf
  have hreserved : ∀ word ∈ reservedMembers, f.setterName ≠ word :=
    fun word hw heq => f.setterName_notMem (heq ▸ hw)
  cases m with
  | recordMeta =>
    exact (Field.memberName_ne hpascal (by decide) (hreserved "meta" (by decide))).symm
  | timestamps =>
    exact (Field.memberName_ne hpascal (by decide) (hreserved "timestamps" (by decide))).symm
  | recordId =>
    have hnone : c.hasIdField = false := by
      unfold ownMembers at hm
      split at hm
      · split at hm <;> simp at hm
      · next h => simpa using h
    exact (Field.memberName_ne hpascal (by decide)
      (Field.setterName_ne_id (key_ne_id hnone hf))).symm
  | field g => exact absurd hm (field_notMem_ownMembers c g)

theorem names_nodup : (c.members.map fun m => bare m.name).Nodup := by
  have hfields : (fun m => bare (Member.name m)) ∘ Member.field = fun f => bare f.memberName := by
    funext f
    rw [Function.comp_apply, Member.name_field]
  rw [members_eq, List.map_append, List.map_map, hfields]
  refine (ownNames_nodup c).append (fieldNames_nodup hc) ?_
  rw [List.disjoint_left]
  intro name hown hfield
  obtain ⟨m, hm, rfl⟩ := List.mem_map.mp hown
  obtain ⟨f, hf, heq⟩ := List.mem_map.mp hfield
  exact bare_name_ne hc hm hf heq.symm

end Collection
end TypedCollections
