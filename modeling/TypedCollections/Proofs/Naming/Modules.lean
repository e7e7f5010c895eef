import TypedCollections.Proofs.Naming.Legality

/-!
The names of structs, of their modules and of the files of these. The reserved names of structs only
ever get longer, so a struct keeps the form of an identifier, and every identifier comes back from
its snake case; and a module still tells its struct, since an underscore at the end is the only thing
that snake case does not have.
-/

namespace TypedCollections.Identifier

/-- A word that is no keyword, so that it needs no mark. -/
def IsPlain (name : String) : Prop :=
  isWord name.toList ∧ name ∉ usedWords ∧ name ∉ keptWords

theorem isPascal_structName {identifier : String} (h : IsPascal identifier.toList) :
    IsPascal (structName identifier).toList := by
  unfold structName
  split
  · rw [String.toList_append]
    exact h.append (by simp)
  · exact h

/-- The canonical form of a name in snake case is the identifier that the name was made of. So no
two identifiers have one name in snake case, and none of these names ends with an underscore. The
identifiers are all that is generated: the canonical form of any name, the name of its struct, and
the form with a number that tells it from others. -/
theorem snake_restored :
    (∀ identifier : String, IsPascal identifier.toList →
      canonical? (snake identifier) = some identifier ∧
        (snake identifier).toList.getLast? ≠ some '_') ∧
    Set.InjOn snake {identifier | IsPascal identifier.toList} ∧
    ∀ (name identifier : String) (n : Nat), canonical? name = some identifier →
      ∀ made ∈ [identifier, structName identifier, identifier ++ toString n],
        IsPascal made.toList := by
  refine ⟨fun identifier h => ⟨canonical?_snake h, ?_⟩, ?_, fun name identifier n h => ?_⟩
  · obtain ⟨c, rest, hchars, -, -, hlast⟩ := snake_shape h
    rwa [hchars]
  · intro a ha b hb hsame
    exact snake_injective ha hb hsame
  · have hpascal : IsPascal identifier.toList := isPascal_of_canonical? h
    simp only [List.forall_mem_cons]
    exact ⟨hpascal, isPascal_structName hpascal, hpascal.numbered n, by simp⟩

/-- Words of one letter, a digit within a word, a struct that would hide a type, and a number. -/
theorem snake_restored_shortWords :
    (canonical? "a_b1_c" = some "AB1C" ∧ snake "AB1C" = "a_b1_c") ∧
      (structName "Record" = "RecordModel" ∧ canonical? "record_model" = some "RecordModel") ∧
      canonical? (snake ("HttpUrl" ++ toString 12)) = some ("HttpUrl" ++ toString 12) := by
  obtain ⟨hrestored, -, hmade⟩ := snake_restored
  have hshort : IsPascal "AB1C".toList := ⟨by simp, by simp⟩
  have hstruct := hmade "record" "Record" 2 (by decide +kernel) (structName "Record") (by simp)
  have hnumbered :=
    hmade "HTTP-URL" "HttpUrl" 12 (by decide +kernel) ("HttpUrl" ++ toString 12) (by simp)
  have hsnake : snake "AB1C" = "a_b1_c" := by decide
  have hname : structName "Record" = "RecordModel" := by decide
  rw [hname] at hstruct
  refine ⟨⟨?_, hsnake⟩, ⟨hname, ?_⟩, (hrestored _ hnumbered).1⟩
  · rw [← hsnake]
    exact (hrestored _ hshort).1
  · exact (hrestored _ hstruct).1

theorem moduleName_cases (structName : String) :
    moduleName structName = snake structName ∨ moduleName structName = snake structName ++ "_" := by
  unfold moduleName
  dsimp only
  split
  · exact .inr rfl
  · exact .inl rfl

variable {structName : String}

theorem isSnake_moduleName (h : IsPascal structName.toList) :
    IsSnake (moduleName structName).toList := by
  rcases moduleName_cases structName with heq | heq
  · rw [heq]
    exact isSnake_snake h
  · rw [heq, String.toList_append]
    exact (isSnake_snake h).append (by simp)

theorem stem_moduleName (h : IsPascal structName.toList) :
    stem (moduleName structName) = (snake structName).toList := by
  rcases moduleName_cases structName with heq | heq
  · rw [heq, stem_snake h]
  · rw [heq, stem_append_underscore, stem_snake h]

theorem moduleName_injective {a b : String} (ha : IsPascal a.toList) (hb : IsPascal b.toList)
    (h : moduleName a = moduleName b) : a = b := by
  have hstem := congrArg stem h
  rw [stem_moduleName ha, stem_moduleName hb] at hstem
  exact snake_injective ha hb (String.toList_injective hstem)

theorem isPlain_moduleName (h : IsPascal structName.toList) : IsPlain (moduleName structName) := by
  refine ⟨(isSnake_moduleName h).isWord, ?_⟩
  unfold moduleName
  dsimp only
  split
  · exact ⟨append_underscore_notMem _ (by decide), append_underscore_notMem _ (by decide)⟩
  · next hword =>
    have hfree : snake structName ∉ usedWords ++ keptWords :=
      fun hm => hword (reserved_of_mem hm).symm
    exact ⟨fun hm => hfree (List.mem_append_left _ hm),
      fun hm => hfree (List.mem_append_right _ hm)⟩

/-- The file of a module is never the index. -/
theorem fileName_ne_index (h : IsPascal structName.toList) :
    moduleName structName ++ ".rs" ≠ "mod" ++ ".rs" := by
  intro heq
  have hname : moduleName structName = "mod" := (String.append_left_inj ".rs").mp heq
  exact (isPlain_moduleName h).2.1 (hname ▸ by decide)

theorem fileName_injective {a b : String} (ha : IsPascal a.toList) (hb : IsPascal b.toList)
    (h : moduleName a ++ ".rs" = moduleName b ++ ".rs") : a = b :=
  moduleName_injective ha hb ((String.append_left_inj ".rs").mp h)

theorem toLower_of_isSmall {c : Char} (h : isSmall c) : c.toLower = c := by
  refine Char.toLower_eq_of_not_isUpper fun hupper => ?_
  have hlower : c.isLower = false := by simpa using Char.not_isLower_of_isUpper hupper
  have hdigit : c.isDigit = false := isDigit_eq_false_of_isAlpha (by simp [Char.isAlpha, hupper])
  simp [isSmall, hlower, hdigit] at h

/-- The file of a module is named in small letters, so its name is the same in any case. -/
theorem toLower_fileName (h : IsPascal structName.toList) :
    (moduleName structName ++ ".rs").toLower = moduleName structName ++ ".rs" := by
  have hname : (moduleName structName).toList.map Char.toLower =
      (moduleName structName).toList := by
    refine (List.map_congr_left (g := id) fun c hc => ?_).trans (List.map_id _)
    rcases (isSnake_moduleName h).small c hc with hsmall | rfl
    · exact toLower_of_isSmall hsmall
    · rfl
  apply String.toList_injective
  rw [String.toLower, String.toList_map, String.toList_append, List.map_append, hname]
  simp

end TypedCollections.Identifier
