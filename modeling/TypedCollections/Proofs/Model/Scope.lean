import TypedCollections.Proofs.Model.Meanings

/-!
What the type names in the file of a model denote. A name that is both the struct of the file and
something else that the file mentions denotes the struct. The names that are kept from structs are
all that a file can mention but `Into`, of which the setter of a text makes use.
-/

namespace TypedCollections

open Code

/-- The types and traits that are in scope everywhere. -/
def standardNames : List String :=
  ["Send", "Sized", "Sync", "Unpin", "Drop", "Fn", "FnMut", "FnOnce", "AsyncFn", "AsyncFnMut",
    "AsyncFnOnce", "Box", "ToOwned", "Clone", "Copy", "Eq", "Ord", "PartialEq", "PartialOrd",
    "AsMut", "AsRef", "From", "Into", "TryFrom", "TryInto", "Default", "DoubleEndedIterator",
    "ExactSizeIterator", "Extend", "FromIterator", "IntoIterator", "Iterator", "Option", "Result",
    "String", "ToString", "Vec"]

/-- What a type name denotes in a file that defines a struct and imports items of the runtime
library. The items of the file come before the standard ones, and primitive types come last. Nothing
is denoted by a name that two items of the file have. -/
def resolve? (structName : String) (imports : List String) (name : String) : Option Meaning :=
  if name = "Self" then some .itself
  else if name = structName then if name ∈ imports then none else some .own
  else if name ∈ imports then some (.runtime name)
  else if name ∈ standardNames then some (.standard name)
  else if name ∈ primitives then some (.primitive name)
  else none

theorem Identifier.structName_notMem (identifier : String) :
    structName identifier ∉ usedTypeNames := by
  have hlong : ∀ name ∈ usedTypeNames, name ++ "Model" ∉ usedTypeNames := by decide +kernel
  unfold structName
  split
  · next hused => exact hlong identifier hused
  · next hfree => exact hfree

/-- The items of the runtime library that a file can import. -/
def importable : List String :=
  ["DateTime", "HasTimestamps", "Model", "Record", "RecordMeta", "Timestamps"]

/-! ## Types and members -/

theorem FieldType.runtime_mem_meanings_iff {t : FieldType} {item : String} :
    .runtime item ∈ t.meanings ↔ t.importedItem = some item := by
  cases t <;> simp [meanings, importedItem, eq_comm]

theorem MemberType.runtime_mem_meanings_iff {t : MemberType} {item : String} :
    .runtime item ∈ t.meanings ↔ t.base.importedItem = some item := by
  rw [← FieldType.runtime_mem_meanings_iff, meanings]
  split <;> simp

/-- The meanings of the names that no struct may have. -/
def foreignMeanings : List Meaning :=
  [.itself, .runtime "Model", .runtime "Record", .runtime "RecordMeta", .runtime "DateTime",
    .runtime "HasTimestamps", .runtime "Timestamps", .standard "String", .standard "Option",
    .standard "Vec", .primitive "bool", .primitive "f64", .primitive "str"]

theorem FieldType.mem_foreignMeanings (t : FieldType) : ∀ m ∈ t.meanings, m ∈ foreignMeanings := by
  cases t <;> decide

theorem MemberType.mem_foreignMeanings (t : MemberType) :
    ∀ m ∈ t.meanings, m ∈ foreignMeanings := by
  obtain ⟨base, optional⟩ := t
  cases base <;> cases optional <;> decide

theorem Member.mem_foreignMeanings (member : Member) :
    ∀ m ∈ member.meanings ++ member.readingMeanings, m ∈ foreignMeanings := by
  cases member with
  | recordMeta | recordId | timestamps => decide
  | field f => simpa [meanings, readingMeanings] using f.type.mem_foreignMeanings

theorem Member.mem_setterMeanings {f : Field} {m : Meaning} (h : m ∈ (field f).setterMeanings) :
    (m = .standard "Into" ∧ f.type.base = .text) ∨ m ∈ foreignMeanings := by
  unfold setterMeanings at h
  dsimp only at h
  split at h
  · next htext =>
    rcases List.mem_cons.mp h with rfl | h
    · exact .inl ⟨rfl, htext⟩
    · rw [List.mem_singleton.mp h]
      exact .inr (by decide)
  · exact .inr (f.type.base.mem_foreignMeanings m h)

namespace Collection

variable {c : Collection} {item : String}

theorem mem_flatMap_members {part : Member → List Meaning} {m : Meaning} :
    m ∈ c.members.flatMap part ↔ m ∈ part .recordMeta ∨
      c.hasIdField = false ∧ m ∈ part .recordId ∨ c.sharesTimestamps ∧ m ∈ part .timestamps ∨
      ∃ f ∈ c.fields, m ∈ part (.field f) := by
  cases hid : c.hasIdField <;> cases hshared : c.sharesTimestamps <;>
    simp [members, hid, hshared]

theorem mem_imports_iff :
    item ∈ c.imports ↔ item ∈ ["Model", "Record", "RecordMeta"] ∨
      c.sharesTimestamps ∧ item ∈ ["HasTimestamps", "Timestamps"] ∨
      ∃ f ∈ c.fields, f.type.base.importedItem = some item := by
  have hdate : (∃ f ∈ c.fields, f.type.base.importedItem = some item) → item = "DateTime" := by
    rintro ⟨f, -, h⟩
    cases hbase : f.type.base <;> simp_all [FieldType.importedItem]
  have hshared : c.dialect.sharesTimestamps = c.sharesTimestamps := rfl
  simp only [imports, importedItems, Schema.Dialect.importedItems, hshared]
  cases c.sharesTimestamps <;> simp <;> grind

theorem runtime_mem_structMeanings :
    .runtime item ∈ c.structMeanings ↔ item = "RecordMeta" ∨
      c.sharesTimestamps ∧ item = "Timestamps" ∨
      ∃ f ∈ c.fields, f.type.base.importedItem = some item := by
  rw [structMeanings, List.mem_cons, mem_flatMap_members]
  simp [Member.meanings, MemberType.runtime_mem_meanings_iff]

theorem mem_inherentMeanings {m : Meaning} :
    m ∈ c.inherentMeanings ↔ m = .own ∨ m = .primitive "str" ∨
      ∃ f ∈ c.fields, m ∈ (Member.field f).setterMeanings := by
  have hconstant : m ∈ (c.id.map fun _ => [Meaning.primitive "str"]).getD [] →
      m = .primitive "str" := by
    cases c.id <;> simp
  have howned : ∀ member ∈ [Member.recordMeta, .recordId, .timestamps],
      member.setterMeanings = [] := by decide
  rw [inherentMeanings, List.mem_append, List.mem_append, mem_flatMap_members]
  simp only [List.forall_mem_cons] at howned
  simp only [howned]
  simp
  tauto

theorem runtime_mem_modelMeanings :
    .runtime item ∈ c.modelMeanings ↔ item ∈ ["Model", "Record", "RecordMeta"] ∨
      c.sharesTimestamps ∧ item = "Timestamps" := by
  simp only [modelMeanings, List.mem_append, mem_flatMap_members, Member.readingMeanings]
  simp
  tauto

theorem importedItem_of_setter {f : Field} (h : .runtime item ∈ (Member.field f).setterMeanings) :
    f.type.base.importedItem = some item := by
  unfold Member.setterMeanings at h
  dsimp only at h
  split at h
  · simp at h
  · exact FieldType.runtime_mem_meanings_iff.mp h

/-- What is imported is used, and what is used is imported. -/
theorem runtime_mem_meanings_iff : .runtime item ∈ c.meanings ↔ item ∈ c.imports := by
  have htimestamps : .runtime item ∈ (if c.sharesTimestamps then timestampsMeanings else []) ↔
      c.sharesTimestamps ∧ item ∈ ["HasTimestamps", "Timestamps"] := by
    split <;> simp_all [timestampsMeanings]
  rw [mem_imports_iff, meanings, List.mem_append, List.mem_append, List.mem_append,
    runtime_mem_structMeanings, mem_inherentMeanings, runtime_mem_modelMeanings, htimestamps]
  constructor
  · rintro ((((hmeta | hshared | hfield) | hown | hstr | ⟨f, hf, h⟩) | hmodel | hshared) |
      htimestamps)
    · simp [hmeta]
    · simp [hshared]
    · exact .inr (.inr hfield)
    · cases hown
    · cases hstr
    · exact .inr (.inr ⟨f, hf, importedItem_of_setter h⟩)
    · exact .inl hmodel
    · simp [hshared]
    · exact .inr (.inl htimestamps)
  · rintro (hmodel | htimestamps | hfield)
    · exact .inl (.inr (.inl hmodel))
    · exact .inr htimestamps
    · exact .inl (.inl (.inl (.inr (.inr hfield))))

theorem mem_modelMeanings {m : Meaning} (h : m ∈ c.modelMeanings) :
    m = .own ∨ m ∈ foreignMeanings := by
  have hhead : ∀ m ∈ [Meaning.runtime "Model", .own, .runtime "Record", .itself, .itself],
      m = .own ∨ m ∈ foreignMeanings := by decide
  have hend : ∀ m ∈ [Meaning.runtime "Record", .runtime "Record"] ++
      List.replicate 6 (.primitive "str"), m ∈ foreignMeanings := by decide
  rw [modelMeanings, List.append_assoc, List.mem_append, List.mem_append] at h
  rcases h with (hm | hm) | hm
  · exact hhead m hm
  · obtain ⟨member, -, hm⟩ := List.mem_flatMap.mp hm
    exact .inr (member.mem_foreignMeanings m (List.mem_append_right _ hm))
  · exact .inr (hend m hm)

/-- A name in the file is the one of the struct, or `Into`, or one that no struct may have. -/
theorem mem_meanings {m : Meaning} (h : m ∈ c.meanings) :
    m = .own ∨ (m = .standard "Into" ∧ ∃ f ∈ c.fields, f.type.base = .text) ∨
      m ∈ foreignMeanings := by
  rw [meanings, List.mem_append, List.mem_append, List.mem_append, mem_inherentMeanings] at h
  rcases h with ((hstruct | hown | hstr | ⟨f, hf, hm⟩) | hmodel) | htimestamps
  · rcases List.mem_cons.mp hstruct with hown | hm
    · exact .inl hown
    · obtain ⟨member, -, hm⟩ := List.mem_flatMap.mp hm
      exact .inr (.inr (member.mem_foreignMeanings m (List.mem_append_left _ hm)))
  · exact .inl hown
  · rw [hstr]
    exact .inr (.inr (by decide))
  · rcases Member.mem_setterMeanings hm with ⟨hinto, htext⟩ | hm
    · exact .inr (.inl ⟨hinto, f, hf, htext⟩)
    · exact .inr (.inr hm)
  · exact (mem_modelMeanings hmodel).imp_right .inr
  · have hall : ∀ m ∈ timestampsMeanings, m = .own ∨ m ∈ foreignMeanings := by decide
    split at htimestamps
    · exact (hall m htimestamps).imp_right .inr
    · cases htimestamps

theorem into_mem_meanings {f : Field} (hf : f ∈ c.fields) (h : f.type.base = .text) :
    .standard "Into" ∈ c.meanings := by
  have hsetter : .standard "Into" ∈ (Member.field f).setterMeanings := by
    simp [Member.setterMeanings, h]
  have hinherent := mem_inherentMeanings.mpr (.inr (.inr ⟨f, hf, hsetter⟩))
  exact List.mem_append_left _ (List.mem_append_left _ (List.mem_append_right _ hinherent))

end Collection

/-! ## Resolution -/

theorem Meaning.spelling_eq {m : Meaning} (h : m ≠ own) (s t : String) :
    m.spelling s = m.spelling t := by
  cases m with
  | own => exact absurd rfl h
  | itself | runtime | standard | primitive => rfl

namespace Collection

variable {c : Collection}

/-- A name that no struct may have is not the one of the struct. -/
theorem spelling_ne (hc : c.IsNamed) (hfree : c.structName ∉ usedTypeNames) {m : Meaning}
    (hm : m ∈ foreignMeanings) : m.spelling c.structName ≠ c.structName := by
  have hown : m ≠ .own := by
    rintro rfl
    exact absurd hm (by decide)
  have hnames : ∀ m ∈ foreignMeanings,
      m.spelling "" ∈ usedTypeNames ∨ m.spelling "" ∈ primitives := by decide
  have hsmall : ∀ name ∈ primitives, ¬name.toList.head?.any Char.isUpper := by decide
  rw [Meaning.spelling_eq hown c.structName ""]
  intro heq
  rcases hnames m hm with hused | hprimitive
  · exact hfree (heq ▸ hused)
  · exact hsmall _ hprimitive (heq ▸ hc.structName.head)

theorem mem_importable {item : String} (h : item ∈ c.imports) : item ∈ importable := by
  unfold imports at h
  exact List.mem_of_mem_filter h

theorem resolve?_own (hfree : c.structName ∉ usedTypeNames) :
    resolve? c.structName c.imports c.structName = some .own := by
  have hself : c.structName ≠ "Self" := fun heq => hfree (heq ▸ by decide)
  have hitems : ∀ item ∈ importable, item ∈ usedTypeNames := by decide
  have himports : c.structName ∉ c.imports := fun hm => hfree (hitems _ (mem_importable hm))
  rw [resolve?, if_neg hself, if_pos rfl, if_neg himports]

theorem resolve?_runtime {item : String} (h : item ∈ c.imports) (hne : item ≠ c.structName) :
    resolve? c.structName c.imports item = some (.runtime item) := by
  have hself : item ≠ "Self" := fun heq => absurd (mem_importable h) (heq ▸ by decide)
  rw [resolve?, if_neg hself, if_neg hne, if_pos h]

theorem resolve?_standard {name : String} (h : name ∈ ["String", "Option", "Vec", "Into"])
    (hne : name ≠ c.structName) :
    resolve? c.structName c.imports name = some (.standard name) := by
  have hall : ∀ name ∈ ["String", "Option", "Vec", "Into"], name ≠ "Self" ∧
      name ∉ importable ∧ name ∈ standardNames := by decide
  obtain ⟨hself, hitem, hstandard⟩ := hall name h
  rw [resolve?, if_neg hself, if_neg hne, if_neg fun hm => hitem (mem_importable hm),
    if_pos hstandard]

theorem resolve?_primitive {name : String} (h : name ∈ ["bool", "f64", "str"])
    (hne : name ≠ c.structName) :
    resolve? c.structName c.imports name = some (.primitive name) := by
  have hall : ∀ name ∈ ["bool", "f64", "str"], name ≠ "Self" ∧ name ∉ importable ∧
      name ∉ standardNames ∧ name ∈ primitives := by decide
  obtain ⟨hself, hitem, hstandard, hprimitive⟩ := hall name h
  rw [resolve?, if_neg hself, if_neg hne, if_neg fun hm => hitem (mem_importable hm),
    if_neg hstandard, if_pos hprimitive]

/-- A name with a meaning that is no struct's has it. -/
theorem resolve?_of_foreign (hc : c.IsNamed) (hfree : c.structName ∉ usedTypeNames) {m : Meaning}
    (hm : m ∈ foreignMeanings) (hmem : m ∈ c.meanings) :
    resolve? c.structName c.imports (m.spelling c.structName) = some m := by
  have hne := spelling_ne hc hfree hm
  cases m with
  | own => exact absurd hm (by decide)
  | itself => rfl
  | runtime item => exact resolve?_runtime (runtime_mem_meanings_iff.mp hmem) hne
  | standard name =>
    have hname : name ∈ ["String", "Option", "Vec"] := by simpa [foreignMeanings] using hm
    exact resolve?_standard (List.mem_append_left ["Into"] hname) hne
  | primitive name =>
    have hname : name ∈ ["bool", "f64", "str"] := by simpa [foreignMeanings] using hm
    exact resolve?_primitive hname hne

/-- The line with the imports. -/
def importLine (runtime : String) (c : Collection) : String :=
  "use " ++ runtime ++ "::\x7b" ++ ", ".intercalate c.imports ++ "\x7d;"

/-- The body of a file stands between the imports and the check at its end. -/
theorem content_ofCollection (runtime source : String) (c : Collection) :
    (SourceFile.ofCollection runtime source c).content =
      Code.text (SourceFile.heading source ++ [c.importLine runtime, ""]) ++ c.body.text
        ++ Code.text ["", "const _: () = " ++ runtime ++ c.check] := by
  have happend (front first second last : String) :
      front ++ first ++ second ++ last = front ++ (first ++ second ++ last) := by
    simp only [String.append_assoc]
  have hlines : c.code runtime source = SourceFile.heading source ++ [c.importLine runtime, ""]
      ++ c.body
      ++ ["", "const _: () = " ++ runtime ++ "::assert_model::<" ++ c.structName ++ ">();"] := by
    rw [body, code, implementations]
    simp only [Code.spaced, List.flatMap_append, List.append_assoc]
    rfl
  rw [ofCollection_eq, hlines, Code.text_append, Code.text_append]
  exact congrArg (fun line => Code.text (SourceFile.heading source ++ [c.importLine runtime, ""])
    ++ c.body.text ++ Code.text ["", line]) (happend _ _ _ _)

theorem structName_notMem_of_load {options : LoadOptions} {path : String} {bytes : Bytes}
    {s : Schema} (h : Compiler.load options path bytes = .ok s) (hc : c ∈ s.collections) :
    c.structName ∉ usedTypeNames := by
  obtain ⟨_, _, -, -, -, hmodel⟩ := Compiler.exists_models_of_mem h hc
  cases hmodel with
  | mk selection hselection identifier hidentifier => exact Identifier.structName_notMem identifier

/-- The type names in the file of a model have their meanings, from the imports on: the items of the
runtime library among them are those that are imported, and no name but `Into` is also the one of
the struct. So each denotes what it is meant to be, unless the struct is called `Into` and a field
holds a text. -/
theorem names_of_load {options : LoadOptions} {path : String} {bytes : Bytes} {s : Schema}
    (h : Compiler.load options path bytes = .ok s) (hc : c ∈ s.collections) (runtime : String) :
    (SourceFile.ofCollection runtime s.sourceName c).content =
      Code.text (SourceFile.heading s.sourceName ++ [c.importLine runtime, ""]) ++ c.body.text
        ++ Code.text ["", "const _: () = " ++ runtime ++ c.check] ∧
    typeNames c.body.text = c.meanings.map (Meaning.spelling c.structName) ∧
    lineNames c.check.toList = [c.structName] ∧
    (∀ item, .runtime item ∈ c.meanings ↔ item ∈ c.imports) ∧
    (∀ m ∈ c.meanings, m ≠ .own → m.spelling c.structName = c.structName → m = .standard "Into") ∧
    ((∀ m ∈ c.meanings, resolve? c.structName c.imports (m.spelling c.structName) = some m) ↔
      ¬(c.structName = "Into" ∧ ∃ f ∈ c.fields, f.type.base = .text)) := by
  have hnamed := isNamed_of_load h c hc
  have hfree := structName_notMem_of_load h hc
  refine ⟨content_ofCollection runtime s.sourceName c, hnamed.typeNames_body,
    hnamed.lineNames_check, fun item => runtime_mem_meanings_iff, ?_, ?_, ?_⟩
  · intro m hm hown heq
    rcases mem_meanings hm with rfl | ⟨rfl, -⟩ | hforeign
    · exact absurd rfl hown
    · rfl
    · exact absurd heq (spelling_ne hnamed hfree hforeign)
  · rintro hall ⟨hname, f, hf, htext⟩
    have hinto := hall _ (into_mem_meanings hf htext)
    have hown := resolve?_own hfree
    rw [Meaning.spelling, ← hname, hown] at hinto
    cases hinto
  · intro hneither m hm
    rcases mem_meanings hm with rfl | ⟨rfl, htext⟩ | hforeign
    · exact resolve?_own hfree
    · have hinto : "Into" ∈ ["String", "Option", "Vec", "Into"] := by decide
      exact resolve?_standard hinto fun heq => hneither ⟨heq.symm, htext⟩
    · exact resolve?_of_foreign hnamed hfree hforeign hm

/-- A collection whose struct is called `Into`, with a field of some kind. -/
def intoText (kind : String) : Bytes :=
  Utf8.encode
    ("[\x7b\"name\":\"into\",\"fields\":[\x7b\"name\":\"a\",\"type\":\"" ++ kind ++ "\"\x7d]\x7d]")

def intoCollection (type : MemberType) : Collection :=
  ⟨"into", "Into", none, [⟨"A", "a", type⟩], .latest⟩

theorem names_of_date :
    Compiler.load {} "schema.json" (intoText "date") = .ok ⟨"schema.json", .latest, .latest,
        [intoCollection ⟨.dateTime, false⟩], []⟩ ∧
      typeNames (intoCollection ⟨.dateTime, false⟩).body.text =
        ["Into", "RecordMeta", "String", "DateTime", "Into", "str", "DateTime", "Model", "Into",
          "Record", "Self", "Self", "RecordMeta", "Record", "Record", "str", "str", "str", "str",
          "str", "str"] ∧
      ∀ m ∈ (intoCollection ⟨.dateTime, false⟩).meanings,
        resolve? "Into" ["DateTime", "Model", "Record", "RecordMeta"] (m.spelling "Into") =
          some m := by
  have hload : Compiler.load {} "schema.json" (intoText "date") = .ok ⟨"schema.json", .latest,
      .latest, [intoCollection ⟨.dateTime, false⟩], []⟩ := by decide +kernel
  obtain ⟨-, hnames, -, -, -, hresolved⟩ :=
    names_of_load hload (List.mem_singleton.mpr rfl) SourceFile.defaultRuntime
  refine ⟨hload, ?_, hresolved.mpr ?_⟩
  · rw [hnames]
    decide +kernel
  · rintro ⟨-, f, hf, htext⟩
    rw [List.mem_singleton.mp hf] at htext
    cases htext

/-- The setter of a text takes an `Into<String>`, which is meant to be the standard trait, and the
name denotes the struct. -/
theorem names_of_text :
    Compiler.load {} "schema.json" (intoText "text") = .ok ⟨"schema.json", .latest, .latest,
        [intoCollection ⟨.text, true⟩], []⟩ ∧
      typeNames (intoCollection ⟨.text, true⟩).body.text =
        ["Into", "RecordMeta", "String", "Option", "String", "Into", "str", "Into", "String",
          "Model", "Into", "Record", "Self", "Self", "RecordMeta", "Record", "Record", "str", "str",
          "str", "str", "str", "str"] ∧
      .standard "Into" ∈ (intoCollection ⟨.text, true⟩).meanings ∧
      resolve? "Into" (intoCollection ⟨.text, true⟩).imports "Into" = some .own := by
  have hload : Compiler.load {} "schema.json" (intoText "text") = .ok ⟨"schema.json", .latest,
      .latest, [intoCollection ⟨.text, true⟩], []⟩ := by decide +kernel
  refine ⟨hload, ?_, by decide +kernel, by decide +kernel⟩
  rw [(isNamed_of_load hload _ (List.mem_singleton.mpr rfl)).typeNames_body]
  decide +kernel

end Collection

end TypedCollections
