import TypedCollections.Model.Collection
import TypedCollections.Proofs.Model.Remaining
import TypedCollections.Proofs.Model.Selection

/-!
The collections of a loaded document. `Addition` says what one declared collection adds to the
models, and `load_ok` which steps a successful `load` is made of; `Failure` says at which of them
one that fails can end.
-/

namespace TypedCollections

open Schema (DeclaredCollection Dialect Flaw)

namespace Schema

/-- Names that pass the check are made of the characters of names. -/
theorem isNameChar_of_checkNames {index : Nat} {before names : List String}
    (h : checkNames index before names = .ok ()) {name : String} (hname : name ∈ names) :
    name.toList.all isNameChar := by
  induction names generalizing index before with
  | nil => cases hname
  | cons first rest ih =>
    unfold checkNames at h
    split at h
    · cases h
    split at h
    · cases h
    next hchars =>
    split at h
    · cases h
    rcases List.mem_cons.mp hname with rfl | hname
    · simpa using hchars
    · exact ih h hname

theorem isNameChar_of_checkCollections {declared : List DeclaredCollection}
    (h : checkCollections declared = .ok ()) {c : DeclaredCollection} (hc : c ∈ declared) :
    ∀ b ∈ c.name.toList, isNameChar b := by
  unfold checkCollections at h
  split at h
  · cases h
  · exact List.all_eq_true.mp (isNameChar_of_checkNames h (List.mem_map_of_mem hc))

end Schema

namespace Compiler

variable {path : String} {dialect : Dialect} {superusers : String} {options : LoadOptions}

/-- What a declared collection does to the models. -/
inductive Addition (dialect : Dialect) (superusers : String) (p : Progress)
    (c : DeclaredCollection) : Progress → Prop
  | passed (name : c.name = superusers) : Addition dialect superusers p c p
  | added (name : c.name ≠ superusers) (selection : Selection)
      (fields : Selection.of dialect c.name c.fieldList = .ok selection) (identifier : String)
      (canonical : Identifier.canonical? c.name = some identifier)
      (new : ∀ other ∈ p.collections, other.structName ≠ Identifier.structName identifier) :
    Addition dialect superusers p c
      ⟨p.collections ++
          [⟨c.name, Identifier.structName identifier, c.id, selection.fields, dialect⟩],
        p.warnings ++ selection.warnings⟩

theorem addition_of_addCollection {p p' : Progress} {c : DeclaredCollection}
    (h : addCollection path dialect superusers p c = .ok p') :
    Addition dialect superusers p c p' := by
  unfold addCollection at h
  split at h
  · next hname =>
    cases h
    exact .passed hname
  next hname =>
  obtain ⟨selection, hselection, h⟩ := Stopping.bind_ok h
  split at h
  · next identifier hcanonical =>
    rw [pure_bind] at h
    simp only at h
    split at h
    · cases h
    · next hfind =>
      cases h
      refine .added hname selection (Stopping.mapError_ok hselection) identifier hcanonical ?_
      intro other hother
      simpa using List.find?_eq_none.mp hfind other hother
  · cases h

/-- The steps of a successful compilation. -/
theorem load_ok {bytes : Bytes} {s : Schema} (h : load options path bytes = .ok s) :
    s.source = path ∧ bytes.all Ascii.isBlank = false ∧
      Dialect.detect bytes = .ok s.detected ∧
      chooseDialect path options.unknownDialect s.detected = .ok s.dialect ∧
      ∃ declared, Schema.readDocument bytes = .ok declared ∧
        Schema.checkCollections declared = .ok () ∧
        declared.foldlM (addCollection path s.dialect options.superusers) ⟨[], []⟩ =
          .ok ⟨s.collections, s.warnings⟩ := by
  unfold load at h
  split at h
  · cases h
  next hblank =>
  obtain ⟨declared, hdeclared, h⟩ := Stopping.bind_ok h
  obtain ⟨⟨⟩, hchecked, h⟩ := Stopping.bind_ok h
  obtain ⟨detected, hdetected, h⟩ := Stopping.bind_ok h
  obtain ⟨dialect, hdialect, h⟩ := Stopping.bind_ok h
  obtain ⟨models, hmodels, h⟩ := Stopping.bind_ok h
  cases h
  exact ⟨rfl, by simpa using hblank, Stopping.mapError_ok hdetected, hdialect, declared,
    Stopping.mapError_ok hdeclared, Stopping.mapError_ok hchecked, hmodels⟩

/-- The fault lies with a model, not with the dialect of the document. -/
def BlamesModel (d : Diagnostic) : Prop := ∀ path i j, d ≠ .mixedDialect path i j

/-- What can be wrong with a model. Each fault names the document. -/
inductive ModelFault (path : String) : Diagnostic → Prop
  | unmappable (collection field kind : String) :
    ModelFault path (.unmappableField path collection field kind)
  | unnamed (collection : String) : ModelFault path (.unnamedField path collection)
  | sameStruct (first second structName : String) :
    ModelFault path (.invalidSchema path (Flaw.sameStruct first second structName).message)

theorem modelFault_of_selection {collection : String} {declared : List Schema.DeclaredField}
    {e : Diagnostic} (h : Selection.of dialect collection declared = .error e) :
    ModelFault path (e.inFile path) := by
  obtain ⟨d, hd⟩ := Selection.exists_fault_of_error h
  unfold Selection.fault? at hd
  split at hd
  · cases hd
  split at hd
  · cases hd
    exact .unmappable collection d.name d.kind
  split at hd
  · cases hd
    exact .unnamed collection
  · cases hd

theorem modelFault_of_addCollection {p : Progress} {c : DeclaredCollection} {e : Diagnostic}
    (h : addCollection path dialect superusers p c = .error e) : ModelFault path e := by
  unfold addCollection at h
  split at h
  · cases h
  obtain hselection | ⟨selection, -, h⟩ := Stopping.bind_error h
  · obtain ⟨d, hd, rfl⟩ := Stopping.mapError_error hselection
    exact modelFault_of_selection hd
  split at h
  · rw [pure_bind] at h
    dsimp only at h
    split at h
    · cases h
      exact .sameStruct _ _ _
    · cases h
  · cases h
    exact .unnamed _

/-- The stages at which a compilation can end, each after those before it have succeeded. -/
inductive Failure (options : LoadOptions) (path : String) (bytes : Bytes) : Diagnostic → Prop
  | blank (blank : bytes.all Ascii.isBlank) :
    Failure options path bytes (.invalidSchema path Flaw.emptyFile.message)
  | unreadable (r : Json.Rejection) (read : Schema.readDocument bytes = .error r) :
    Failure options path bytes (rejection path r)
  | flawed (declared : List DeclaredCollection) (read : Schema.readDocument bytes = .ok declared)
      (flaw : Flaw) (check : Schema.checkCollections declared = .error flaw) :
    Failure options path bytes (.invalidSchema path flaw.message)
  | undetected (declared : List DeclaredCollection)
      (read : Schema.readDocument bytes = .ok declared) (r : Dialect.Refusal)
      (detect : Dialect.detect bytes = .error r) :
    Failure options path bytes (refusal path r)
  | undecided (detect : Dialect.detect bytes = .ok .unknown)
      (policy : options.unknownDialect = .fail) :
    Failure options path bytes (.unknownDialect path)
  | unmodelled (declared : List DeclaredCollection)
      (read : Schema.readDocument bytes = .ok declared) (e : Diagnostic)
      (fault : ModelFault path e) :
    Failure options path bytes e

theorem failure_of_load {bytes : Bytes} {e : Diagnostic} (h : load options path bytes = .error e) :
    Failure options path bytes e := by
  unfold load at h
  split at h
  · next hblank =>
    cases h
    exact .blank hblank
  obtain hread | ⟨declared, hread, h⟩ := Stopping.bind_error h
  · obtain ⟨r, hr, rfl⟩ := Stopping.mapError_error hread
    exact .unreadable r hr
  have hread := Stopping.mapError_ok hread
  obtain hcheck | ⟨_, -, h⟩ := Stopping.bind_error h
  · obtain ⟨flaw, hflaw, rfl⟩ := Stopping.mapError_error hcheck
    exact .flawed declared hread flaw hflaw
  obtain hdetect | ⟨detected, hdetect, h⟩ := Stopping.bind_error h
  · obtain ⟨r, hr, rfl⟩ := Stopping.mapError_error hdetect
    exact .undetected declared hread r hr
  have hdetect := Stopping.mapError_ok hdetect
  obtain hchoose | ⟨dialect, -, h⟩ := Stopping.bind_error h
  · unfold chooseDialect at hchoose
    split at hchoose
    · split at hchoose
      · next hpolicy =>
        cases hchoose
        exact .undecided hdetect hpolicy
      · cases hchoose
    · cases hchoose
  obtain hfold | ⟨models, -, h⟩ := Stopping.bind_error h
  · exact .unmodelled declared hread e
      (Stopping.foldlM_error (fun _ _ _ => modelFault_of_addCollection) hfold)
  · cases h

theorem ModelFault.blamesModel {d : Diagnostic} (h : ModelFault path d) : BlamesModel d := by
  cases h <;> simp [BlamesModel]

/-- A document that mixes the dialects is accepted, and it is the detection that says so. -/
theorem mixed_of_load {bytes : Bytes} {file : String} {i j : Nat}
    (h : load options path bytes = .error (.mixedDialect file i j)) :
    ∃ declared, Schema.readDocument bytes = .ok declared ∧
      Dialect.detect bytes = .error (.mixed i j) := by
  generalize he : Diagnostic.mixedDialect file i j = e at h
  cases failure_of_load h with
  | blank | unreadable | flawed | undecided => cases he
  | undetected declared hread r hdetect =>
    cases r with
    | unscannable => cases he
    | mixed =>
      cases he
      exact ⟨declared, hread, hdetect⟩
  | unmodelled _ _ _ fault => exact absurd he.symm (fault.blamesModel file i j)

/-- The fields of every compiled collection are kept apart. -/
theorem distinct_of_load {bytes : Bytes} {s : Schema} (h : load options path bytes = .ok s)
    {c : Collection} (hc : c ∈ s.collections) : Selection.Distinct c.dialect c.fields := by
  obtain ⟨-, -, -, -, declared, -, -, hfold⟩ := load_ok h
  have hall : ∀ c ∈ (Progress.mk s.collections s.warnings).collections,
      Selection.Distinct c.dialect c.fields := by
    refine Stopping.foldlM_invariant
      (p := fun p : Progress => ∀ c ∈ p.collections, Selection.Distinct c.dialect c.fields)
      ?_ (by simp) hfold
    intro p d p' hp hstep
    cases addition_of_addCollection hstep with
    | passed => exact hp
    | added _ selection hselection =>
      simpa [or_imp, forall_and] using ⟨hp, Selection.distinct_of hselection⟩
  exact hall c hc

/-- A declared collection with its model. -/
inductive Models (dialect : Dialect) (c : DeclaredCollection) : Collection → Prop
  | mk (selection : Selection) (fields : Selection.of dialect c.name c.fieldList = .ok selection)
      (identifier : String) (canonical : Identifier.canonical? c.name = some identifier) :
    Models dialect c ⟨c.name, Identifier.structName identifier, c.id, selection.fields, dialect⟩

/-- The declared collections that get models have them in their order. -/
theorem foldlM_addCollection {declared : List DeclaredCollection} {p p' : Progress}
    (h : declared.foldlM (addCollection path dialect superusers) p = .ok p') :
    ∃ added, p'.collections = p.collections ++ added ∧
      List.Forall₂ (Models dialect) (declared.filter fun c => c.name ≠ superusers) added := by
  induction declared generalizing p with
  | nil =>
    cases h
    exact ⟨[], (List.append_nil _).symm, .nil⟩
  | cons c rest ih =>
    rw [List.foldlM_cons] at h
    obtain ⟨q, hq, h⟩ := Stopping.bind_ok h
    obtain ⟨added, hadded, hmodels⟩ := ih h
    cases addition_of_addCollection hq with
    | passed hname =>
      rw [List.filter_cons_of_neg (by simpa using hname)]
      exact ⟨added, hadded, hmodels⟩
    | added hname selection hselection identifier hidentifier =>
      rw [List.filter_cons_of_pos (by simpa using hname)]
      refine ⟨_ :: added, ?_, .cons (.mk selection hselection identifier hidentifier) hmodels⟩
      rw [hadded, ← List.append_cons]

theorem models_of_load {bytes : Bytes} {s : Schema} (h : load options path bytes = .ok s) :
    ∃ declared, Schema.readDocument bytes = .ok declared ∧
      Schema.checkCollections declared = .ok () ∧
      List.Forall₂ (Models s.dialect)
        (declared.filter fun c => c.name ≠ options.superusers) s.collections := by
  obtain ⟨-, -, -, -, declared, hread, hcheck, hfold⟩ := load_ok h
  obtain ⟨added, hadded, hmodels⟩ := foldlM_addCollection hfold
  rw [List.nil_append] at hadded
  cases hadded
  exact ⟨declared, hread, hcheck, hmodels⟩

/-- Every model is the one of a declared collection. -/
theorem exists_models_of_mem {bytes : Bytes} {s : Schema} (h : load options path bytes = .ok s)
    {c : Collection} (hc : c ∈ s.collections) :
    ∃ declared d, Schema.readDocument bytes = .ok declared ∧
      Schema.checkCollections declared = .ok () ∧ d ∈ declared ∧ Models s.dialect d c := by
  obtain ⟨declared, hread, hcheck, hmodels⟩ := models_of_load h
  -- the declaration of the collection stands at its place among those that get models
  obtain ⟨i, rfl⟩ := List.mem_iff_get.mp hc
  have hi : i.val < (declared.filter fun c => c.name ≠ options.superusers).length :=
    hmodels.length_eq.symm ▸ i.isLt
  exact ⟨declared, _, hread, hcheck, List.mem_of_mem_filter (List.get_mem _ ⟨i, hi⟩),
    hmodels.get hi i.isLt⟩

theorem structNames_nodup_of_load {bytes : Bytes} {s : Schema}
    (h : load options path bytes = .ok s) : (s.collections.map Collection.structName).Nodup := by
  obtain ⟨-, -, -, -, declared, -, -, hfold⟩ := load_ok h
  refine Stopping.foldlM_invariant
    (p := fun p : Progress => (p.collections.map Collection.structName).Nodup) ?_ (by simp) hfold
  intro p c p' hp hstep
  cases addition_of_addCollection hstep with
  | passed => exact hp
  | added _ _ _ identifier _ hnew =>
    rw [List.map_append]
    refine hp.append (List.nodup_singleton _) ?_
    simpa using hnew

end Compiler
end TypedCollections
