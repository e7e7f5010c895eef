import TypedCollections.Proofs.Schema.Acceptance
import TypedCollections.Proofs.Schema.Redeclaration

/-!
Which of the documents that the reader accepts can be compiled, and what is made of them.
`Compilable` lists what a document must meet, each demand on its own; `compiled` is the one result
of a document that meets them all. The collection that never has a model must be named and written
like any other, but what it declares matters to nobody.
-/

namespace TypedCollections

/-- The file that a diagnostic names. -/
def Diagnostic.path : Diagnostic → String
  | invalidPath path | notFound path | unreadable path _ | invalidSchema path _
  | malformed path _ _ _ | mixedDialect path _ _ | unknownDialect path
  | unmappableField path _ _ _ | unnamedField path _ | unwritable path _ => path

namespace Schema

/-- A name that a collection may have: letters, digits and underscores, and at least one of them. -/
def IsName (name : String) : Prop :=
  name ≠ "" ∧ ∀ c ∈ name.toList,
    ('A' ≤ c ∧ c ≤ 'Z') ∨ ('a' ≤ c ∧ c ≤ 'z') ∨ ('0' ≤ c ∧ c ≤ '9') ∨ c = '_'

theorem isNameChar_iff (c : Char) :
    isNameChar c ↔ ('A' ≤ c ∧ c ≤ 'Z') ∨ ('a' ≤ c ∧ c ≤ 'z') ∨ ('0' ≤ c ∧ c ≤ '9') ∨ c = '_' := by
  simp [isNameChar, Char.isAlphanum, Char.isAlpha, Char.isUpper, Char.isLower, Char.isDigit,
    Char.le_def, or_assoc]

theorem isName_iff (name : String) : IsName name ↔ name ≠ "" ∧ name.toList.all isNameChar := by
  simp only [IsName, List.all_eq_true, isNameChar_iff]

/-- The names from one on pass the check if each may be one and is new. -/
theorem checkNames_eq_ok_iff {index : Nat} {before names : List String} :
    checkNames index before names = .ok () ↔
      (∀ name ∈ names, IsName name) ∧ names.Nodup ∧ ∀ name ∈ names, name ∉ before := by
  induction names generalizing index before with
  | nil => simp [checkNames]
  | cons name rest ih =>
    unfold checkNames
    split
    · next hempty => simp [isName_iff, hempty]
    split
    · next hbad => exact iff_of_false (by simp) fun h => hbad ((isName_iff name).mp (h.1 name
        List.mem_cons_self)).2
    split
    · next hknown => simp [hknown]
    · next hne hgood hnew =>
      have hname : IsName name := (isName_iff name).mpr ⟨hne, by simpa using hgood⟩
      have hapart : (∀ other ∈ rest, other ∉ name :: before) ↔
          name ∉ rest ∧ ∀ other ∈ rest, other ∉ before := by
        simp only [List.mem_cons, not_or, forall_and]
        exact and_congr_left' ⟨fun h hmem => h name hmem rfl, fun h other hmem he => h (he ▸ hmem)⟩
      rw [ih, hapart, List.forall_mem_cons, List.forall_mem_cons, List.nodup_cons]
      simp only [hname, hnew, true_and, not_false_eq_true]
      tauto

theorem checkCollections_eq_ok_iff {declared : List DeclaredCollection} :
    checkCollections declared = .ok () ↔
      declared ≠ [] ∧ (∀ c ∈ declared, IsName c.name) ∧ (declared.map (·.name)).Nodup := by
  unfold checkCollections
  split
  · next hempty => simp [hempty]
  · next hne => simp [checkNames_eq_ok_iff, hne]

/-- A document that is read is not blank: it has the bracket of its list. -/
theorem not_blank_of_readDocument {bytes : Bytes} {declared : List DeclaredCollection}
    (h : readDocument bytes = .ok declared) : bytes.all Ascii.isBlank = false := by
  obtain ⟨items, hspelled, -⟩ := readDocument_ok h
  cases hspelled with
  | @mk _ before _ after _ hlist _ =>
    cases hlist with
    | list =>
      refine List.all_eq_false.mpr ⟨Ascii.openSquare, ?_, by decide⟩
      simp

end Schema

namespace Compiler

open Schema (DeclaredCollection Dialect IsName RedeclaresOnly)
open Json (Tree Spells SpellsPadded SpellsItems Quoted isPlain quoted_of_plain blank_nil)

variable {path : String} {dialect : Dialect} {superusers : String} {options : LoadOptions}
variable {bytes : Bytes} {declared : List DeclaredCollection}

/-! ## What is made of the collections -/

/-- The collections that get models. -/
def modelled (superusers : String) (declared : List DeclaredCollection) :
    List DeclaredCollection :=
  declared.filter fun c => c.name ≠ superusers

/-- The fields of a collection can be selected. -/
def Selects (dialect : Dialect) (c : DeclaredCollection) : Prop :=
  ∃ selection, Selection.of dialect c.name c.fieldList = .ok selection

/-- The fields of a collection; none where they cannot be selected. -/
def selectionOf (dialect : Dialect) (c : DeclaredCollection) : Selection :=
  (Selection.of dialect c.name c.fieldList).toOption.getD ⟨[], []⟩

/-- The struct of a collection. -/
def structNameOf (c : DeclaredCollection) : String :=
  Identifier.structName ((Identifier.canonical? c.name).getD "")

def modelOf (dialect : Dialect) (c : DeclaredCollection) : Collection :=
  ⟨c.name, structNameOf c, c.id, (selectionOf dialect c).fields, dialect⟩

theorem selectionOf_eq {c : DeclaredCollection} {selection : Selection}
    (h : Selection.of dialect c.name c.fieldList = .ok selection) :
    selectionOf dialect c = selection := by
  rw [selectionOf, h]
  rfl

theorem addCollection_of_eq {c : DeclaredCollection} (h : c.name = superusers) (p : Progress) :
    addCollection path dialect superusers p c = .ok p := by
  unfold addCollection
  rw [if_pos h]
  rfl

theorem addCollection_of_ne {c : DeclaredCollection} (hname : c.name ≠ "")
    (hne : c.name ≠ superusers) (p p' : Progress) :
    addCollection path dialect superusers p c = .ok p' ↔
      Selects dialect c ∧ structNameOf c ∉ p.collections.map Collection.structName ∧
        p' = ⟨p.collections ++ [modelOf dialect c],
          p.warnings ++ (selectionOf dialect c).warnings⟩ := by
  obtain ⟨identifier, hidentifier⟩ := Identifier.exists_canonical hname
  have hstruct : structNameOf c = Identifier.structName identifier := by
    rw [structNameOf, hidentifier, Option.getD_some]
  constructor
  · intro h
    cases addition_of_addCollection h with
    | passed heq => exact absurd heq hne
    | added _ selection hselection other hother hnew =>
      obtain rfl : other = identifier := Option.some.inj (hother.symm.trans hidentifier)
      rw [modelOf, hstruct, selectionOf_eq hselection]
      exact ⟨⟨selection, hselection⟩, by simpa using hnew, rfl⟩
  · rintro ⟨⟨selection, hselection⟩, hnew, rfl⟩
    have hfree : (p.collections.find? fun other =>
        other.structName == Identifier.structName identifier) = none := by
      simpa [hstruct] using hnew
    unfold addCollection
    rw [if_neg hne, hselection, hidentifier, modelOf, hstruct, selectionOf_eq hselection]
    simp [hfree, Except.mapError]

/-- The models are made if the fields of every collection can be selected and their structs differ
from each other and from those that are there. -/
theorem foldlM_addCollection_eq_ok_iff (hnames : ∀ c ∈ declared, c.name ≠ "") (p p' : Progress) :
    declared.foldlM (addCollection path dialect superusers) p = .ok p' ↔
      (∀ c ∈ modelled superusers declared, Selects dialect c) ∧
      ((modelled superusers declared).map structNameOf).Nodup ∧
      (∀ c ∈ modelled superusers declared,
        structNameOf c ∉ p.collections.map Collection.structName) ∧
      p' = ⟨p.collections ++ (modelled superusers declared).map (modelOf dialect),
        p.warnings ++ (modelled superusers declared).flatMap fun c =>
          (selectionOf dialect c).warnings⟩ := by
  induction declared generalizing p with
  | nil => simp [modelled, eq_comm, pure, Except.pure]
  | cons c rest ih =>
    obtain ⟨hname, hnames⟩ := List.forall_mem_cons.mp hnames
    rw [List.foldlM_cons, Stopping.bind_ok_iff]
    by_cases hsuper : c.name = superusers
    · have hrest : modelled superusers (c :: rest) = modelled superusers rest :=
        List.filter_cons_of_neg (by simpa using hsuper)
      rw [hrest, ← ih hnames, addCollection_of_eq hsuper]
      simp
    · have hrest : modelled superusers (c :: rest) = c :: modelled superusers rest :=
        List.filter_cons_of_pos (by simpa using hsuper)
      have hapart : (∀ d ∈ modelled superusers rest, structNameOf d ∉
            (p.collections ++ [modelOf dialect c]).map Collection.structName) ↔
          structNameOf c ∉ (modelled superusers rest).map structNameOf ∧
            ∀ d ∈ modelled superusers rest,
              structNameOf d ∉ p.collections.map Collection.structName := by
        simp only [List.map_append, List.mem_append, not_or, List.map_cons, List.map_nil,
          List.mem_singleton, List.mem_map, not_exists, forall_and, not_and]
        exact and_comm
      have hmore : p.collections ++ (modelOf dialect c ::
            (modelled superusers rest).map (modelOf dialect)) =
          p.collections ++ [modelOf dialect c] ++
            (modelled superusers rest).map (modelOf dialect) := by
        simp
      simp only [addCollection_of_ne hname hsuper, ih hnames, hrest, List.forall_mem_cons,
        List.map_cons, List.nodup_cons, List.flatMap_cons]
      constructor
      · rintro ⟨q, ⟨hselects, hnew, rfl⟩, hall, hnodup, hothers, rfl⟩
        obtain ⟨hfirst, hothers⟩ := hapart.mp hothers
        exact ⟨⟨hselects, hall⟩, ⟨hfirst, hnodup⟩, ⟨hnew, hothers⟩, by simp⟩
      · rintro ⟨⟨hselects, hall⟩, ⟨hfirst, hnodup⟩, ⟨hnew, hothers⟩, rfl⟩
        exact ⟨_, ⟨hselects, hnew, rfl⟩, hall, hnodup, hapart.mpr ⟨hfirst, hothers⟩, by simp⟩

/-! ## The verdict on a document -/

/-- What the detection says of a document that it does not refuse. -/
def detectedIn (bytes : Bytes) : Dialect := (Dialect.detect bytes).toOption.getD .unknown

/-- What a document must meet. -/
structure Compilable (options : LoadOptions) (bytes : Bytes)
    (declared : List DeclaredCollection) : Prop where
  nonempty : declared ≠ []
  names : ∀ c ∈ declared, IsName c.name
  distinct : (declared.map (·.name)).Nodup
  unmixed : ∀ i j, Dialect.detect bytes ≠ .error (.mixed i j)
  known : options.unknownDialect = .fail → Dialect.detect bytes ≠ .ok .unknown
  selects : ∀ c ∈ modelled options.superusers declared, Selects (detectedIn bytes).effective c
  structs : ((modelled options.superusers declared).map structNameOf).Nodup

/-- What is made of a document that meets all that. -/
def compiled (options : LoadOptions) (path : String) (bytes : Bytes)
    (declared : List DeclaredCollection) : Schema where
  source := path
  detected := detectedIn bytes
  dialect := (detectedIn bytes).effective
  collections := (modelled options.superusers declared).map (modelOf (detectedIn bytes).effective)
  warnings := (modelled options.superusers declared).flatMap fun c =>
    (selectionOf (detectedIn bytes).effective c).warnings

theorem chooseDialect_eq_ok_iff {policy : UnknownDialect} {detected : Dialect} :
    chooseDialect path policy detected = .ok dialect ↔
      (policy = .fail → detected ≠ .unknown) ∧ dialect = detected.effective := by
  cases detected <;> cases policy <;> simp [chooseDialect, Dialect.effective, eq_comm]

/-- The detection refuses a document that is read for a mixture only. -/
theorem detect_eq_ok_iff (h : Schema.readDocument bytes = .ok declared) :
    Dialect.detect bytes = .ok (detectedIn bytes) ↔
      ∀ i j, Dialect.detect bytes ≠ .error (.mixed i j) := by
  unfold detectedIn
  cases hdetect : Dialect.detect bytes with
  | ok detected => simp [Except.toOption]
  | error r =>
    cases r with
    | unscannable offset obstacle => exact absurd hdetect (detect_ne_unscannable h offset obstacle)
    | mixed i j => simp [Except.toOption]

theorem detectedIn_eq {detected : Dialect} (h : Dialect.detect bytes = .ok detected) :
    detectedIn bytes = detected := by
  rw [detectedIn, h]
  rfl

/-- What is left of a compilation when the document is read. -/
theorem load_of_read (h : Schema.readDocument bytes = .ok declared) :
    load options path bytes = do
      (Schema.checkCollections declared).mapError fun flaw => .invalidSchema path flaw.message
      let detected ← (Dialect.detect bytes).mapError (refusal path)
      let dialect ← chooseDialect path options.unknownDialect detected
      let models ← declared.foldlM (addCollection path dialect options.superusers) ⟨[], []⟩
      return ⟨path, detected, dialect, models.collections, models.warnings⟩ := by
  unfold load
  rw [if_neg (by simp [Schema.not_blank_of_readDocument h]), h]
  rfl

theorem load_eq_ok_iff (h : Schema.readDocument bytes = .ok declared) (s : Schema) :
    load options path bytes = .ok s ↔
      Compilable options bytes declared ∧ s = compiled options path bytes declared := by
  constructor
  · intro hload
    obtain ⟨hsource, -, hdetect, hchoose, declared', hread, hcheck, hfold⟩ := load_ok hload
    obtain rfl : declared' = declared := Except.ok.inj (hread.symm.trans h)
    obtain ⟨hnonempty, hnames, hdistinct⟩ := Schema.checkCollections_eq_ok_iff.mp hcheck
    obtain ⟨hknown, hdialect⟩ := chooseDialect_eq_ok_iff.mp hchoose
    obtain ⟨hselects, hstructs, -, hmade⟩ :=
      (foldlM_addCollection_eq_ok_iff (fun c hc => (hnames c hc).1) _ _).mp hfold
    rw [hdialect] at hselects hmade
    rw [← detectedIn_eq hdetect] at hselects hmade hdialect
    have hunmixed := (detect_eq_ok_iff h).mp (by rw [detectedIn_eq hdetect, hdetect])
    refine ⟨⟨hnonempty, hnames, hdistinct, hunmixed, ?_, hselects, hstructs⟩, ?_⟩
    · intro hfail
      rw [hdetect]
      exact fun heq => hknown hfail (Except.ok.inj heq)
    · obtain ⟨source, detected, dialect, collections, warnings⟩ := s
      simp only [Progress.mk.injEq, List.nil_append] at hmade
      dsimp only at hsource hdetect hdialect
      rw [compiled, hsource, hdialect, hmade.1, hmade.2, detectedIn_eq hdetect]
  · rintro ⟨hcompilable, rfl⟩
    have hdetect := (detect_eq_ok_iff h).mpr hcompilable.unmixed
    have hcheck := Schema.checkCollections_eq_ok_iff.mpr
      ⟨hcompilable.nonempty, hcompilable.names, hcompilable.distinct⟩
    have hchoose : chooseDialect path options.unknownDialect (detectedIn bytes) =
        .ok (detectedIn bytes).effective := by
      refine chooseDialect_eq_ok_iff.mpr ⟨fun hfail heq => ?_, rfl⟩
      exact hcompilable.known hfail (heq ▸ hdetect)
    have hfold : declared.foldlM (addCollection path _ options.superusers) ⟨[], []⟩ = .ok _ :=
      (foldlM_addCollection_eq_ok_iff (fun c hc => (hcompilable.names c hc).1) _ _).mpr
        ⟨hcompilable.selects, hcompilable.structs, by simp, rfl⟩
    rw [load_of_read h, hcheck, hdetect]
    simp only [Except.mapError, bind, Except.bind, hchoose, hfold]
    rfl

/-! ## What is wrong with a document -/

theorem ModelFault.path_eq {e : Diagnostic} (h : ModelFault path e) : e.path = path := by
  cases h <;> rfl

theorem path_eq_of_load {e : Diagnostic} (h : load options path bytes = .error e) :
    e.path = path := by
  cases failure_of_load h with
  | blank | unreadable | flawed | undecided => rfl
  | undetected _ _ r => cases r <;> rfl
  | unmodelled _ _ _ fault => exact fault.path_eq

/-! ## The collection without a model -/

/-- Where two documents declare the same but for the collections without a model, the same models
are added. -/
theorem foldlM_addCollection_congr {declared' : List DeclaredCollection}
    (h : List.Forall₂ (fun c c' => c = c' ∨ c.name = superusers ∧ c'.name = superusers)
      declared declared') (p : Progress) :
    declared.foldlM (addCollection path dialect superusers) p =
      declared'.foldlM (addCollection path dialect superusers) p := by
  induction h generalizing p with
  | nil => rfl
  | cons hc _ ih =>
    rw [List.foldlM_cons, List.foldlM_cons]
    have hstep (q : Progress) := ih q
    obtain rfl | ⟨hname, hname'⟩ := hc
    · simp only [hstep]
    · rw [addCollection_of_eq hname, addCollection_of_eq hname']
      exact ih p

/-- What the collections without a model declare does not matter. -/
theorem load_eq_of_redeclares {bytes' : Bytes} {declared' : List DeclaredCollection}
    {items items' : List Tree} (h : Schema.readDocument bytes = .ok declared)
    (h' : Schema.readDocument bytes' = .ok declared') (hspelled : SpellsPadded (.list items) bytes)
    (hspelled' : SpellsPadded (.list items') bytes')
    (hredeclares : RedeclaresOnly options.superusers items items') :
    load options path bytes' = load options path bytes := by
  obtain ⟨read, hreadings⟩ := Schema.exists_readings h
  obtain ⟨read', hreadings'⟩ := Schema.exists_readings h'
  cases (hreadings.spelled _).mp hspelled
  cases (hreadings'.spelled _).mp hspelled'
  have hdeclared := hredeclares.declared hreadings.declares hreadings'.declares
  have hdetect : Dialect.detect bytes' = Dialect.detect bytes := by
    rw [hreadings.detect_eq, hreadings'.detect_eq, Dialect.classify, Dialect.classify,
      hredeclares.objectKeys_eq]
  have hnames : declared'.map (·.name) = declared.map (·.name) := by
    clear h h' hreadings hreadings' hspelled hspelled' hdetect
    induction hdeclared with
    | nil => rfl
    | cons hc _ ih =>
      rw [List.map_cons, List.map_cons, ih]
      obtain rfl | ⟨hname, hname'⟩ := hc
      · rfl
      · rw [hname, hname']
  have hcheck : Schema.checkCollections declared' = Schema.checkCollections declared := by
    have hempty : declared' = [] ↔ declared = [] := by
      rw [← List.map_eq_nil_iff, hnames, List.map_eq_nil_iff]
    simp only [Schema.checkCollections, hnames, hempty]
  rw [load_of_read h, load_of_read h', hcheck, hdetect]
  simp only [foldlM_addCollection_congr hdeclared]

/-- A document that is read is compiled if its collections have names of their own, the detection
comes to a dialect that will do, and the fields of the collections that get models can be selected
for structs of different names. The models are those of these collections, in their order, with all
that was noticed on the way. Every diagnostic names the document, and the field lists of a
collection without a model never change the result. -/
theorem load_of_readDocument {bytes : Bytes} {declared : List DeclaredCollection}
    (options : LoadOptions) (path : String) (h : Schema.readDocument bytes = .ok declared) :
    ((∃ s, load options path bytes = .ok s) ↔ Compilable options bytes declared) ∧
    (∀ s, load options path bytes = .ok s → s = compiled options path bytes declared) ∧
    (∀ e, load options path bytes = .error e → e.path = path) ∧
    ∀ items bytes' declared' items', SpellsPadded (.list items) bytes →
      Schema.readDocument bytes' = .ok declared' → SpellsPadded (.list items') bytes' →
      RedeclaresOnly options.superusers items items' →
      load options path bytes' = load options path bytes := by
  refine ⟨⟨?_, ?_⟩, ?_, ?_, ?_⟩
  · rintro ⟨s, hs⟩
    exact ((load_eq_ok_iff h s).mp hs).1
  · intro hcompilable
    exact ⟨_, (load_eq_ok_iff h _).mpr ⟨hcompilable, rfl⟩⟩
  · intro s hs
    exact ((load_eq_ok_iff h s).mp hs).2
  · intro e he
    exact path_eq_of_load he
  · intro items bytes' declared' items' hspelled h' hspelled' hredeclares
    exact load_eq_of_redeclares h h' hspelled hspelled' hredeclares

/-- A collection with a list of fields. -/
def collectionTree (name : String) (fields : List Tree) : Tree :=
  .object [(Utf8.encode "name", .string (Utf8.encode name)), (Utf8.encode "fields", .list fields)]

/-- A field that must have a value, and is hidden or of a kind that nobody knows. -/
def requiredTree (key : String) (value : Tree) : Tree :=
  .object [(Utf8.encode "name", .string (Utf8.encode "x")),
    (Utf8.encode "required", .word Json.trueWord), (Utf8.encode key, value)]

/-- A document whose second collection has no model, and the fields of that collection. -/
def administeredItems (fields : List Tree) : List Tree :=
  [collectionTree "a" [requiredTree "hidden" (.word Json.trueWord)],
    collectionTree "_superusers" fields, collectionTree "b" []]

def administeredText (fields : String) : Bytes :=
  Utf8.encode ("[\x7b\"name\":\"a\",\"fields\":"
    ++ "[\x7b\"name\":\"x\",\"required\":true,\"hidden\":true\x7d]\x7d,"
    ++ "\x7b\"name\":\"_superusers\",\"fields\":[" ++ fields ++ "]\x7d,"
    ++ "\x7b\"name\":\"b\",\"fields\":[]\x7d]")

def vectorText : String := "\x7b\"name\":\"x\",\"required\":true,\"type\":\"vector\"\x7d"

def vectorTree : Tree := requiredTree "type" (.string (Utf8.encode "vector"))

theorem spelled_administered :
    SpellsPadded (.list (administeredItems [vectorTree])) (administeredText vectorText) ∧
      SpellsPadded (.list (administeredItems [])) (administeredText "") := by
  have hkey (key : String) (h : (Utf8.encode key).all isPlain) : Quoted (Utf8.encode key) :=
    quoted_of_plain h
  have hname := hkey "name" (by decide +kernel)
  have hstring (s : String) (h : (Utf8.encode s).all isPlain) :
      SpellsPadded (.string (Utf8.encode s)) _ := (Spells.string (hkey s h)).bare
  have htrue := (Spells.word (by decide : Json.trueWord ∈ _)).bare
  have hrequired (key : String) (h : (Utf8.encode key).all isPlain) {value : Tree} {s : Bytes}
      (hvalue : SpellsPadded value s) : SpellsPadded (requiredTree key value) _ :=
    (Spells.object (.more ((hstring "x" (by decide +kernel)).keyed hname)
      (.more (htrue.keyed (hkey "required" (by decide +kernel)))
        (.last (hvalue.keyed (hkey key h)))))).bare
  have hcollection (name : String) (h : (Utf8.encode name).all isPlain) {fields : List Tree}
      {s : Bytes} (hfields : SpellsItems fields s) : SpellsPadded (collectionTree name fields) _ :=
    (Spells.object (.more ((hstring name h).keyed hname)
      (.last ((Spells.list hfields).bare.keyed (hkey "fields" (by decide +kernel)))))).bare
  have hall {fields : List Tree} {s : Bytes} (hfields : SpellsItems fields s) :
      SpellsPadded (.list (administeredItems fields)) _ :=
    (Spells.list (.more
      (hcollection "a" (by decide +kernel) (.last (hrequired "hidden" (by decide +kernel) htrue)))
      (.more (hcollection "_superusers" (by decide +kernel) hfields)
        (.last (hcollection "b" (by decide +kernel) (.none blank_nil)))))).bare
  have hvector : SpellsPadded vectorTree _ :=
    hrequired "type" (by decide +kernel) (hstring "vector" (by decide +kernel))
  constructor
  · convert hall (.last hvector) using 1
    decide +kernel
  · convert hall (.none blank_nil) using 1
    decide +kernel

/-- The fields of the second collection are others, and its keys are the same. -/
theorem redeclaresOnly_administered {fields : List Tree} (fields' : List Tree)
    {declared : List DeclaredCollection} {c : DeclaredCollection} (hc : declared[1]? = some c)
    (hname : c.name = "_superusers")
    (h : List.Forall₂ Schema.Declares (administeredItems fields) declared) :
    RedeclaresOnly "_superusers" (administeredItems fields) (administeredItems fields') := by
  have hsuper : Schema.Declares (collectionTree "_superusers" fields) c := by
    unfold administeredItems at h
    cases h with
    | cons _ h =>
      cases h with
      | cons h _ =>
        cases hc
        exact h
  have hfields : Json.Denotes (Utf8.encode "fields") "fields" :=
    Schema.denotes_fieldListKey (by decide)
  refine .cons (.inl rfl) (.cons (.inr ⟨.object ?_, c, hsuper, hname⟩) (.cons (.inl rfl) .nil))
  refine .cons ⟨rfl, fun _ _ _ => .inr rfl⟩ (.cons ⟨rfl, fun key _ hkey => .inl ?_⟩ .nil)
  rw [hkey.unique hfields]
  decide

def administeredCollections : List DeclaredCollection :=
  [{ name := "a", fields := some [{ name := "x", required := true, hidden := true }],
     keys := ["name", "fields"] },
    { name := "_superusers", fields := some [{ name := "x", kind := "vector", required := true }],
      keys := ["name", "fields"] },
    { name := "b", fields := some [], keys := ["name", "fields"] }]

theorem load_administered :
    Schema.readDocument (administeredText vectorText) = .ok administeredCollections ∧
      Compilable {} (administeredText vectorText) administeredCollections ∧
      load {} "schema.json" (administeredText vectorText) = .ok ⟨"schema.json", .latest, .latest,
        [⟨"a", "A", none, [], .latest⟩, ⟨"b", "B", none, [], .latest⟩],
        [.skippedHiddenRequired "a" "x"]⟩ ∧
      load {} "schema.json" (administeredText "") =
        load {} "schema.json" (administeredText vectorText) := by
  have hread : Schema.readDocument (administeredText vectorText) = .ok administeredCollections := by
    decide +kernel
  have hread' : (Schema.readDocument (administeredText "")).isOk := by decide +kernel
  have hload : load {} "schema.json" (administeredText vectorText) =
      .ok ⟨"schema.json", .latest, .latest,
        [⟨"a", "A", none, [], .latest⟩, ⟨"b", "B", none, [], .latest⟩],
        [.skippedHiddenRequired "a" "x"]⟩ := by decide +kernel
  obtain ⟨hcompilable, -, -, hredeclares⟩ := load_of_readDocument {} "schema.json" hread
  obtain ⟨items, hreadings⟩ := Schema.exists_readings hread
  cases (hreadings.spelled _).mp spelled_administered.1
  cases hread'' : Schema.readDocument (administeredText "") with
  | error r =>
    rw [hread''] at hread'
    cases hread'
  | ok declared' =>
    exact ⟨hread, hcompilable.mp ⟨_, hload⟩, hload,
      hredeclares _ _ _ _ spelled_administered.1 hread'' spelled_administered.2
        (redeclaresOnly_administered [] rfl rfl hreadings.declares)⟩

end Compiler
end TypedCollections
