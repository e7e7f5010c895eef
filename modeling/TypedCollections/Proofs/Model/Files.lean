import TypedCollections.Proofs.Model.Items
import TypedCollections.Proofs.Model.MemberNames
import TypedCollections.Proofs.Naming.Modules
import TypedCollections.Proofs.Text.Quoted

/-!
The files of a loaded schema. Their names are those of the modules, which no two collections share.
What the files say is read off their text: each name in it is a word, and each text of the document
is a literal there, so that every line of code is a line of its file. The one exception is the
heading, where the name of the document stands as it is.
-/

namespace TypedCollections

open Code
open Identifier (IsPascal IsPlain IsSnake)

/-! ## Names -/

theorem Code.oneLine_encode (text : String) : OneLine (Text.Quoted.encode text) :=
  fun h => Text.Quoted.notMem_lineBreaks_of_mem_encode h (by decide)

theorem Identifier.IsPascal.isWordChar {name : String} (h : IsPascal name.toList) :
    ∀ c ∈ name.toList, isWordChar c := by
  intro c hc
  simp [Code.isWordChar, h.alphanum c hc]

theorem Identifier.IsSnake.isWordChar {name : String} (h : IsSnake name.toList) :
    ∀ c ∈ name.toList, isWordChar c := by
  intro c hc
  rcases h.small c hc with hs | rfl
  · simp [Code.isWordChar, isAlphanum_of_isSmall hs]
  · rfl

section Marks

variable {mark : Char} (hmark : mark ∈ marks)

include hmark

theorem Identifier.lacks_escaped {name : String} (h : Lacks mark name) :
    Lacks mark (escaped name) := by
  have hlayout : Lacks mark "_" ∧ Lacks mark "r#" := by
    rcases eq_of_mem_marks hmark with rfl | rfl <;> decide
  unfold escaped
  split
  · exact lacks_append.mpr ⟨h, hlayout.1⟩
  · split
    · exact lacks_append.mpr ⟨hlayout.2, h⟩
    · exact h

theorem FieldType.lacks_code (t : FieldType) : Lacks mark t.code := by
  rcases eq_of_mem_marks hmark with rfl | rfl <;> cases t <;> decide

theorem MemberType.lacks_code (t : MemberType) : Lacks mark t.code := by
  obtain ⟨base, optional⟩ := t
  rcases eq_of_mem_marks hmark with rfl | rfl <;> cases base <;> cases optional <;> decide

theorem MemberType.lacks_getter (t : MemberType) : Lacks mark t.getter := by
  obtain ⟨base, optional⟩ := t
  rcases eq_of_mem_marks hmark with rfl | rfl <;> cases base <;> cases optional <;> decide

namespace Field

variable {f : Field}

theorem lacks_setterName (h : IsPascal f.identifier.toList) : Lacks mark f.setterName :=
  lacks_of_isWordChar hmark (isSnake_setterName h).isWordChar

theorem lacks_memberName (h : IsPascal f.identifier.toList) : Lacks mark f.memberName :=
  Identifier.lacks_escaped hmark (lacks_setterName hmark h)

end Field

end Marks

/-! ## Members -/

namespace Member

variable {m : Member} (hm : ∀ f, m = field f → IsPascal f.identifier.toList)

include hm

section Marks

variable {mark : Char} (hmark : mark ∈ marks)

include hmark

theorem lacks_name : Lacks mark m.name := by
  cases m with
  | field f => exact Field.lacks_memberName hmark (hm f rfl)
  | recordMeta | recordId | timestamps =>
    rcases eq_of_mem_marks hmark with rfl | rfl <;> decide

theorem lacks_typeCode : Lacks mark m.typeCode := by
  cases m with
  | field f => exact f.type.lacks_code hmark
  | recordMeta | recordId | timestamps =>
    rcases eq_of_mem_marks hmark with rfl | rfl <;> decide

theorem lacks_declaration : Lacks mark m.declaration := by
  have hname := lacks_name hm hmark
  have htype := lacks_typeCode hm hmark
  rcases eq_of_mem_marks hmark with rfl | rfl <;> simp +decide [declaration, hname, htype]

theorem lacks_setterCode {code : Code} (h : code ∈ m.setterCode) :
    ∀ line ∈ code, Lacks mark line := by
  cases m with
  | recordMeta | recordId | timestamps => cases h
  | field f =>
    have hset := Field.lacks_setterName hmark (hm f rfl)
    have hmember := Field.lacks_memberName hmark (hm f rfl)
    have hbase := f.type.base.lacks_code hmark
    simp only [setterCode, Option.mem_def, Option.some.injEq] at h
    subst h
    refine lacks_block hmark ?_ ?_ <;> rcases eq_of_mem_marks hmark with rfl | rfl
    · split <;> simp +decide [hset, hbase]
    · split <;> simp +decide [hset, hbase]
    · split <;> split <;> simp +decide [hmember]
    · split <;> split <;> simp +decide [hmember]

theorem lacks_idAccess : Lacks mark m.idAccess.1 ∧ Lacks mark m.idAccess.2 := by
  cases m with
  | recordMeta | recordId | timestamps =>
    rcases eq_of_mem_marks hmark with rfl | rfl <;> decide
  | field f =>
    have hmember := Field.lacks_memberName hmark (hm f rfl)
    unfold idAccess
    dsimp only
    rcases eq_of_mem_marks hmark with rfl | rfl <;> split <;>
      simp +decide [idAccess.plain, hmember]

end Marks

theorem oneLine_reading : OneLine m.reading := by
  unfold reading
  cases m with
  | recordMeta => decide
  | recordId => decide
  | timestamps => decide
  | field f =>
    have hmember : OneLine f.memberName := lacks_name hm (by decide)
    have hgetter : OneLine f.type.getter := f.type.lacks_getter (by decide)
    simp +decide [reading.source, hmember, hgetter, oneLine_encode]

theorem unbroken_writing : Unbroken m.writing := by
  cases m with
  | recordMeta | recordId | timestamps => simp +decide [writing]
  | field f =>
    have hmember : OneLine f.memberName := Field.lacks_memberName (by decide) (hm f rfl)
    unfold writing
    dsimp only
    split
    · refine unbroken_block ?_ ?_ <;> simp +decide [hmember, oneLine_encode]
    · split <;> simp +decide [hmember, oneLine_encode]

end Member

/-! ## Collections -/

namespace Collection

/-- The name of a collection is a checked one, and its struct and its fields have names that were
made for them. -/
structure IsNamed (c : Collection) : Prop where
  name : ∀ b ∈ c.name.toList, isWordChar b
  structName : IsPascal c.structName.toList
  fields : ∀ f ∈ c.fields, IsPascal f.identifier.toList

theorem isNamed_of_load {options : LoadOptions} {path : String} {bytes : Bytes} {s : Schema}
    (h : Compiler.load options path bytes = .ok s) : ∀ c ∈ s.collections, c.IsNamed := by
  intro c hc
  have hdistinct := Compiler.distinct_of_load h hc
  obtain ⟨declared, d, -, hcheck, hd, hmodel⟩ := Compiler.exists_models_of_mem h hc
  have hname := Schema.isNameChar_of_checkCollections hcheck hd
  cases hmodel with
  | mk selection hselection identifier hidentifier =>
    exact ⟨hname, Identifier.isPascal_structName (Identifier.isPascal_of_canonical? hidentifier),
      hdistinct.pascal⟩

variable {c : Collection} (hc : c.IsNamed)

include hc

theorem IsNamed.lacks_structName {mark : Char} (hmark : mark ∈ marks) : Lacks mark c.structName :=
  lacks_of_isWordChar hmark hc.structName.isWordChar

theorem IsNamed.oneLine_structName : OneLine c.structName :=
  hc.lacks_structName (by decide)

theorem IsNamed.isSnake_moduleName : IsSnake c.moduleName.toList :=
  Identifier.isSnake_moduleName hc.structName

theorem IsNamed.oneLine_moduleName : OneLine c.moduleName :=
  oneLine_of_isWordChar hc.isSnake_moduleName.isWordChar

theorem IsNamed.pascal_of_mem {m : Member} (hm : m ∈ c.members) :
    ∀ f, m = .field f → IsPascal f.identifier.toList := by
  rintro f rfl
  rw [members_eq, List.mem_append] at hm
  rcases hm with hm | hm
  · exact absurd hm (field_notMem_ownMembers c f)
  · exact hc.fields f (by simpa using hm)

theorem IsNamed.lacks_structCode {mark : Char} (hmark : mark ∈ marks) :
    ∀ line ∈ c.structCode, Lacks mark line := by
  have hname := lacks_of_isWordChar hmark hc.name
  have hstruct := hc.lacks_structName hmark
  have hmembers : ∀ line ∈ c.members.map Member.declaration, Lacks mark line := by
    intro line hline
    obtain ⟨m, hm, rfl⟩ := List.mem_map.mp hline
    exact Member.lacks_declaration (hc.pascal_of_mem hm) hmark
  refine List.forall_mem_append.mpr ⟨?_, lacks_block hmark ?_ hmembers⟩
  all_goals rcases eq_of_mem_marks hmark with rfl | rfl <;> simp +decide [hname, hstruct]

theorem IsNamed.unbroken_inherentCode : Unbroken c.inherentCode := by
  refine unbroken_block (by simp +decide [hc.oneLine_structName]) ?_
  have hsetters : Unbroken (spaced (c.members.filterMap Member.setterCode)) := by
    refine unbroken_spaced fun code hcode => ?_
    obtain ⟨m, hm, hcode⟩ := List.mem_filterMap.mp hcode
    exact Member.lacks_setterCode (hc.pascal_of_mem hm) (by decide) hcode
  have hupper : OneLine "name".toUpper ∧ OneLine "id".toUpper := by decide +kernel
  cases c.id <;> simp +decide [hsetters, hupper, oneLine_encode]

theorem IsNamed.unbroken_modelCode : Unbroken c.modelCode := by
  have hreadings : Unbroken (c.members.map Member.reading) :=
    unbroken_map fun m hm => Member.oneLine_reading (hc.pascal_of_mem hm)
  have hwritings : Unbroken (c.members.flatMap Member.writing) :=
    unbroken_flatMap fun m hm => Member.unbroken_writing (hc.pascal_of_mem hm)
  have hid : OneLine c.idMember.idAccess.1 ∧ OneLine c.idMember.idAccess.2 := by
    -- a member with the id is a field only where the collection declares it
    refine Member.lacks_idAccess (fun f hf => hc.fields f ?_) (by decide)
    unfold idMember at hf
    cases hfind : c.field? "id" with
    | none => simp [hfind] at hf
    | some g =>
      rw [hfind] at hf
      cases hf
      exact List.mem_of_find?_eq_some hfind
  unfold modelCode
  dsimp only
  refine unbroken_block (by simp +decide [hc.oneLine_structName]) ?_
  refine unbroken_append.mpr ⟨unbroken_block (by decide) (unbroken_block (by decide) hreadings),
    unbroken_spaced ?_⟩
  simp only [List.forall_mem_cons]
  refine ⟨?_, ?_, ?_, ?_, ?_, ?_, by simp⟩
  all_goals refine unbroken_block (by decide) ?_
  all_goals simp +decide [hwritings, hid]

theorem IsNamed.lacks_timestampsCode {mark : Char} (hmark : mark ∈ marks) :
    ∀ line ∈ c.timestampsCode, Lacks mark line := by
  have hstruct := hc.lacks_structName hmark
  refine lacks_block hmark ?_ (lacks_block hmark ?_ ?_)
  all_goals rcases eq_of_mem_marks hmark with rfl | rfl <;> simp +decide [hstruct]

end Collection

/-! ## Files -/

namespace Collection

/-- What the file of a model holds besides the struct. -/
def implementations (runtime : String) (c : Collection) : List Code :=
  [c.inherentCode, c.modelCode] ++ (if c.sharesTimestamps then [c.timestampsCode] else [])
    ++ [["const _: () = " ++ runtime ++ "::assert_model::<" ++ c.structName ++ ">();"]]

/-- The lines of the file of a model. -/
def code (runtime source : String) (c : Collection) : Code :=
  SourceFile.heading source
    ++ ["use " ++ runtime ++ "::\x7b" ++ ", ".intercalate c.imports ++ "\x7d;", ""]
    ++ c.structCode ++ Code.spaced (c.implementations runtime)

theorem ofCollection_eq (runtime source : String) (c : Collection) :
    SourceFile.ofCollection runtime source c =
      ⟨c.moduleName ++ ".rs", (c.code runtime source).text⟩ := rfl

theorem oneLine_imports (c : Collection) : OneLine (", ".intercalate c.imports) := by
  refine oneLine_intercalate (by decide) fun item hitem => ?_
  have hall : ∀ item ∈ ["DateTime", "HasTimestamps", "Model", "Record", "RecordMeta", "Timestamps"],
      OneLine item := by decide
  unfold imports at hitem
  exact hall item (List.mem_of_mem_filter hitem)

/-- What holds of the three parts and of the line at the end holds of all of them. -/
theorem forall_mem_implementations {p : Code → Prop} {c : Collection} {runtime : String}
    (hinherent : p c.inherentCode) (hmodel : p c.modelCode) (htimestamps : p c.timestampsCode)
    (hcheck : p ["const _: () = " ++ runtime ++ "::assert_model::<" ++ c.structName ++ ">();"]) :
    ∀ part ∈ c.implementations runtime, p part := by
  unfold implementations
  split <;> simp [hinherent, hmodel, htimestamps, hcheck]

variable {c : Collection} {runtime source : String}

theorem IsNamed.unbroken_code (hc : c.IsNamed) (hruntime : OneLine runtime)
    (hsource : OneLine source) : Unbroken (c.code runtime source) := by
  have himplementations : Unbroken (Code.spaced (c.implementations runtime)) := by
    refine unbroken_spaced (forall_mem_implementations hc.unbroken_inherentCode
      hc.unbroken_modelCode (hc.lacks_timestampsCode (by decide)) ?_)
    simp +decide [hruntime, hc.oneLine_structName]
  have hstruct : Unbroken c.structCode := hc.lacks_structCode (by decide)
  simp +decide [code, SourceFile.heading, hsource, hruntime, c.oneLine_imports, hstruct,
    himplementations]

/-- The only struct of the file is the one of the model. -/
theorem IsNamed.defined_code (hc : c.IsNamed) :
    defined (c.code runtime source) = [c.structName] := by
  have hstruct : defined c.structCode = [c.structName] := by
    have hblock := defined_block ("pub struct " ++ c.structName) (c.members.map Member.declaration)
    rw [structName?_struct hc.structName.isWordChar] at hblock
    simp [structCode, defined_cons, hblock]
  have himplementations : defined (Code.spaced (c.implementations runtime)) = [] := by
    refine defined_spaced (forall_mem_implementations ?_ ?_ ?_ ?_)
    all_goals simp [inherentCode, modelCode, timestampsCode, defined_block, defined_cons]
  rw [code, defined_append, defined_append, defined_append, hstruct, himplementations]
  simp [SourceFile.heading, defined_cons]

theorem IsNamed.structs_ofCollection (hc : c.IsNamed) (hruntime : OneLine runtime)
    (hsource : OneLine source) :
    structs (SourceFile.ofCollection runtime source c).content = [c.structName] := by
  rw [ofCollection_eq, structs_text (hc.unbroken_code hruntime hsource), hc.defined_code]

end Collection

namespace SourceFile

variable {source : String} {collections : List Collection}

/-- The lines of the index. -/
def indexCode (source : String) (collections : List Collection) : Code :=
  heading source ++ collections.map (fun c => "pub mod " ++ c.moduleName ++ ";")
    ++ (if collections = [] then [] else [""])
    ++ collections.map (fun c => "pub use " ++ c.moduleName ++ "::" ++ c.structName ++ ";")

theorem index_eq (source : String) (collections : List Collection) :
    index source collections = ⟨"mod.rs", (indexCode source collections).text⟩ := rfl

theorem unbroken_indexCode (h : ∀ c ∈ collections, c.IsNamed) (hsource : OneLine source) :
    Unbroken (indexCode source collections) := by
  have hdeclares : Unbroken (collections.map fun c => "pub mod " ++ c.moduleName ++ ";") := by
    refine unbroken_map fun c hc => ?_
    simp +decide [(h c hc).oneLine_moduleName]
  have hexports : Unbroken
      (collections.map fun c => "pub use " ++ c.moduleName ++ "::" ++ c.structName ++ ";") := by
    refine unbroken_map fun c hc => ?_
    simp +decide [(h c hc).oneLine_moduleName, (h c hc).oneLine_structName]
  unfold indexCode
  split <;> simp +decide [heading, hsource, hdeclares, hexports]

/-- The index declares each module and exports the struct of each, and says nothing else. -/
theorem readIndex?_index (h : ∀ c ∈ collections, c.IsNamed) (hsource : OneLine source) :
    readIndex? (index source collections).content =
      some (collections.map (fun c => Item.declares c.moduleName) ++
        collections.map fun c => Item.exports c.moduleName c.structName) := by
  have hheading : readLines? ((heading source).map String.toList) = some [] := by
    have hcomment := readLine?_comment ("//! Generated by pbgen from `" ++ source ++ "`. Do not edit.")
      (by simp)
    unfold heading
    simp only [List.map_cons, List.map_nil, readLines?, hcomment]
    rfl
  have hdeclares : readLines?
      ((collections.map fun c => "pub mod " ++ c.moduleName ++ ";").map String.toList) =
        some (collections.map fun c => Item.declares c.moduleName) := by
    rw [List.map_map]
    exact readLines?_map fun c hc => readLine?_declares (h c hc).isSnake_moduleName.isWordChar
  have hblank :
      readLines? ((if collections = [] then [] else [""]).map String.toList) = some [] := by
    split <;> rfl
  have hexports : readLines?
      ((collections.map fun c =>
        "pub use " ++ c.moduleName ++ "::" ++ c.structName ++ ";").map String.toList) =
        some (collections.map fun c => Item.exports c.moduleName c.structName) := by
    rw [List.map_map]
    exact readLines?_map fun c hc =>
      readLine?_exports (h c hc).isSnake_moduleName.isWordChar (h c hc).structName.isWordChar
  rw [index_eq, readIndex?, lines_text (unbroken_indexCode h hsource), indexCode]
  simp only [List.map_append]
  -- the text ends with a line feed, so behind the lines of the code stands an empty one
  have hall := readLines?_append (readLines?_append (readLines?_append
    (readLines?_append hheading hdeclares) hblank) hexports) (b := [[]]) rfl
  simpa using hall

end SourceFile

/-! ## Loaded schemas -/

namespace Schema

variable {options : LoadOptions} {path : String} {bytes : Bytes} {s : Schema}

theorem fileNames_nodup_of_load (h : Compiler.load options path bytes = .ok s) :
    (s.collections.map (fun c => c.moduleName ++ ".rs") ++ ["mod.rs"]).Nodup := by
  have hnamed := Collection.isNamed_of_load h
  have hstructs := Compiler.structNames_nodup_of_load h
  refine List.Nodup.append ?_ (List.nodup_singleton _) ?_
  · refine (List.nodup_map_iff_inj_on hstructs.of_map).mpr fun c hc d hd heq => ?_
    have hsame := Identifier.fileName_injective (hnamed c hc).structName (hnamed d hd).structName heq
    exact List.inj_on_of_nodup_map hstructs hc hd hsame
  · rw [List.disjoint_singleton]
    intro hm
    obtain ⟨c, hc, heq⟩ := List.mem_map.mp hm
    exact Identifier.fileName_ne_index (hnamed c hc).structName heq

/-- The names of the files, with all letters small, are the names themselves. -/
theorem lower_fileNames (h : ∀ c ∈ s.collections, c.IsNamed) (runtime : String) :
    (s.files runtime).map (fun f => f.name.toLower) =
      s.collections.map (fun c => c.moduleName ++ ".rs") ++ ["mod.rs"] := by
  have hindex : "mod.rs".toLower = "mod.rs" := by decide +kernel
  rw [files, List.map_append, List.map_map, List.map_singleton]
  congr 1
  · refine List.map_congr_left fun c hc => ?_
    exact Identifier.toLower_fileName (h c hc).structName
  · exact congrArg (fun name => [name]) hindex

/-- The files of a loaded schema are one for each collection, in their order, and the index. No two
have one name, even where letters have no case; each module has a plain name, and no two structs
have one. The index declares the modules and exports from each the struct that its file defines, and
nothing else, unless the name of the document breaks the line of the heading. -/
theorem files_of_load (h : Compiler.load options path bytes = .ok s) (runtime : String) :
    ∃ models index, s.files runtime = models ++ [index] ∧
      models.map SourceFile.name = s.collections.map (fun c => c.moduleName ++ ".rs") ∧
      index.name = "mod.rs" ∧
      (((s.files runtime).map fun f => f.name.toLower).Nodup ∧
        ∀ f ∈ models, f.name ≠ index.name) ∧
      (∀ c ∈ s.collections, IsPlain c.moduleName) ∧
      (s.collections.map Collection.structName).Nodup ∧
      (OneLine s.sourceName →
        readIndex? index.content =
          some (s.collections.map (fun c => Item.declares c.moduleName) ++
            s.collections.map fun c => Item.exports c.moduleName c.structName) ∧
        (OneLine runtime →
          models.map (fun f => structs f.content) = s.collections.map fun c => [c.structName])) := by
  have hnamed := Collection.isNamed_of_load h
  refine ⟨_, _, rfl, List.map_map, rfl, ⟨?_, ?_⟩, ?_, Compiler.structNames_nodup_of_load h, ?_⟩
  · rw [lower_fileNames hnamed]
    exact fileNames_nodup_of_load h
  · intro f hf
    obtain ⟨c, hc, rfl⟩ := List.mem_map.mp hf
    exact Identifier.fileName_ne_index (hnamed c hc).structName
  · exact fun c hc => Identifier.isPlain_moduleName (hnamed c hc).structName
  · intro hsource
    refine ⟨SourceFile.readIndex?_index hnamed hsource, fun hruntime => ?_⟩
    rw [List.map_map]
    refine List.map_congr_left fun c hc => ?_
    rw [Function.comp_apply, (hnamed c hc).structs_ofCollection hruntime hsource]

/-- Collections named by keywords and by a type of the runtime library, one with a field whose key
would define a struct if it were no literal. -/
def keywordText : String :=
  "[\x7b\"name\":\"match\",\"fields\":[\x7b\"name\":\"a\\npub struct A \",\"type\":\"text\"\x7d]\x7d,"
    ++ "\x7b\"name\":\"mod\"\x7d,\x7b\"name\":\"record\"\x7d]"

def keywordSchema : Schema where
  source := "exports/schema.json"
  detected := .latest
  dialect := .latest
  collections :=
    [⟨"match", "Match", none, [⟨"APubStructA", "a\npub struct A ", ⟨.text, true⟩⟩], .latest⟩,
      ⟨"mod", "Mod", none, [], .latest⟩, ⟨"record", "RecordModel", none, [], .latest⟩]
  warnings := []

theorem files_of_keywords :
    Compiler.load {} "exports/schema.json" (Utf8.encode keywordText) = .ok keywordSchema ∧
      ∃ models index, keywordSchema.files SourceFile.defaultRuntime = models ++ [index] ∧
        models.map SourceFile.name = ["match_.rs", "mod_.rs", "record_model.rs"] ∧
        index.name = "mod.rs" ∧
        readIndex? index.content =
          some [.declares "match_", .declares "mod_", .declares "record_model",
            .exports "match_" "Match", .exports "mod_" "Mod",
            .exports "record_model" "RecordModel"] ∧
        models.map (fun f => structs f.content) = [["Match"], ["Mod"], ["RecordModel"]] := by
  have hload : Compiler.load {} "exports/schema.json" (Utf8.encode keywordText) =
      .ok keywordSchema := by decide +kernel
  have hsource : OneLine keywordSchema.sourceName := by decide +kernel
  obtain ⟨models, index, hfiles, hnames, hindex, -, -, -, hread⟩ :=
    files_of_load hload SourceFile.defaultRuntime
  obtain ⟨hitems, hstructs⟩ := hread hsource
  refine ⟨hload, models, index, hfiles, ?_, hindex, ?_, ?_⟩
  · rw [hnames]
    decide +kernel
  · rw [hitems]
    decide +kernel
  · rw [hstructs (by decide)]
    rfl

/-- The heading does not write the name of the document as a literal. So the path of a document, if
it breaks the line, can make the index declare a module that has no file. -/
theorem index_of_brokenLine :
    ∃ s index,
      Compiler.load {} "a\npub mod evil;\n//.." (Utf8.encode "[\x7b\"name\":\"posts\"\x7d]") = .ok s ∧
        (s.files SourceFile.defaultRuntime).map SourceFile.name = ["posts.rs", "mod.rs"] ∧
        (s.files SourceFile.defaultRuntime).getLast? = some index ∧
        readIndex? index.content =
          some [.declares "evil", .declares "posts", .exports "posts" "Posts"] := by
  refine ⟨⟨"a\npub mod evil;\n//..", .unknown, .latest,
    [⟨"posts", "Posts", none, [], .latest⟩], []⟩, _, ?_, ?_, rfl, ?_⟩
  all_goals decide +kernel

end Schema

end TypedCollections
