import TypedCollections.Proofs.Model.IdMember
import TypedCollections.Proofs.Model.TypeNames

/-!
What the type names in the file of a model are meant to be. The meanings follow from the description
of the model: its members with their types, their setters and their reading. Read off the text of
the file, the type names are the spellings of these meanings, one by one. Each line is read piece by
piece, where a name of the model is a word and a text of the document is a literal.
-/

namespace TypedCollections

open Code
open Identifier (IsPascal IsSnake)

/-- What a type name is meant to be. -/
inductive Meaning where
  /-- The struct of the model. -/
  | own
  /-- The struct again, by the word that names it within its implementations. -/
  | itself
  | runtime (item : String)
  | standard (name : String)
  | primitive (name : String)
  deriving DecidableEq, Repr

/-- How it is written, in the file of a struct. -/
def Meaning.spelling (structName : String) : Meaning → String
  | own => structName
  | itself => "Self"
  | runtime name | standard name | primitive name => name

/-! ## Names -/

theorem isNameChar_of_isWordChar {letters : List Char} (h : ∀ c ∈ letters, isWordChar c) :
    letters.all isNameChar := by
  rw [List.all_eq_true]
  exact fun c hc => by simp [isNameChar, h c hc]

namespace Identifier

variable {name : String}

theorem IsPascal.isWord (h : IsPascal name.toList) : Code.IsWord name := by
  refine ⟨?_, isNameChar_of_isWordChar h.isWordChar⟩
  rintro rfl
  exact absurd h.head (by decide)

theorem IsPascal.told (h : IsPascal name.toList) : told false name.toList = [name] := by
  simp [Code.told, isTypeName, h.head, String.ofList_toList]

/-- A struct is told as soon as its name ends. -/
theorem IsPascal.reads_end (h : IsPascal name.toList) {s : String} {m : Mode}
    (hs : Reads (.word false name.toList) s (Code.told false name.toList ++ []) m) :
    Reads (.word false name.toList) s [name] m := by
  rwa [List.append_nil, h.told] at hs

theorem isWord_escaped (h : IsSnake name.toList) : Code.IsWord (escaped name) := by
  have hword := isNameChar_of_isWordChar h.isWordChar
  have hname : Code.IsWord name := by
    refine ⟨?_, hword⟩
    rintro rfl
    obtain ⟨c, rest, heq, -⟩ := h
    cases heq
  unfold escaped
  split
  · refine ⟨by simp, ?_⟩
    rw [String.toList_append, List.all_append, hword]
    rfl
  split
  · refine ⟨by simp, ?_⟩
    rw [String.toList_append, List.all_append, hword]
    rfl
  · exact hname

end Identifier

/-! ## Types -/

def FieldType.meanings : FieldType → List Meaning
  | text => [.standard "String"]
  | flag => [.primitive "bool"]
  | number => [.primitive "f64"]
  | dateTime => [.runtime "DateTime"]
  | idList => [.standard "Vec", .standard "String"]
  | json => []

def MemberType.meanings (t : MemberType) : List Meaning :=
  (if t.optional then [.standard "Option"] else []) ++ t.base.meanings

variable {own : String}

/-- A type is read with the character behind it, where its last word ends. -/
theorem FieldType.reads_code (t : FieldType) :
    Reads (.gap false) (t.code ++ ")") (t.meanings.map (Meaning.spelling own)) (.gap false) := by
  cases t <;> exact rfl

theorem MemberType.reads_code (t : MemberType) :
    Reads (.gap false) (t.code ++ ",") (t.meanings.map (Meaning.spelling own)) (.gap false) := by
  obtain ⟨base, optional⟩ := t
  cases base <;> cases optional <;> exact rfl

/-! ## Members -/

namespace Member

def meanings : Member → List Meaning
  | recordMeta => [.runtime "RecordMeta"]
  | recordId => [.standard "String"]
  | timestamps => [.runtime "Timestamps"]
  | field f => f.type.meanings

/-- What the parameter of the setter mentions. -/
def setterMeanings : Member → List Meaning
  | field f =>
    if f.type.base = .text then [.standard "Into", .standard "String"] else f.type.base.meanings
  | _ => []

/-- What the reading from a record mentions. -/
def readingMeanings : Member → List Meaning
  | recordMeta => [.runtime "RecordMeta"]
  | timestamps => [.runtime "Timestamps"]
  | recordId | field _ => []

variable {m : Member} (hm : ∀ f, m = field f → IsPascal f.identifier.toList)

include hm

theorem isWord_name : IsWord m.name := by
  cases m with
  | recordMeta | recordId | timestamps => decide
  | field f => exact Identifier.isWord_escaped (Field.isSnake_setterName (hm f rfl))

theorem reads_typeCode : Reads (.gap false) (m.typeCode ++ ",")
    (m.meanings.map (Meaning.spelling own)) (.gap false) := by
  cases m with
  | recordMeta | recordId | timestamps => exact rfl
  | field f => exact f.type.reads_code

theorem lineNames_declaration :
    lineNames m.declaration.toList = m.meanings.map (Meaning.spelling own) := by
  have hline : m.declaration = "pub " ++ m.name ++ ": " ++ (m.typeCode ++ ",") :=
    String.append_assoc ..
  have hfront : Reads (.gap false) "pub " [] (.gap false) := by decide
  have hcolon : Reads (.word false m.name.toList) ": " [] (.gap false) := rfl
  have hname := (hfront.append ((isWord_name hm).reads false)).append hcolon
  rw [hline]
  exact (hname.append (reads_typeCode hm)).lineNames_eq rfl

theorem lineNames_reading :
    lineNames m.reading.toList = m.readingMeanings.map (Meaning.spelling own) := by
  have hcolon : Reads (.word false m.name.toList) ": " [] (.gap false) := rfl
  have hfront := ((isWord_name hm).reads false).append hcolon
  have hsource : Reads (.gap false) (reading.source m)
      (m.readingMeanings.map (Meaning.spelling own)) (.gap false) := by
    cases m with
    | recordMeta | recordId | timestamps => exact rfl
    | field f =>
      have hgetter : Reads (.gap false) ("record." ++ f.type.getter ++ "(") [] (.gap false) := by
        obtain ⟨base, optional⟩ := f.type
        cases base <;> cases optional <;> exact rfl
      have hend : Reads (.gap false) ")" [] (.gap false) := by decide
      exact (hgetter.append (reads_encode false f.key)).append hend
  have hend : Reads (.gap false) "," [] (.gap false) := by decide
  have hall := ((hfront.append hsource).append hend).lineNames_eq rfl
  rw [List.append_nil] at hall
  exact hall

end Member

namespace Field

variable {f : Field} (hf : IsPascal f.identifier.toList)

include hf

theorem isWord_memberName : IsWord f.memberName :=
  Identifier.isWord_escaped (isSnake_setterName hf)

/-- The member is looked up in the model. -/
theorem reads_member (front : String) (h : Reads (.gap false) front [] (.gap true)) :
    Reads (.gap false) (front ++ f.memberName) [] (.word true f.memberName.toList) :=
  h.append ((isWord_memberName hf).reads true)

theorem lineNames_setter {parameter : String} {names : List String}
    (h : Reads (.gap false) (parameter ++ ")") names (.gap false)) :
    lineNames ("pub fn set_" ++ f.setterName ++ "(&mut self, value: " ++ parameter ++ ")"
      ++ " \x7b").toList = names := by
  have hset : Reads (.gap false) "pub fn set_" [] (.word false "set_".toList) := by decide
  have hname := hset.append (Mode.run_word false "set_".toList
    (isNameChar_of_isWordChar (isSnake_setterName hf).isWordChar))
  have hvalue : Reads (.word false ("set_".toList ++ f.setterName.toList)) "(&mut self, value: " []
      (.gap false) := rfl
  have hend : Reads (.gap false) " \x7b" [] (.gap false) := by decide
  have hall := (((hname.append hvalue).append h).append hend).lineNames_eq rfl
  rw [List.append_nil, ← String.append_assoc] at hall
  exact hall

theorem lineNames_assignment {value : String}
    (h : Reads (.gap false) (value ++ ";") [] (.gap false)) :
    lineNames ("self." ++ f.memberName ++ " = " ++ value ++ ";").toList = [] := by
  have hmember := reads_member hf "self." (by decide)
  have hassign : Reads (.word true f.memberName.toList) " = " [] (.gap false) := rfl
  have hall := ((hmember.append hassign).append h).lineNames_eq rfl
  rw [← String.append_assoc] at hall
  exact hall

theorem named_setterCode {code : Code} (h : code ∈ (Member.field f).setterCode) :
    named code = (Member.field f).setterMeanings.map (Meaning.spelling own) := by
  simp only [Member.setterCode, Option.mem_def, Option.some.injEq] at h
  subst h
  have hparameter : Reads (.gap false)
      ((if f.type.base = .text then ("impl Into<String>", "value.into()")
        else (f.type.base.code, "value")).1 ++ ")")
      ((Member.field f).setterMeanings.map (Meaning.spelling own)) (.gap false) := by
    unfold Member.setterMeanings
    dsimp only
    split
    · exact rfl
    · exact f.type.base.reads_code
  rw [named_block, named_cons, named_nil, lineNames_setter hf hparameter, lineNames_assignment hf,
    List.append_nil, List.append_nil]
  split <;> split <;> (dsimp only; exact rfl)

theorem named_writing : named (Member.field f).writing = [] := by
  have hset : Reads (.gap false) "record.set(" [] (.gap false) := by decide
  have hkey := hset.append (reads_encode false f.key)
  have hvalue := reads_member hf "self." (by decide)
  unfold Member.writing
  dsimp only
  split
  · have hsome := reads_member hf "if let Some(value) = &self." (by decide)
    have hopen : Reads (.word true f.memberName.toList) " \x7b" [] (.gap false) := rfl
    have hclone : Reads (.gap false) ", value.clone());" [] (.gap false) := by decide
    have hline := (hkey.append hclone).lineNames_eq rfl
    rw [named_block, (hsome.append hopen).lineNames_eq rfl, named_cons, hline]
    rfl
  · have hcomma : Reads (.gap false) ", " [] (.gap false) := by decide
    have hplain : Reads (.word true f.memberName.toList) ");" [] (.gap false) := rfl
    have hclone : Reads (.word true f.memberName.toList) ".clone()" [] (.gap false) := rfl
    have hend : Reads (.gap false) ");" [] (.gap false) := by decide
    split
    all_goals rw [named_cons, named_nil, List.append_nil]
    · exact (((hkey.append hcomma).append hvalue).append hplain).lineNames_eq rfl
    · exact (((hkey.append hcomma).append hvalue).append hplain).lineNames_eq rfl
    · exact (((hkey.append hcomma).append hvalue).append hplain).lineNames_eq rfl
    all_goals
      exact (((hkey.append hcomma).append (hvalue.append hclone)).append hend).lineNames_eq rfl

end Field

namespace Member

variable {m : Member} (hm : ∀ f, m = field f → IsPascal f.identifier.toList)

include hm

theorem named_writing : named m.writing = [] := by
  cases m with
  | recordMeta | recordId | timestamps => exact rfl
  | field f => exact Field.named_writing (hm f rfl)

theorem named_setterCode :
    (m.setterCode.map named).getD [] = m.setterMeanings.map (Meaning.spelling own) := by
  cases m with
  | recordMeta | recordId | timestamps => exact rfl
  | field f =>
    obtain ⟨code, hcode⟩ : ∃ code, code ∈ (field f).setterCode := ⟨_, rfl⟩
    rw [Option.mem_def.mp hcode, Option.map_some, Option.getD_some]
    exact Field.named_setterCode (hm f rfl) hcode

theorem lineNames_idAccess :
    lineNames m.idAccess.1.toList = [] ∧ lineNames m.idAccess.2.toList = [] := by
  cases m with
  | recordMeta | recordId | timestamps => exact ⟨rfl, rfl⟩
  | field f =>
    have hvalue := Field.reads_member (hm f rfl) "self." (by decide)
    have hborrow := Field.reads_member (hm f rfl) "&self." (by decide)
    unfold idAccess
    dsimp only
    split
    · have hdefault : Reads (.word true f.memberName.toList) ".as_deref().unwrap_or_default()" []
          (.gap false) := rfl
      have hchange : Reads (.word true f.memberName.toList) " = Some(id.to_string());" []
          (.gap false) := rfl
      exact ⟨(hvalue.append hdefault).lineNames_eq rfl, (hvalue.append hchange).lineNames_eq rfl⟩
    · have hchange : Reads (.word true f.memberName.toList) " = id.to_string();" []
          (.gap false) := rfl
      exact ⟨hborrow.lineNames_eq rfl, (hvalue.append hchange).lineNames_eq rfl⟩

end Member

/-! ## Collections -/

namespace Collection

variable (c : Collection)

def structMeanings : List Meaning := .own :: c.members.flatMap Member.meanings

def inherentMeanings : List Meaning :=
  [Meaning.own, .primitive "str"] ++ (c.id.map fun _ => [Meaning.primitive "str"]).getD []
    ++ c.members.flatMap Member.setterMeanings

def modelMeanings : List Meaning :=
  [Meaning.runtime "Model", .own, .runtime "Record", .itself, .itself]
    ++ c.members.flatMap Member.readingMeanings
    ++ [Meaning.runtime "Record", .runtime "Record"] ++ List.replicate 6 (Meaning.primitive "str")

/-- What the implementation for shared timestamps mentions. -/
def timestampsMeanings : List Meaning := [.runtime "HasTimestamps", .own, .runtime "Timestamps"]

/-- What the type names in the file of the model are meant to be, in their order. -/
def meanings : List Meaning :=
  c.structMeanings ++ c.inherentMeanings ++ c.modelMeanings
    ++ if c.sharesTimestamps then timestampsMeanings else []

/-- The file of the model between the imports and the check at its end. -/
def body : Code :=
  c.structCode ++ spaced ([c.inherentCode, c.modelCode]
    ++ if c.sharesTimestamps then [c.timestampsCode] else [])

/-- The check at the end, behind the name of the runtime library. -/
def check : String := "::assert_model::<" ++ c.structName ++ ">();"

variable {c : Collection}

theorem lineNames_about (what : String) :
    lineNames ("/// Collection " ++ what ++ ".").toList = [] := by
  have hfront : Reads (.gap false) "/// Collection " [] .aside := by decide
  exact ((hfront.append (reads_comment _)).append (reads_comment _)).lineNames_eq rfl

theorem lineNames_constant {what : String} (value : String)
    (h : Reads (.gap false) ("pub const COLLECTION_" ++ what.toUpper ++ ": &'static str = ")
      ["str"] (.gap false)) :
    lineNames ("pub const COLLECTION_" ++ what.toUpper ++ ": &'static str = "
      ++ Text.Quoted.encode value ++ ";").toList = ["str"] := by
  have hend : Reads (.gap false) ";" [] (.gap false) := by decide
  exact ((h.append (reads_encode false value)).append hend).lineNames_eq rfl

variable (hc : c.IsNamed)

include hc

theorem IsNamed.lineNames_struct (front : String) (names : List String)
    (h : Reads (.gap false) front names (.gap false)) :
    lineNames (front ++ c.structName ++ " \x7b").toList = names ++ [c.structName] := by
  have hend := hc.structName.reads_end (s := " \x7b") (m := .gap false) rfl
  have hall := ((h.append (hc.structName.isWord.reads false)).append hend).lineNames_eq rfl
  rwa [List.append_nil] at hall

theorem IsNamed.lineNames_check : lineNames c.check.toList = [c.structName] := by
  have hfront : Reads (.gap false) "::assert_model::<" [] (.gap false) := rfl
  have hend := hc.structName.reads_end (s := ">();") (m := .gap false) rfl
  exact ((hfront.append (hc.structName.isWord.reads false)).append hend).lineNames_eq rfl

theorem IsNamed.named_structCode :
    named c.structCode = c.structMeanings.map (Meaning.spelling c.structName) := by
  have hcomment : lineNames ("/// Record of the `" ++ c.name ++ "` collection.").toList = [] := by
    have hfront : Reads (.gap false) "/// Record of the `" [] .aside := by decide
    exact ((hfront.append (reads_comment _)).append (reads_comment _)).lineNames_eq rfl
  have hderive : lineNames "#[derive(Debug, Clone, Default, PartialEq)]".toList = [] := rfl
  have hstruct := hc.lineNames_struct "pub struct " [] rfl
  have hmembers : named (c.members.map Member.declaration) =
      (c.members.flatMap Member.meanings).map (Meaning.spelling c.structName) := by
    rw [List.map_flatMap]
    exact named_map fun m hm => Member.lineNames_declaration (hc.pascal_of_mem hm)
  rw [structCode, named_append, named_cons, named_cons, named_nil, named_block, hcomment, hderive,
    hstruct, hmembers]
  rfl

theorem IsNamed.named_timestampsCode :
    named c.timestampsCode = timestampsMeanings.map (Meaning.spelling c.structName) := by
  have himpl := hc.lineNames_struct "impl HasTimestamps for " ["HasTimestamps"]
    rfl
  have hmethod : named (block "fn timestamps(&self) -> &Timestamps" ["&self.timestamps"]) =
      ["Timestamps"] := rfl
  rw [timestampsCode, named_block, himpl, hmethod]
  rfl

theorem IsNamed.named_setters :
    named (spaced (c.members.filterMap Member.setterCode)) =
      (c.members.flatMap Member.setterMeanings).map (Meaning.spelling c.structName) := by
  rw [named_spaced, List.map_flatMap, List.filterMap_eq_flatMap_toList, List.flatMap_assoc]
  refine congrArg List.flatten (List.map_congr_left fun m hm => ?_)
  rw [← Member.named_setterCode (hc.pascal_of_mem hm)]
  cases m.setterCode with
  | none => rfl
  | some code => simp

theorem IsNamed.named_inherentCode :
    named c.inherentCode = c.inherentMeanings.map (Meaning.spelling c.structName) := by
  have himpl := hc.lineNames_struct "impl " [] rfl
  unfold inherentCode
  dsimp only
  rw [named_block, himpl, named_append, named_append, hc.named_setters, named_cons, named_cons,
    named_nil, lineNames_about, lineNames_constant c.name (by decide +kernel)]
  cases hid : c.id with
  | none => simp [inherentMeanings, hid, Meaning.spelling]
  | some id =>
    rw [Option.map_some, Option.getD_some, named_cons, named_cons, named_nil, lineNames_about,
      lineNames_constant id (by decide +kernel)]
    simp [inherentMeanings, hid, Meaning.spelling]

theorem IsNamed.named_fromRecord :
    named (block "fn from_record(record: &Record) -> Self"
      (block "Self" (c.members.map Member.reading))) =
      ["Record", "Self", "Self"] ++
        (c.members.flatMap Member.readingMeanings).map (Meaning.spelling c.structName) := by
  have hhead : lineNames ("fn from_record(record: &Record) -> Self" ++ " \x7b").toList =
      ["Record", "Self"] := rfl
  have hself : lineNames ("Self" ++ " \x7b").toList = ["Self"] := rfl
  rw [named_block, named_block, hhead, hself, List.map_flatMap,
    named_map fun m hm => Member.lineNames_reading (hc.pascal_of_mem hm)]
  rfl

theorem IsNamed.named_toRecord :
    named (block "fn to_record(&self) -> Record"
      (["let mut record = Record::new();"] ++ c.members.flatMap Member.writing ++ ["record"])) =
      ["Record", "Record"] := by
  have hhead : lineNames ("fn to_record(&self) -> Record" ++ " \x7b").toList = ["Record"] := rfl
  have hnew : named ["let mut record = Record::new();"] = ["Record"] := rfl
  have hwritings : named (c.members.flatMap Member.writing) = [] := by
    rw [named_flatMap, List.flatMap_eq_nil_iff]
    exact fun m hm => Member.named_writing (hc.pascal_of_mem hm)
  have hend : named ["record"] = [] := rfl
  rw [named_block, named_append, named_append, hhead, hnew, hwritings, hend]
  rfl

theorem IsNamed.named_modelCode :
    named c.modelCode = c.modelMeanings.map (Meaning.spelling c.structName) := by
  have himpl := hc.lineNames_struct "impl Model for " ["Model"] rfl
  obtain ⟨hvalue, hchange⟩ := Member.lineNames_idAccess (hc.pascal_of_mem c.idMember_mem.1)
  have hid : named (block "fn id(&self) -> &str" [c.idMember.idAccess.1]) = ["str"] :=
    named_block_of rfl (by rw [named_cons, hvalue]; rfl)
  have hset : named (block "fn set_id(&mut self, id: &str)" [c.idMember.idAccess.2]) = ["str"] :=
    named_block_of rfl (by rw [named_cons, hchange]; rfl)
  have hcollectionId : named (block "fn collection_id(&self) -> &str"
      ["&self.meta.collection_id"]) = ["str"] := rfl
  have hcollectionName : named (block "fn collection_name(&self) -> &str"
      ["&self.meta.collection_name"]) = ["str"] := rfl
  have hsetCollection : named (block "fn set_collection(&mut self, id: &str, name: &str)"
      ["self.meta.collection_id = id.to_string();",
        "self.meta.collection_name = name.to_string();"]) = ["str", "str"] := rfl
  unfold modelCode
  dsimp only
  rw [named_block, himpl, named_append, hc.named_fromRecord, named_spaced]
  simp only [List.flatMap_cons, List.flatMap_nil, hc.named_toRecord, hid, hset, hcollectionId,
    hcollectionName, hsetCollection]
  simp [modelMeanings, Meaning.spelling]

theorem IsNamed.unbroken_body : Unbroken c.body := by
  have htimestamps : Unbroken c.timestampsCode := hc.lacks_timestampsCode (by decide)
  refine unbroken_append.mpr ⟨hc.lacks_structCode (by decide), unbroken_spaced ?_⟩
  split <;> simp [hc.unbroken_inherentCode, hc.unbroken_modelCode, htimestamps]

/-- The type names between the imports and the check spell their meanings. -/
theorem IsNamed.typeNames_body :
    typeNames c.body.text = c.meanings.map (Meaning.spelling c.structName) := by
  rw [typeNames_text hc.unbroken_body, body, named_append, named_spaced, meanings]
  split <;> simp [hc.named_structCode, hc.named_inherentCode, hc.named_modelCode,
    hc.named_timestampsCode]

end Collection

end TypedCollections
