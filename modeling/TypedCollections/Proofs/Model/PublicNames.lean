import TypedCollections.Proofs.Model.Scope

/-!
The public names in the file of a model, read off its text: the members of the struct and the
methods that set them. A line without `pub` in front declares neither, so what there is to read
stands in the struct and in the first line of each setter, whatever the texts of the document are.
-/

namespace TypedCollections

open Code
open Identifier (IsLegal IsPascal bare)

namespace Code

/-- The name between a phrase at the front of a line, which may be set in, and a mark. A keyword
that is used as a name has its sharp sign. -/
def nameBetween? (phrase : String) (mark : Char) (line : List Char) : Option String :=
  let line := line.dropWhile (· == ' ')
  if phrase.toList.isPrefixOf line then
    let rest := line.drop phrase.toList.length
    if (rest.dropWhile isNameChar).head? = some mark then
      some (String.ofList (rest.takeWhile isNameChar))
    else none
  else none

/-- The public member that a line declares. -/
def lineMembers (line : List Char) : List String := (nameBetween? "pub " ':' line).toList

/-- The public method whose definition a line begins. -/
def lineMethods (line : List Char) : List String := (nameBetween? "pub fn " '(' line).toList

/-- The public members that a text declares, in its order. -/
def memberNames (text : String) : List String := (lines text).flatMap lineMembers

/-- The public methods that a text defines, in its order. -/
def methodNames (text : String) : List String := (lines text).flatMap lineMethods

/-! ## Lines -/

/-- A line without `pub` in front. -/
def Hidden (line : List Char) : Prop := ¬"pub ".toList <+: line.dropWhile (· == ' ')

instance (line : List Char) : Decidable (Hidden line) := inferInstanceAs (Decidable (¬_))

/-- A phrase with a blank is not the front of a name and what stands behind it. -/
theorem not_prefix_of_isWord {phrase : List Char} (hblank : ' ' ∈ phrase) {c : Char}
    (hc : c ∉ phrase) {name : String} (hname : IsWord name) (rest : List Char) :
    ¬phrase <+: name.toList ++ c :: rest := by
  intro hphrase
  have hword : name.toList ++ [c] <+: name.toList ++ c :: rest := ⟨rest, by simp⟩
  have hmem : ' ' ∈ name.toList ++ [c] ∨ c ∈ phrase := by
    rcases List.prefix_or_prefix_of_prefix hphrase hword with h | h
    · exact .inl (h.subset hblank)
    · exact .inr (h.subset (by simp))
  rcases hmem with h | h
  · rcases List.mem_append.mp h with h | h
    · exact absurd (List.all_eq_true.mp hname.2 _ h) (by decide)
    · exact hc (List.mem_singleton.mp h ▸ hblank)
  · exact hc h

theorem hidden_append {front : String} (rest : String)
    (h : front.toList.head?.any fun c => c != 'p' && c != ' ') : Hidden (front ++ rest).toList := by
  rw [String.toList_append]
  cases hfront : front.toList with
  | nil => simp [hfront] at h
  | cons c front =>
    obtain ⟨hp, hb⟩ : c ≠ 'p' ∧ c ≠ ' ' := by simpa [hfront] using h
    rw [Hidden, List.cons_append, List.dropWhile_cons_of_neg (by simpa using hb)]
    rintro ⟨more, hmore⟩
    exact hp (List.cons.inj hmore).1.symm

/-- A line that begins with a name and a colon, as one with a member of a value does. -/
theorem hidden_of_isWord {name : String} (h : IsWord name) (rest : List Char) :
    Hidden (name.toList ++ ':' :: rest) := by
  rw [Hidden, h.dropWhile_append]
  exact not_prefix_of_isWord (by decide) (by decide) h rest

theorem nameBetween?_append {phrase : String} {mark : Char} {name : String} (rest : List Char)
    (hphrase : ∀ more, (phrase.toList ++ more).dropWhile (· == ' ') = phrase.toList ++ more)
    (hname : name.toList.all isNameChar) (hmark : isNameChar mark = false) :
    nameBetween? phrase mark (phrase.toList ++ (name.toList ++ mark :: rest)) = some name := by
  have hprefix : phrase.toList.isPrefixOf (phrase.toList ++ (name.toList ++ mark :: rest)) :=
    List.isPrefixOf_iff_prefix.mpr (List.prefix_append _ _)
  have hletters : ∀ c ∈ name.toList, isNameChar c := List.all_eq_true.mp hname
  have hstop : ¬isNameChar mark := by simp [hmark]
  unfold nameBetween?
  simp only [hphrase]
  rw [if_pos hprefix, List.drop_left, List.dropWhile_append_of_pos hletters,
    List.dropWhile_cons_of_neg hstop, List.takeWhile_append_of_pos hletters,
    List.takeWhile_cons_of_neg hstop, List.append_nil, String.ofList_toList]
  exact if_pos rfl

/-- Reading that finds nothing on hidden lines. -/
structure ReadsPublic (read : List Char → List String) : Prop extends IgnoresLayout read where
  hidden : ∀ line, Hidden line → read line = []

theorem nameBetween?_of_hidden {phrase : String} {mark : Char} {line : List Char}
    (hphrase : "pub ".toList <+: phrase.toList) (h : Hidden line) :
    nameBetween? phrase mark line = none := by
  refine if_neg fun hprefix => ?_
  exact h (hphrase.trans (List.isPrefixOf_iff_prefix.mp hprefix))

theorem readsPublic_lineMembers : ReadsPublic lineMembers where
  blank := rfl
  bracket := rfl
  indented _ := rfl
  hidden _ h := by rw [lineMembers, nameBetween?_of_hidden List.prefix_rfl h]; rfl

theorem readsPublic_lineMethods : ReadsPublic lineMethods where
  blank := rfl
  bracket := rfl
  indented _ := rfl
  hidden _ h := by rw [lineMethods, nameBetween?_of_hidden (by decide) h]; rfl

/-! ## Lines of code -/

/-- Lines that are all hidden. -/
def AllHidden (code : Code) : Prop := ∀ line ∈ code, Hidden line.toList

instance (code : Code) : Decidable (AllHidden code) := inferInstanceAs (Decidable (∀ _ ∈ _, _))

@[simp] theorem allHidden_nil : AllHidden [] := List.forall_mem_nil _

@[simp] theorem allHidden_cons {line : String} {code : Code} :
    AllHidden (line :: code) ↔ Hidden line.toList ∧ AllHidden code := List.forall_mem_cons

@[simp] theorem allHidden_append {a b : Code} :
    AllHidden (a ++ b) ↔ AllHidden a ∧ AllHidden b := List.forall_mem_append

theorem allHidden_block {head : String} {body : Code} (hhead : Hidden (head ++ " \x7b").toList)
    (hbody : AllHidden body) : AllHidden (block head body) := by
  refine forall_mem_block hhead hbody (fun line hline => ?_) (by decide)
  rw [String.toList_append]
  exact hline

theorem allHidden_spaced {parts : List Code} (h : ∀ part ∈ parts, AllHidden part) :
    AllHidden (spaced parts) :=
  List.forall_mem_flatMap.mpr fun part hpart => allHidden_cons.mpr ⟨by decide, h part hpart⟩

theorem ReadsPublic.gathered_of_allHidden {read : List Char → List String}
    (hread : ReadsPublic read) {code : Code} (h : AllHidden code) : gathered read code = [] :=
  List.flatMap_eq_nil_iff.mpr fun line hline => hread.hidden _ (h line hline)

end Code

/-! ## Members -/

namespace Member

theorem hidden_idAccess (m : Member) : Hidden m.idAccess.1.toList ∧ Hidden m.idAccess.2.toList := by
  have hplain (name : String) : Hidden (idAccess.plain name).1.toList ∧
      Hidden (idAccess.plain name).2.toList := by
    simp only [idAccess.plain, String.append_assoc]
    exact ⟨hidden_append _ (by decide), hidden_append _ (by decide)⟩
  unfold idAccess
  split
  · split
    · simp only [String.append_assoc]
      exact ⟨hidden_append _ (by decide), hidden_append _ (by decide)⟩
    · exact hplain _
  · exact hplain _

theorem allHidden_writing (m : Member) : AllHidden m.writing := by
  have hset (rest : String) : Hidden ("record.set(" ++ rest).toList := hidden_append _ (by decide)
  cases m with
  | recordMeta | recordId | timestamps => decide
  | field f =>
    unfold writing
    dsimp only
    split
    · refine allHidden_block ?_ ?_
      · rw [String.append_assoc]
        exact hidden_append _ (by decide)
      · simp only [allHidden_cons, allHidden_nil, String.append_assoc, hset, and_self]
    · simp only [allHidden_cons, allHidden_nil, String.append_assoc, hset, and_self]

variable {m : Member} (hm : ∀ f, m = field f → IsPascal f.identifier.toList)

include hm

theorem hidden_reading : Hidden m.reading.toList := by
  have hline : m.reading.toList =
      m.name.toList ++ ':' :: (" " ++ reading.source m ++ ",").toList := by
    simp [reading, String.toList_append]
  rw [hline]
  exact hidden_of_isWord (isWord_name hm) _

theorem lineMembers_declaration : lineMembers m.declaration.toList = [m.name] := by
  have hline : m.declaration.toList =
      "pub ".toList ++ (m.name.toList ++ ':' :: (" " ++ m.typeCode ++ ",").toList) := by
    simp [declaration, String.toList_append]
  rw [hline, lineMembers, nameBetween?_append _ (fun _ => rfl) (isWord_name hm).2 (by decide)]
  rfl

/-- The word behind `pub` is the name of the member, with a colon behind it. -/
theorem lineMethods_declaration : lineMethods m.declaration.toList = [] := by
  have hline : m.declaration.toList =
      "pub ".toList ++ (m.name.toList ++ ':' :: (" " ++ m.typeCode ++ ",").toList) := by
    simp [declaration, String.toList_append]
  have hphrase : "pub fn ".toList = "pub ".toList ++ "fn ".toList := rfl
  have hfront : m.declaration.toList.dropWhile (· == ' ') = m.declaration.toList := by
    rw [hline]
    rfl
  have hmethod : ¬"pub fn ".toList <+: m.declaration.toList := by
    rw [hline, hphrase, List.prefix_append_right_inj]
    exact not_prefix_of_isWord (by decide) (by decide) (isWord_name hm) _
  have hnone : nameBetween? "pub fn " '(' m.declaration.toList = none := by
    unfold nameBetween?
    simp only [hfront]
    exact if_neg fun h => hmethod (List.isPrefixOf_iff_prefix.mp h)
  rw [lineMethods, hnone]
  rfl

end Member

namespace Field

variable {f : Field}

/-- Of the setter only the first line is not hidden. -/
theorem gathered_setterCode {read : List Char → List String} (hread : ReadsPublic read) (f : Field) :
    ∃ code rest, (Member.field f).setterCode = some code ∧
      gathered read code = read ("pub fn set_" ++ f.setterName ++ "(" ++ rest).toList := by
  obtain ⟨parameter, value, hcode⟩ : ∃ parameter value, (Member.field f).setterCode =
      some (block ("pub fn set_" ++ f.setterName ++ "(&mut self, value: " ++ parameter ++ ")")
        ["self." ++ f.memberName ++ " = " ++ value ++ ";"]) := ⟨_, _, rfl⟩
  have hbody : AllHidden ["self." ++ f.memberName ++ " = " ++ value ++ ";"] := by
    simp only [allHidden_cons, allHidden_nil, String.append_assoc, and_true]
    exact hidden_append _ (by decide)
  have hopen : "(&mut self, value: " = "(" ++ "&mut self, value: " := by decide
  refine ⟨_, "&mut self, value: " ++ parameter ++ ")" ++ " \x7b", hcode, ?_⟩
  rw [gathered_block hread.toIgnoresLayout, hread.gathered_of_allHidden hbody, List.append_nil,
    hopen]
  simp only [String.append_assoc]

theorem lineMembers_setter (name rest : String) :
    lineMembers ("pub fn set_" ++ name ++ "(" ++ rest).toList = [] := by
  rw [String.append_assoc, String.append_assoc, String.toList_append]
  rfl

theorem lineMethods_setter (hf : IsPascal f.identifier.toList) (rest : String) :
    lineMethods ("pub fn set_" ++ f.setterName ++ "(" ++ rest).toList = ["set_" ++ f.setterName] := by
  have hline : ("pub fn set_" ++ f.setterName ++ "(" ++ rest).toList =
      "pub fn ".toList ++ (("set_" ++ f.setterName).toList ++ '(' :: rest.toList) := by
    simp [String.toList_append]
  have hname : ("set_" ++ f.setterName).toList.all isNameChar := by
    rw [String.toList_append, List.all_append,
      isNameChar_of_isWordChar (isSnake_setterName hf).isWordChar]
    rfl
  rw [hline, lineMethods, nameBetween?_append _ (fun _ => rfl) hname (by decide)]
  rfl

end Field

/-! ## Collections -/

namespace Collection

variable {c : Collection}

theorem hasIdField_iff : c.hasIdField ↔ ∃ f ∈ c.fields, f.key = "id" := by
  simp [hasIdField, field?, List.find?_isSome]

theorem sharesTimestamps_iff : c.sharesTimestamps ↔ c.dialect = .legacy := by
  unfold sharesTimestamps Schema.Dialect.sharesTimestamps
  cases c.dialect <;> decide

/-- The names of the members: those of the model, and one for each field. -/
theorem names_members (c : Collection) : c.members.map Member.name =
    "meta" :: (if ∃ f ∈ c.fields, f.key = "id" then [] else ["id"])
      ++ (if c.dialect = .legacy then ["timestamps"] else []) ++ c.fields.map Field.memberName := by
  have hfields : Member.name ∘ Member.field = Field.memberName := rfl
  simp only [← hasIdField_iff, ← sharesTimestamps_iff, members, List.map_append, List.map_cons,
    List.map_map, hfields]
  cases c.hasIdField <;> cases c.sharesTimestamps <;> rfl

theorem allHidden_timestampsCode (c : Collection) : AllHidden c.timestampsCode := by
  refine allHidden_block ?_ (by decide)
  rw [String.append_assoc]
  exact hidden_append _ (by decide)

theorem IsNamed.allHidden_modelCode (hc : c.IsNamed) : AllHidden c.modelCode := by
  obtain ⟨hvalue, hchange⟩ := c.idMember.hidden_idAccess
  have hreadings : AllHidden (c.members.map Member.reading) :=
    List.forall_mem_map.mpr fun m hm => Member.hidden_reading (hc.pascal_of_mem hm)
  have hwritings : AllHidden (c.members.flatMap Member.writing) :=
    List.forall_mem_flatMap.mpr fun m _ => m.allHidden_writing
  unfold modelCode
  dsimp only
  refine allHidden_block ?_ (allHidden_append.mpr
    ⟨allHidden_block (by decide) (allHidden_block (by decide) hreadings), allHidden_spaced ?_⟩)
  · rw [String.append_assoc]
    exact hidden_append _ (by decide)
  simp only [List.forall_mem_cons]
  refine ⟨?_, ?_, ?_, ?_, ?_, ?_, by simp⟩
  all_goals refine allHidden_block (by decide) ?_
  all_goals simp +decide [hwritings, hvalue, hchange]

section Gathered

variable {read : List Char → List String} (hread : ReadsPublic read)

include hread

/-- What is read off the struct is read off its members. -/
theorem gathered_structCode (hstruct : ∀ rest, read ("pub struct " ++ rest).toList = []) :
    gathered read c.structCode = gathered read (c.members.map Member.declaration) := by
  have habout : AllHidden ["/// Record of the `" ++ c.name ++ "` collection.",
      "#[derive(Debug, Clone, Default, PartialEq)]"] := by
    simp only [allHidden_cons, String.append_assoc]
    exact ⟨hidden_append _ (by decide), by decide, allHidden_nil⟩
  rw [structCode, gathered_append, hread.gathered_of_allHidden habout,
    gathered_block hread.toIgnoresLayout, String.append_assoc, hstruct]
  rfl

/-- What is read off the setters is read off each of them. -/
theorem gathered_setters : gathered read (spaced (c.members.filterMap Member.setterCode)) =
    c.members.flatMap fun m => (m.setterCode.map (gathered read)).getD [] := by
  rw [gathered_spaced hread.toIgnoresLayout, List.filterMap_eq_flatMap_toList, List.flatMap_assoc]
  refine congrArg List.flatten (List.map_congr_left fun m _ => ?_)
  cases m.setterCode with
  | none => rfl
  | some code => simp

/-- The constants declare no names of this kind, so all there is to read are the setters. -/
theorem gathered_inherentCode
    (hconstant : ∀ rest, read ("pub const COLLECTION_" ++ rest).toList = []) :
    gathered read c.inherentCode =
      c.members.flatMap fun m => (m.setterCode.map (gathered read)).getD [] := by
  have hconstants (what value : String) : gathered read ["/// Collection " ++ what ++ ".",
      "pub const COLLECTION_" ++ what.toUpper ++ ": &'static str = " ++ Text.Quoted.encode value
        ++ ";"] = [] := by
    have habout : read ("/// Collection " ++ what ++ ".").toList = [] := by
      rw [String.append_assoc]
      exact hread.hidden _ (hidden_append _ (by decide))
    have hvalue : read ("pub const COLLECTION_" ++ what.toUpper ++ ": &'static str = "
        ++ Text.Quoted.encode value ++ ";").toList = [] := by
      simp only [String.append_assoc, hconstant]
    simp only [gathered, List.flatMap_cons, List.flatMap_nil, habout, hvalue, List.append_nil]
  have hhead : Hidden ("impl " ++ c.structName ++ " \x7b").toList := by
    rw [String.append_assoc]
    exact hidden_append _ (by decide)
  unfold inherentCode
  dsimp only
  rw [gathered_block hread.toIgnoresLayout, hread.hidden _ hhead, gathered_append, gathered_append,
    hconstants "name" c.name, gathered_setters hread]
  cases c.id with
  | none => rfl
  | some id =>
    rw [Option.map_some, Option.getD_some, hconstants "id" id]
    rfl

/-- What is read off the file is read off the members and the setters. -/
theorem IsNamed.gathered_body (hc : c.IsNamed)
    (hstruct : ∀ rest, read ("pub struct " ++ rest).toList = [])
    (hconstant : ∀ rest, read ("pub const COLLECTION_" ++ rest).toList = []) :
    gathered read c.body = gathered read (c.members.map Member.declaration) ++
      c.members.flatMap fun m => (m.setterCode.map (gathered read)).getD [] := by
  have hmodel := hread.gathered_of_allHidden hc.allHidden_modelCode
  have htimestamps := hread.gathered_of_allHidden c.allHidden_timestampsCode
  rw [body, gathered_append, gathered_structCode hread hstruct,
    gathered_spaced hread.toIgnoresLayout]
  split <;> simp [gathered_inherentCode hread hconstant, hmodel, htimestamps]

end Gathered

variable (hc : c.IsNamed)

include hc

/-- The file declares the members of the struct, and no others. -/
theorem IsNamed.memberNames_body : memberNames c.body.text = c.members.map Member.name := by
  have hmembers : gathered lineMembers (c.members.map Member.declaration) =
      c.members.flatMap fun m => [m.name] :=
    gathered_map fun m hm => Member.lineMembers_declaration (hc.pascal_of_mem hm)
  have hsetters : (c.members.flatMap fun m => (m.setterCode.map (gathered lineMembers)).getD []) =
      [] := by
    refine List.flatMap_eq_nil_iff.mpr fun m _ => ?_
    cases m with
    | recordMeta | recordId | timestamps => rfl
    | field f =>
      obtain ⟨code, rest, hcode, hread⟩ := f.gathered_setterCode readsPublic_lineMembers
      rw [hcode, Option.map_some, Option.getD_some, hread, Field.lineMembers_setter]
  have hall := hc.gathered_body readsPublic_lineMembers
    (fun rest => by rw [String.toList_append]; rfl) (fun rest => by rw [String.toList_append]; rfl)
  rw [hmembers, hsetters, List.append_nil, ← List.map_eq_flatMap] at hall
  exact (gathered_text hc.unbroken_body readsPublic_lineMembers.toIgnoresLayout).trans hall

/-- The file defines a setter for each field, and no other public methods. -/
theorem IsNamed.methodNames_body :
    methodNames c.body.text = c.fields.map fun f => "set_" ++ f.setterName := by
  have hmembers : gathered lineMethods (c.members.map Member.declaration) = [] := by
    rw [gathered_map fun m hm => Member.lineMethods_declaration (hc.pascal_of_mem hm)]
    exact List.flatMap_eq_nil_iff.mpr fun _ _ => rfl
  have hown : (c.ownMembers.flatMap fun m => (m.setterCode.map (gathered lineMethods)).getD []) =
      [] := by
    unfold ownMembers
    split <;> split <;> rfl
  have hsetters : (c.fields.flatMap fun f =>
      ((Member.field f).setterCode.map (gathered lineMethods)).getD []) =
        c.fields.map fun f => "set_" ++ f.setterName := by
    rw [List.map_eq_flatMap]
    refine congrArg List.flatten (List.map_congr_left fun f hf => ?_)
    obtain ⟨code, rest, hcode, hread⟩ := f.gathered_setterCode readsPublic_lineMethods
    rw [hcode, Option.map_some, Option.getD_some, hread,
      Field.lineMethods_setter (hc.fields f hf)]
  have hall := hc.gathered_body readsPublic_lineMethods
    (fun rest => by rw [String.toList_append]; rfl) (fun rest => by rw [String.toList_append]; rfl)
  rw [hmembers, List.nil_append, members_eq, List.flatMap_append, hown, List.nil_append,
    List.flatMap_map, hsetters] at hall
  exact (gathered_text hc.unbroken_body readsPublic_lineMethods.toIgnoresLayout).trans hall

omit hc

/-- The members of the struct of a loaded collection have different names, even without the mark of
raw ones, the setters have different names, and the code may use each name. The names are those that
the text of the file declares between the imports and the check: the members are the origin of the
record, its id where no field holds it, the timestamps where the dialect shares them and one for
each field, and each field has a setter. -/
theorem member_names_of_load {options : LoadOptions} {path : String} {bytes : Bytes} {s : Schema}
    (h : Compiler.load options path bytes = .ok s) (hc : c ∈ s.collections) (runtime : String) :
    (SourceFile.ofCollection runtime s.sourceName c).content =
      Code.text (SourceFile.heading s.sourceName ++ [c.importLine runtime, ""]) ++ c.body.text
        ++ Code.text ["", "const _: () = " ++ runtime ++ c.check] ∧
    memberNames c.body.text =
      "meta" :: (if ∃ f ∈ c.fields, f.key = "id" then [] else ["id"])
        ++ (if c.dialect = .legacy then ["timestamps"] else []) ++ c.fields.map Field.memberName ∧
    methodNames c.body.text = (c.fields.map fun f => "set_" ++ f.setterName) ∧
    ((memberNames c.body.text).map bare).Nodup ∧ (∀ name ∈ memberNames c.body.text, IsLegal name) ∧
    (methodNames c.body.text).Nodup ∧ ∀ name ∈ methodNames c.body.text, IsLegal name := by
  have hnamed := isNamed_of_load h c hc
  have hdistinct := Compiler.distinct_of_load h hc
  have hmembers := hnamed.memberNames_body
  refine ⟨content_ofCollection runtime s.sourceName c, hmembers.trans c.names_members,
    hnamed.methodNames_body, ?_, ?_, ?_, ?_⟩
  · rw [hmembers, List.map_map]
    exact names_nodup hdistinct
  · rw [hmembers]
    intro name hname
    obtain ⟨m, hm, rfl⟩ := List.mem_map.mp hname
    exact Member.isLegal_name (hnamed.pascal_of_mem hm)
  · rw [hnamed.methodNames_body]
    exact setterNames_nodup hdistinct
  · rw [hnamed.methodNames_body]
    intro name hname
    obtain ⟨f, hf, rfl⟩ := List.mem_map.mp hname
    exact Member.isLegal_setter (hdistinct.pascal f hf)

/-- Names that differ only until they are in Pascal case, a keyword, a name of the struct itself and
a word that is no raw name. -/
def clashingText : String :=
  "[\x7b\"name\":\"p\",\"fields\":[\x7b\"name\":\"_id\",\"type\":\"text\"\x7d,"
    ++ "\x7b\"name\":\"Id\",\"type\":\"text\"\x7d,\x7b\"name\":\"type\",\"type\":\"bool\"\x7d,"
    ++ "\x7b\"name\":\"meta\",\"type\":\"json\"\x7d,"
    ++ "\x7b\"name\":\"self\",\"type\":\"file\"\x7d]\x7d]"

def clashing : Collection where
  name := "p"
  structName := "P"
  id := none
  fields :=
    [⟨"Id", "_id", ⟨.text, true⟩⟩, ⟨"Id2", "Id", ⟨.text, true⟩⟩, ⟨"Type", "type", ⟨.flag, true⟩⟩,
      ⟨"Meta", "meta", ⟨.json, false⟩⟩, ⟨"Self", "self", ⟨.idList, false⟩⟩]
  dialect := .latest

theorem member_names_of_clashing :
    Compiler.load {} "schema.json" (Utf8.encode clashingText) =
        .ok ⟨"schema.json", .latest, .latest, [clashing], [.identifierCollision "p" "Id" "Id2"]⟩ ∧
      memberNames clashing.body.text =
        ["meta", "id", "id_", "id2", "r#type", "meta_", "self_"] ∧
      methodNames clashing.body.text =
        ["set_id_", "set_id2", "set_type", "set_meta_", "set_self"] ∧
      ((memberNames clashing.body.text).map bare).Nodup ∧
      (∀ name ∈ memberNames clashing.body.text, IsLegal name) ∧
      (methodNames clashing.body.text).Nodup ∧
      ∀ name ∈ methodNames clashing.body.text, IsLegal name := by
  have hload : Compiler.load {} "schema.json" (Utf8.encode clashingText) =
      .ok ⟨"schema.json", .latest, .latest, [clashing],
        [.identifierCollision "p" "Id" "Id2"]⟩ := by decide +kernel
  obtain ⟨-, hmembers, hmethods, hnames⟩ :=
    member_names_of_load hload (List.mem_singleton.mpr rfl) SourceFile.defaultRuntime
  refine ⟨hload, hmembers.trans ?_, hmethods.trans ?_, hnames⟩ <;> decide +kernel

end Collection

end TypedCollections
