import TypedCollections.Proofs.Model.Scope
import TypedCollections.Proofs.Text.Literals

/-!
The string literals in the file of a model, read off its text by the rules of the language. A line
has one literal or none, and which literals there are follows from the description of the model: the
key of each field stands where the field is read from a record and where it is written to one,
whatever characters the key is made of, and so do the name and the id of the collection in their
constants.
-/

namespace TypedCollections

open Code
open Identifier (IsPascal)
open Text.Quoted (encode)

namespace Code

/-- A literal by the text that it denotes, and the code before and behind it on its line. -/
structure Literal where
  before : String
  text : String
  after : String
  deriving DecidableEq, Repr

/-- The literal that begins at the first quotation mark of a line, which may be set in. Behind the end
of the literal there must be no other mark. -/
def literal? (line : List Char) : Option Literal := do
  let (text, after) ← Text.Quoted.read? (line.dropWhile (· != '"'))
  let before := (line.dropWhile (· == ' ')).takeWhile (· != '"')
  if '"' ∈ after then none else some ⟨String.ofList before, text, String.ofList after⟩

/-- What is read on a line that has a quotation mark. -/
def lineLiterals (line : List Char) : List (Option Literal) :=
  if '"' ∈ line then [literal? line] else []

/-- The literals in a text, line by line; nothing stands for a line that is not understood. -/
def literals (text : String) : List (Option Literal) := (lines text).flatMap lineLiterals

/-! ## Lines -/

theorem lineLiterals_of_lacks {s : String} (h : Lacks '"' s) : lineLiterals s.toList = [] :=
  if_neg h

/-- The first quotation mark is found where the first literal begins. -/
theorem split_quote {front : List Char} (h : '"' ∉ front) (rest : List Char) :
    (front ++ '"' :: rest).takeWhile (· != '"') = front ∧
      (front ++ '"' :: rest).dropWhile (· != '"') = '"' :: rest := by
  have hfront : ∀ c ∈ front, (c != '"') = true := by
    intro c hc
    rw [bne_iff_ne]
    rintro rfl
    exact h hc
  rw [List.takeWhile_append_of_pos hfront, List.dropWhile_append_of_pos hfront]
  simp

/-- A literal between pieces of code is read as its text, whatever its text is. -/
theorem lineLiterals_encode {before after : String} (text : String) (hbefore : Lacks '"' before)
    (hafter : Lacks '"' after)
    (hhead : ∀ rest, (before.toList ++ rest).dropWhile (· == ' ') = before.toList ++ rest) :
    lineLiterals (before ++ encode text ++ after).toList = [some ⟨before, text, after⟩] := by
  obtain ⟨letters, hletters⟩ :
      ∃ letters, (encode text).toList ++ after.toList = '"' :: letters := by
    rw [encode, String.toList_ofList]
    exact ⟨_, rfl⟩
  have hread := Text.Quoted.read?_encode text after.toList
  have hline : (before ++ encode text ++ after).toList = before.toList ++ '"' :: letters := by
    rw [String.toList_append, String.toList_append, List.append_assoc, hletters]
  rw [hletters] at hread
  obtain ⟨htake, hdrop⟩ := split_quote hbefore letters
  rw [hline, lineLiterals, if_pos (by simp), literal?, hdrop, hread, hhead, htake,
    Option.bind_eq_bind, Option.bind_some]
  dsimp only
  rw [if_neg hafter, String.ofList_toList, String.ofList_toList]

/-! ## Lines of code -/

theorem lineLiterals_blank (line : List Char) : lineLiterals (' ' :: line) = lineLiterals line := by
  have hmem : '"' ∈ ' ' :: line ↔ '"' ∈ line := by simp
  have hread : literal? (' ' :: line) = literal? line := rfl
  simp only [lineLiterals, hmem, hread]

theorem ignoresLayout_lineLiterals : IgnoresLayout lineLiterals := by
  refine ⟨rfl, rfl, fun line => ?_⟩
  have hblanks : "    ".toList ++ line = ' ' :: ' ' :: ' ' :: ' ' :: line := rfl
  rw [hblanks]
  simp only [lineLiterals_blank]

/-- The literals in lines of code. -/
def found (code : Code) : List (Option Literal) := gathered lineLiterals code

@[simp] theorem found_nil : found [] = [] := rfl

@[simp] theorem found_cons (line : String) (code : Code) :
    found (line :: code) = lineLiterals line.toList ++ found code := by
  rw [found, gathered, List.flatMap_cons]
  rfl

@[simp] theorem found_append (a b : Code) : found (a ++ b) = found a ++ found b :=
  List.flatMap_append

theorem literals_text {code : Code} (h : Unbroken code) : literals code.text = found code :=
  gathered_text h ignoresLayout_lineLiterals

/-- Code in which no line has a literal. -/
theorem found_eq_nil {code : Code} (h : ∀ line ∈ code, Lacks '"' line) : found code = [] :=
  List.flatMap_eq_nil_iff.mpr fun line hline => lineLiterals_of_lacks (h line hline)

/-- The head of a block has no literal. -/
theorem found_block {head : String} (h : Lacks '"' head) (body : Code) :
    found (block head body) = found body := by
  have hhead : Lacks '"' (head ++ " \x7b") := lacks_append.mpr ⟨h, by decide⟩
  rw [found, gathered_block ignoresLayout_lineLiterals, lineLiterals_of_lacks hhead]
  rfl

@[simp] theorem found_spaced (parts : List Code) : found (spaced parts) = parts.flatMap found :=
  gathered_spaced ignoresLayout_lineLiterals parts

theorem found_map {α : Type} {l : List α} {line : α → String} {literal? : α → Option Literal}
    (h : ∀ a ∈ l, lineLiterals (line a).toList = (literal? a).toList.map some) :
    found (l.map line) = (l.filterMap literal?).map some := by
  rw [found, gathered_map h, List.filterMap_eq_flatMap_toList, List.map_flatMap]

theorem found_flatMap {α : Type} {l : List α} {part : α → Code} {literal? : α → Option Literal}
    (h : ∀ a ∈ l, found (part a) = (literal? a).toList.map some) :
    found (l.flatMap part) = (l.filterMap literal?).map some := by
  rw [found, gathered, List.flatMap_assoc, List.filterMap_eq_flatMap_toList, List.map_flatMap]
  exact congrArg List.flatten (List.map_congr_left h)

end Code

/-! ## Members -/

namespace Member

/-- The literal with which the member is read from a record. -/
def readingLiteral? : Member → Option Literal
  | field f => some ⟨f.memberName ++ ": record." ++ f.type.getter ++ "(", f.key, "),"⟩
  | recordId => some ⟨"id: record.get_string(", "id", "),"⟩
  | recordMeta | timestamps => none

/-- What a field is written to a record as. -/
def writtenValue (f : Field) : String :=
  if f.type.accessor = .optional then "value.clone()"
  else match f.type.base with
    | .flag | .number | .dateTime => "self." ++ f.memberName
    | .text | .idList | .json => "self." ++ f.memberName ++ ".clone()"

/-- The literal with which the member is written to a record. -/
def writingLiteral? : Member → Option Literal
  | field f => some ⟨"record.set(", f.key, ", " ++ writtenValue f ++ ");"⟩
  | recordId => some ⟨"record.set(", "id", ", self.id.clone());"⟩
  | recordMeta | timestamps => none

variable {m : Member} (hm : ∀ f, m = field f → IsPascal f.identifier.toList)

include hm

theorem lineLiterals_reading :
    lineLiterals m.reading.toList = m.readingLiteral?.toList.map some := by
  cases m with
  | recordMeta | timestamps => exact lineLiterals_of_lacks (by decide)
  | recordId => decide
  | field f =>
    have hword := Field.isWord_memberName (hm f rfl)
    have hmember : Lacks '"' f.memberName := lacks_name hm (by decide)
    have hgetter : Lacks '"' f.type.getter := f.type.lacks_getter (by decide)
    have hbefore : Lacks '"' (f.memberName ++ ": record." ++ f.type.getter ++ "(") := by
      simp +decide [hmember, hgetter]
    have hline : (field f).reading =
        f.memberName ++ ": record." ++ f.type.getter ++ "(" ++ encode f.key ++ ")," := by
      simp only [reading, reading.source, name, String.append_assoc]
      rfl
    rw [hline]
    refine lineLiterals_encode f.key hbefore (by decide) fun rest => ?_
    simp only [String.toList_append, List.append_assoc, hword.dropWhile_append]

theorem found_writing : found m.writing = m.writingLiteral?.toList.map some := by
  cases m with
  | recordMeta | timestamps => exact found_eq_nil (by decide)
  | recordId => decide
  | field f =>
    have hmember : Lacks '"' f.memberName := lacks_name hm (by decide)
    have hvalue : Lacks '"' (writtenValue f) := by
      unfold writtenValue
      split
      · decide
      · split <;> simp +decide [hmember]
    have hset : found ["record.set(" ++ encode f.key ++ (", " ++ writtenValue f ++ ");")] =
        (field f).writingLiteral?.toList.map some := by
      rw [found_cons, lineLiterals_encode f.key (by decide) (by simp +decide [hvalue]) fun _ => rfl]
      rfl
    rw [← hset]
    unfold writing writtenValue
    dsimp only
    split
    · -- the value is bound in the head of a block
      have hhead : Lacks '"' ("if let Some(value) = &self." ++ f.memberName) := by
        simp +decide [hmember]
      exact found_block hhead _
    · cases f.type.base <;> simp only [String.append_assoc]

end Member

/-! ## Collections -/

namespace Collection

/-- The literal of a constant. -/
def constantLiteral (what value : String) : Literal :=
  ⟨"pub const COLLECTION_" ++ what.toUpper ++ ": &'static str = ", value, ";"⟩

/-- The literals in the file of a model: in the constants, in the reading from a record and in the
writing to one. -/
def literals (c : Collection) : List Literal :=
  constantLiteral "name" c.name :: (c.id.map (constantLiteral "id")).toList
    ++ c.members.filterMap Member.readingLiteral? ++ c.members.filterMap Member.writingLiteral?

theorem lineLiterals_constant (what value : String)
    (hwhat : Lacks '"' ("pub const COLLECTION_" ++ what.toUpper ++ ": &'static str = ")) :
    lineLiterals ("pub const COLLECTION_" ++ what.toUpper ++ ": &'static str = " ++ encode value
      ++ ";").toList = [some (constantLiteral what value)] := by
  refine lineLiterals_encode value hwhat (by decide) fun rest => ?_
  simp only [String.toList_append]
  rfl

section Named

variable {c : Collection} (hc : c.IsNamed)

include hc

theorem IsNamed.found_structCode : found c.structCode = [] :=
  found_eq_nil (hc.lacks_structCode (by decide))

theorem IsNamed.found_timestampsCode : found c.timestampsCode = [] :=
  found_eq_nil (hc.lacks_timestampsCode (by decide))

/-- An implementation begins with the name of the struct. -/
theorem IsNamed.found_implementation {front : String} (hfront : Lacks '"' front) (body : Code) :
    found (block (front ++ c.structName) body) = found body :=
  found_block (lacks_append.mpr ⟨hfront, hc.lacks_structName (by decide)⟩) body

theorem IsNamed.found_setters : found (spaced (c.members.filterMap Member.setterCode)) = [] := by
  rw [found_spaced, List.flatMap_eq_nil_iff]
  intro code hcode
  obtain ⟨m, hm, hcode⟩ := List.mem_filterMap.mp hcode
  exact found_eq_nil (Member.lacks_setterCode (hc.pascal_of_mem hm) (by decide) hcode)

theorem IsNamed.found_inherentCode :
    found c.inherentCode =
      (constantLiteral "name" c.name :: (c.id.map (constantLiteral "id")).toList).map some := by
  have habout (what : String) (h : Lacks '"' ("/// Collection " ++ what ++ ".")) :=
    lineLiterals_of_lacks h
  have hname := lineLiterals_constant "name" c.name (by decide +kernel)
  unfold inherentCode
  dsimp only
  rw [hc.found_implementation (by decide), found_append, found_append, hc.found_setters, found_cons,
    found_cons, found_nil, habout "name" (by decide), hname]
  cases c.id with
  | none => rfl
  | some id =>
    have hid := lineLiterals_constant "id" id (by decide +kernel)
    rw [Option.map_some, Option.getD_some, found_cons, found_cons, found_nil,
      habout "id" (by decide), hid]
    rfl

theorem IsNamed.found_fromRecord :
    found (block "fn from_record(record: &Record) -> Self"
      (block "Self" (c.members.map Member.reading))) =
      (c.members.filterMap Member.readingLiteral?).map some := by
  rw [found_block (by decide), found_block (by decide)]
  exact found_map fun m hm => Member.lineLiterals_reading (hc.pascal_of_mem hm)

theorem IsNamed.found_toRecord :
    found (block "fn to_record(&self) -> Record"
      (["let mut record = Record::new();"] ++ c.members.flatMap Member.writing ++ ["record"])) =
      (c.members.filterMap Member.writingLiteral?).map some := by
  have hwritings : found (c.members.flatMap Member.writing) =
      (c.members.filterMap Member.writingLiteral?).map some :=
    found_flatMap fun m hm => Member.found_writing (hc.pascal_of_mem hm)
  have hnew : found ["let mut record = Record::new();"] = [] := by decide
  have hend : found ["record"] = [] := by decide
  rw [found_block (by decide), found_append, found_append, hnew, hwritings, hend, List.nil_append,
    List.append_nil]

theorem IsNamed.found_modelCode :
    found c.modelCode = (c.members.filterMap Member.readingLiteral?
      ++ c.members.filterMap Member.writingLiteral?).map some := by
  obtain ⟨hvalue, hchange⟩ : Lacks '"' c.idMember.idAccess.1 ∧ Lacks '"' c.idMember.idAccess.2 :=
    Member.lacks_idAccess (hc.pascal_of_mem c.idMember_mem.1) (by decide)
  have hid : found (block "fn id(&self) -> &str" [c.idMember.idAccess.1]) = [] := by
    rw [found_block (by decide)]
    exact found_eq_nil (by simp [hvalue])
  have hset : found (block "fn set_id(&mut self, id: &str)" [c.idMember.idAccess.2]) = [] := by
    rw [found_block (by decide)]
    exact found_eq_nil (by simp [hchange])
  have hmeta : (found (block "fn collection_id(&self) -> &str" ["&self.meta.collection_id"]) = []) ∧
      found (block "fn collection_name(&self) -> &str" ["&self.meta.collection_name"]) = [] ∧
      found (block "fn set_collection(&mut self, id: &str, name: &str)"
        ["self.meta.collection_id = id.to_string();",
          "self.meta.collection_name = name.to_string();"]) = [] := by
    decide
  unfold modelCode
  dsimp only
  rw [hc.found_implementation (by decide), found_append, hc.found_fromRecord, found_spaced,
    List.map_append]
  simp only [List.flatMap_cons, List.flatMap_nil, hc.found_toRecord, hid, hset, hmeta,
    List.append_nil]

theorem IsNamed.literals_body : Code.literals c.body.text = c.literals.map some := by
  rw [literals_text hc.unbroken_body, body, found_append, found_spaced, hc.found_structCode]
  split <;> simp [hc.found_inherentCode, hc.found_modelCode, hc.found_timestampsCode, literals]

end Named

/-- The literals in the file of a model denote the texts that it is made from. The keys of the
fields, the name and the id of the collection are read as they are, whatever characters they are
made of: a literal ends at its own quotation mark, with no line break in it, so that nothing in a
text gets out of it. The body of the file stands between the imports and the check. -/
theorem literals_denote {c : Collection} (hc : c.IsNamed) (runtime source : String) :
    (SourceFile.ofCollection runtime source c).content =
      Code.text (SourceFile.heading source ++ [c.importLine runtime, ""]) ++ c.body.text
        ++ Code.text ["", "const _: () = " ++ runtime ++ c.check] ∧
    Code.literals c.body.text = c.literals.map some ∧
    (∀ text rest, Text.Quoted.read? ((encode text).toList ++ rest) = some (text, rest)) ∧
    ∀ text, ∀ b ∈ (encode text).toList, b ∉ Text.Quoted.lineBreaks :=
  ⟨content_ofCollection runtime source c, hc.literals_body, Text.Quoted.read?_encode,
    fun _ _ => Text.Quoted.notMem_lineBreaks_of_mem_encode⟩

/-- A collection whose id could end a literal, and whose key has a line break, a combining mark and
a backslash before a quotation mark. -/
def quotedText : Bytes :=
  Utf8.encode ("[\x7b\"name\":\"a\",\"id\":\"\\\";//\",\"fields\":["
    ++ "\x7b\"name\":\"b\\n\\u0301\\\\\\\"\",\"type\":\"text\"\x7d]\x7d]")

def quotedCollection : Collection :=
  ⟨"a", "A", some "\";//", [⟨"B", "b\n\u0301\\\"", ⟨.text, true⟩⟩], .latest⟩

theorem literals_denote_quotedText :
    Compiler.load {} "schema.json" quotedText =
        .ok ⟨"schema.json", .latest, .latest, [quotedCollection], []⟩ ∧
      Code.literals quotedCollection.body.text =
        [some ⟨"pub const COLLECTION_NAME: &'static str = ", "a", ";"⟩,
          some ⟨"pub const COLLECTION_ID: &'static str = ", "\";//", ";"⟩,
          some ⟨"id: record.get_string(", "id", "),"⟩,
          some ⟨"b: record.get_optional_string(", "b\n\u0301\\\"", "),"⟩,
          some ⟨"record.set(", "id", ", self.id.clone());"⟩,
          some ⟨"record.set(", "b\n\u0301\\\"", ", value.clone());"⟩] := by
  have hload : Compiler.load {} "schema.json" quotedText =
      .ok ⟨"schema.json", .latest, .latest, [quotedCollection], []⟩ := by decide +kernel
  have hnamed := isNamed_of_load hload quotedCollection (List.mem_singleton.mpr rfl)
  obtain ⟨-, hliterals, -⟩ := literals_denote hnamed SourceFile.defaultRuntime "schema.json"
  refine ⟨hload, ?_⟩
  rw [hliterals]
  decide +kernel

end Collection

end TypedCollections
