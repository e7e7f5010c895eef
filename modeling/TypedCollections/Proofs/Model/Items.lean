import TypedCollections.Model.SourceFile

/-!
Generated files read back line by line. An index is read as a whole: each line that is neither blank
nor a comment must declare a module or export a name of one, and nothing may follow that on it. Of
another file only the structs are read that it starts to define at the front of a line.
-/

namespace TypedCollections.Code

/-- The lines of a text; the last one is what follows the last line feed. -/
def lines (text : String) : List (List Char) := text.toList.splitOn '\n'

def isWordChar (c : Char) : Bool := c.isAlphanum || c == '_'

/-- The word behind a phrase at the front of a line, and the rest of the line. -/
def wordAfter? (phrase : String) (line : List Char) : Option (String × List Char) :=
  if phrase.toList.isPrefixOf line then
    let rest := line.drop phrase.toList.length
    some (String.ofList (rest.takeWhile isWordChar), rest.dropWhile isWordChar)
  else none

/-- What an index says. -/
inductive Item where
  | declares (module : String)
  | exports (module name : String)
  deriving DecidableEq, Repr

/-- The module that a line declares. -/
def declaration? (line : List Char) : Option Item :=
  match wordAfter? "pub mod " line with
  | some (module, [';']) => some (.declares module)
  | _ => none

/-- The name of a module that a line exports. -/
def export? (line : List Char) : Option Item := do
  let (module, rest) ← wordAfter? "pub use " line
  match wordAfter? "::" rest with
  | some (name, [';']) => some (.exports module name)
  | _ => none

/-- What a line of an index says, if it belongs there. -/
def readLine? (line : List Char) : Option (List Item) :=
  if line = [] ∨ "//".toList.isPrefixOf line then some []
  else ((declaration? line).or (export? line)).map fun item => [item]

def readLines? : List (List Char) → Option (List Item)
  | [] => some []
  | line :: rest => do
    let here ← readLine? line
    let below ← readLines? rest
    return here ++ below

def readIndex? (text : String) : Option (List Item) := readLines? (lines text)

/-- The struct that a line starts to define. -/
def structName? (line : List Char) : Option String :=
  ((wordAfter? "pub struct " line).or (wordAfter? "struct " line)).map Prod.fst

def structs (text : String) : List String := (lines text).filterMap structName?

/-! ## Words -/

/-- A phrase and a word behind it are read if the word ends there. -/
theorem wordAfter?_append (phrase : String) {word : String} (rest : List Char)
    (hword : ∀ c ∈ word.toList, isWordChar c) (hend : rest.head?.all fun c => !isWordChar c) :
    wordAfter? phrase (phrase.toList ++ (word.toList ++ rest)) = some (word, rest) := by
  have hprefix : phrase.toList.isPrefixOf (phrase.toList ++ (word.toList ++ rest)) := by
    rw [List.isPrefixOf_iff_prefix]
    exact List.prefix_append _ _
  have hrest : rest.takeWhile isWordChar = [] ∧ rest.dropWhile isWordChar = rest := by
    cases rest with
    | nil => exact ⟨rfl, rfl⟩
    | cons c rest =>
      have hc : isWordChar c = false := by simpa using hend
      exact ⟨List.takeWhile_cons_of_neg (by simp [hc]), List.dropWhile_cons_of_neg (by simp [hc])⟩
  unfold wordAfter?
  rw [if_pos hprefix]
  simp only [List.drop_left]
  rw [List.takeWhile_append_of_pos hword, List.dropWhile_append_of_pos hword, hrest.1, hrest.2,
    List.append_nil, String.ofList_toList]

theorem readLine?_comment (line : String) (h : "//".toList.isPrefixOf line.toList) :
    readLine? line.toList = some [] := by
  rw [readLine?, if_pos (.inr h)]

theorem readLine?_declares {module : String} (h : ∀ c ∈ module.toList, isWordChar c) :
    readLine? ("pub mod " ++ module ++ ";").toList = some [.declares module] := by
  have hline : ("pub mod " ++ module ++ ";").toList =
      "pub mod ".toList ++ (module.toList ++ [';']) := by
    simp [String.toList_append]
  have hcode : ¬("pub mod ".toList ++ (module.toList ++ [';']) = [] ∨
      "//".toList.isPrefixOf ("pub mod ".toList ++ (module.toList ++ [';']))) := by
    simp
  rw [hline, readLine?, if_neg hcode, declaration?, wordAfter?_append _ _ h rfl]
  rfl

theorem readLine?_exports {module name : String} (hmodule : ∀ c ∈ module.toList, isWordChar c)
    (hname : ∀ c ∈ name.toList, isWordChar c) :
    readLine? ("pub use " ++ module ++ "::" ++ name ++ ";").toList =
      some [.exports module name] := by
  have hline : ("pub use " ++ module ++ "::" ++ name ++ ";").toList =
      "pub use ".toList ++ (module.toList ++ ("::".toList ++ (name.toList ++ [';']))) := by
    simp [String.toList_append]
  generalize hrest : "::".toList ++ (name.toList ++ [';']) = rest at hline
  have hcode : ¬("pub use ".toList ++ (module.toList ++ rest) = [] ∨
      "//".toList.isPrefixOf ("pub use ".toList ++ (module.toList ++ rest))) := by
    simp
  -- the letter behind `pub ` tells that this is no declaration
  have hother : declaration? ("pub use ".toList ++ (module.toList ++ rest)) = none := by
    simp [declaration?, wordAfter?]
  have hexport : export? ("pub use ".toList ++ (module.toList ++ rest)) =
      some (.exports module name) := by
    subst hrest
    rw [export?, wordAfter?_append _ _ hmodule rfl, Option.bind_eq_bind,
      Option.bind_some]
    dsimp only
    rw [wordAfter?_append _ _ hname rfl]
    rfl
  rw [hline, readLine?, if_neg hcode, hother, hexport]
  rfl

theorem readLines?_append {a b : List (List Char)} {above below : List Item}
    (ha : readLines? a = some above) (hb : readLines? b = some below) :
    readLines? (a ++ b) = some (above ++ below) := by
  induction a generalizing above with
  | nil =>
    cases ha
    exact hb
  | cons line a ih =>
    obtain ⟨here, hhere, ha⟩ := Option.bind_eq_some_iff.mp ha
    obtain ⟨rest, hrest, ha⟩ := Option.bind_eq_some_iff.mp ha
    cases ha
    simp [readLines?, hhere, ih hrest]

/-- Lines that say one thing each. -/
theorem readLines?_map {α : Type} {l : List α} {line : α → List Char} {item : α → Item}
    (h : ∀ a ∈ l, readLine? (line a) = some [item a]) :
    readLines? (l.map line) = some (l.map item) := by
  induction l with
  | nil => rfl
  | cons a l ih =>
    obtain ⟨ha, hl⟩ := List.forall_mem_cons.mp h
    simp [readLines?, ha, ih hl]

/-! ## Lines of code -/

/-- A text without a certain character. -/
def Lacks (c : Char) (s : String) : Prop := c ∉ s.toList

instance (c : Char) (s : String) : Decidable (Lacks c s) := inferInstanceAs (Decidable (_ ∉ _))

@[simp] theorem lacks_append {c : Char} {s t : String} :
    Lacks c (s ++ t) ↔ Lacks c s ∧ Lacks c t := by
  simp [Lacks, String.toList_append]

/-- The characters that code has within its literals or between its lines only. -/
def marks : List Char := ['\n', '"']

theorem eq_of_mem_marks {c : Char} (h : c ∈ marks) : c = '\n' ∨ c = '"' := by
  simpa [marks] using h

/-- A word has no mark in it. -/
theorem lacks_of_isWordChar {mark : Char} (hmark : mark ∈ marks) {word : String}
    (h : ∀ c ∈ word.toList, isWordChar c) : Lacks mark word := by
  intro hm
  have hword := h mark hm
  rcases eq_of_mem_marks hmark with rfl | rfl <;> cases hword

/-- What holds of the lines in a block, and of what is put around them, holds of its lines. -/
theorem forall_mem_block {p : String → Prop} {head : String} {body : Code}
    (hhead : p (head ++ " \x7b")) (hbody : ∀ line ∈ body, p line)
    (hindented : ∀ line, p line → p ("    " ++ line)) (hend : p "\x7d") :
    ∀ line ∈ block head body, p line := by
  refine List.forall_mem_append.mpr ⟨List.forall_mem_cons.mpr ⟨hhead, ?_⟩,
    List.forall_mem_singleton.mpr hend⟩
  refine List.forall_mem_map.mpr fun line hline => ?_
  split
  · exact hbody line hline
  · exact hindented line (hbody line hline)

theorem lacks_block {mark : Char} {head : String} {body : Code} (hmark : mark ∈ marks)
    (hhead : Lacks mark head) (hbody : ∀ line ∈ body, Lacks mark line) :
    ∀ line ∈ block head body, Lacks mark line := by
  have hlayout : Lacks mark " \x7b" ∧ Lacks mark "    " ∧ Lacks mark "\x7d" := by
    rcases eq_of_mem_marks hmark with rfl | rfl <;> decide
  obtain ⟨hopen, hblanks, hclose⟩ := hlayout
  exact forall_mem_block (lacks_append.mpr ⟨hhead, hopen⟩) hbody
    (fun _ hline => lacks_append.mpr ⟨hblanks, hline⟩) hclose

/-- A text that does not break its line. -/
def OneLine (s : String) : Prop := '\n' ∉ s.toList

instance (s : String) : Decidable (OneLine s) := inferInstanceAs (Decidable (_ ∉ _))

@[simp] theorem oneLine_append {s t : String} : OneLine (s ++ t) ↔ OneLine s ∧ OneLine t :=
  lacks_append

theorem oneLine_of_isWordChar {word : String} (h : ∀ c ∈ word.toList, isWordChar c) :
    OneLine word :=
  lacks_of_isWordChar (by decide) h

theorem oneLine_intercalate {separator : String} {l : List String} (hs : OneLine separator)
    (h : ∀ s ∈ l, OneLine s) : OneLine (separator.intercalate l) := by
  induction l with
  | nil => simp [OneLine]
  | cons first rest ih =>
    obtain ⟨hfirst, hrest⟩ := List.forall_mem_cons.mp h
    cases rest with
    | nil => simpa using hfirst
    | cons second rest =>
      rw [String.intercalate_cons_cons]
      exact oneLine_append.mpr ⟨oneLine_append.mpr ⟨hfirst, hs⟩, ih hrest⟩

/-- Lines of code that are lines of its text. -/
def Unbroken (code : Code) : Prop := ∀ line ∈ code, OneLine line

@[simp] theorem unbroken_nil : Unbroken [] := List.forall_mem_nil _

@[simp] theorem unbroken_cons {line : String} {code : Code} :
    Unbroken (line :: code) ↔ OneLine line ∧ Unbroken code := List.forall_mem_cons

@[simp] theorem unbroken_append {a b : Code} : Unbroken (a ++ b) ↔ Unbroken a ∧ Unbroken b :=
  List.forall_mem_append

theorem unbroken_map {α : Type} {l : List α} {line : α → String} (h : ∀ a ∈ l, OneLine (line a)) :
    Unbroken (l.map line) := List.forall_mem_map.mpr h

theorem unbroken_flatMap {α : Type} {l : List α} {part : α → Code}
    (h : ∀ a ∈ l, Unbroken (part a)) : Unbroken (l.flatMap part) :=
  List.forall_mem_flatMap.mpr h

theorem unbroken_block {head : String} {body : Code} (hhead : OneLine head)
    (hbody : Unbroken body) : Unbroken (block head body) :=
  lacks_block (by decide) hhead hbody

theorem unbroken_spaced {parts : List Code} (h : ∀ part ∈ parts, Unbroken part) :
    Unbroken (spaced parts) :=
  unbroken_flatMap fun part hpart => unbroken_cons.mpr ⟨by decide, h part hpart⟩

theorem toList_text_cons (line : String) (code : Code) :
    (text (line :: code)).toList = line.toList ++ '\n' :: (text code).toList := by
  simp [text, String.toList_join, String.toList_append]

theorem lines_text {code : Code} (h : Unbroken code) :
    lines code.text = code.map String.toList ++ [[]] := by
  induction code with
  | nil => rfl
  | cons line code ih =>
    obtain ⟨hline, hcode⟩ := unbroken_cons.mp h
    rw [lines, toList_text_cons, List.splitOn_append_cons_self_of_not_mem hline]
    exact congrArg _ (ih hcode)

/-! ## Reading line by line -/

section Gathered

variable {α β : Type} {read : List Char → List α}

/-- What is read off lines of code, each by itself. -/
def gathered (read : List Char → List α) (code : Code) : List α :=
  code.flatMap fun line => read line.toList

/-- There is nothing to read in what only lays the lines out. -/
structure IgnoresLayout (read : List Char → List α) : Prop where
  blank : read [] = []
  bracket : read ['\x7d'] = []
  indented : ∀ line, read ("    ".toList ++ line) = read line

theorem gathered_text {code : Code} (h : Unbroken code) (hread : IgnoresLayout read) :
    (lines code.text).flatMap read = gathered read code := by
  rw [lines_text h, List.flatMap_append, List.flatMap_map, List.flatMap_singleton, hread.blank,
    List.append_nil]
  rfl

theorem gathered_append (a b : Code) : gathered read (a ++ b) = gathered read a ++ gathered read b :=
  List.flatMap_append

/-- Lines of which it is known what is read off each. -/
theorem gathered_map {l : List β} {line : β → String} {items : β → List α}
    (h : ∀ b ∈ l, read (line b).toList = items b) :
    gathered read (l.map line) = l.flatMap items := by
  rw [gathered, List.flatMap_map]
  exact congrArg List.flatten (List.map_congr_left h)

theorem gathered_block (hread : IgnoresLayout read) (head : String) (body : Code) :
    gathered read (block head body) =
      read (head ++ " \x7b").toList ++ gathered read body := by
  have hbody : gathered read (body.map fun line => if line = "" then line else "    " ++ line) =
      gathered read body := by
    refine gathered_map fun line _ => ?_
    split
    · rfl
    · rw [String.toList_append, hread.indented]
  rw [block, List.cons_append, gathered, List.flatMap_cons, List.flatMap_append,
    List.flatMap_singleton]
  have hend : read "\x7d".toList = [] := hread.bracket
  rw [hend, List.append_nil]
  exact congrArg _ hbody

theorem gathered_spaced (hread : IgnoresLayout read) (parts : List Code) :
    gathered read (spaced parts) = parts.flatMap (gathered read) := by
  rw [gathered, spaced, List.flatMap_assoc]
  refine congrArg List.flatten (List.map_congr_left fun part _ => ?_)
  have hblank : read "".toList = [] := hread.blank
  rw [List.flatMap_cons, hblank]
  rfl

end Gathered

/-! ## Structs -/

@[simp] theorem structName?_nil : structName? [] = none := rfl

@[simp] theorem structName?_of_head {c : Char} {line : List Char} (hp : c ≠ 'p') (hs : c ≠ 's') :
    structName? (c :: line) = none := by
  simp [structName?, wordAfter?, Ne.symm hp, Ne.symm hs]

theorem structName?_struct {name : String} (h : ∀ c ∈ name.toList, isWordChar c) :
    structName? ("pub struct " ++ name ++ " \x7b").toList = some name := by
  have hline : ("pub struct " ++ name ++ " \x7b").toList =
      "pub struct ".toList ++ (name.toList ++ " \x7b".toList) := by
    simp [String.toList_append]
  rw [hline, structName?, wordAfter?_append _ _ h rfl]
  rfl

/-- The structs that lines of code start to define. -/
def defined (code : Code) : List String := code.filterMap fun line => structName? line.toList

@[simp] theorem defined_nil : defined [] = [] := rfl

@[simp] theorem defined_append (a b : Code) : defined (a ++ b) = defined a ++ defined b :=
  List.filterMap_append

theorem defined_cons (line : String) (code : Code) :
    defined (line :: code) = (structName? line.toList).toList ++ defined code := by
  rw [defined, List.filterMap_cons]
  cases structName? line.toList <;> rfl

theorem structs_text {code : Code} (h : Unbroken code) : structs code.text = defined code := by
  rw [structs, lines_text h, List.filterMap_append, List.filterMap_map]
  exact List.append_nil _

/-- What stands within a block is set in, so it is no struct of the file. -/
theorem defined_block (head : String) (body : Code) :
    defined (block head body) = (structName? (head ++ " \x7b").toList).toList := by
  have hbody : defined (body.map fun line => if line = "" then line else "    " ++ line) = [] := by
    refine List.filterMap_eq_nil_iff.mpr ?_
    intro line hline
    obtain ⟨inner, -, rfl⟩ := List.mem_map.mp hline
    split
    · next hempty =>
      rw [hempty]
      rfl
    · rw [String.toList_append]
      exact structName?_of_head (by decide) (by decide)
  have hend : defined ["\x7d"] = [] := rfl
  rw [block, List.cons_append, defined_cons, defined_append, hbody, hend, List.append_nil,
    List.append_nil]

theorem defined_spaced {parts : List Code} (h : ∀ part ∈ parts, defined part = []) :
    defined (spaced parts) = [] := by
  induction parts with
  | nil => rfl
  | cons part parts ih =>
    obtain ⟨hpart, hparts⟩ := List.forall_mem_cons.mp h
    have hall : spaced (part :: parts) = "" :: (part ++ spaced parts) := by simp [spaced]
    rw [hall, defined_cons, defined_append, hpart, ih hparts]
    rfl

end TypedCollections.Code
