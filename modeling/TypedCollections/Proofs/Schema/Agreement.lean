import TypedCollections.Proofs.Model.Loading
import TypedCollections.Proofs.Schema.Declarations
import TypedCollections.Proofs.Schema.Detection

/-!
A document is read twice: the detection scans its bytes for the two keys of field lists, and the
reader takes in the collections. The scan goes by the spelling of keys, and only by the keys of
objects. It finds what the reader finds as long as those keys are not escaped and no collection is
written as a list that is long enough to give a field list.
-/
namespace TypedCollections.Schema

open Json
open Dialect (objectKeys firstWith classify)

/-- The two readings of a document: the trees of its collections, which no other text spells, and
what they declare. -/
structure Readings (bytes : Bytes) (items : List Tree) (declared : List DeclaredCollection) :
    Prop where
  spelled : ∀ tree, SpellsPadded tree bytes ↔ tree = .list items
  read : readDocument bytes = .ok declared
  declares : List.Forall₂ Declares items declared

def fieldListKeys : List String := ["fields", "schema"]

/-- The keys of field lists, where an object has them, are spelled without escapes. -/
def Unescaped : Tree → Prop
  | .object members =>
    ∀ member ∈ members, ∀ key ∈ fieldListKeys, Denotes member.1 key → member.1 = Utf8.encode key
  | _ => True

/-- A list is too short to give a field list. -/
def Short : Tree → Prop
  | .list values => values.length ≤ 4
  | _ => True

/-- The collections that are written as objects. -/
def writtenAsObjects : List Tree → List DeclaredCollection → List DeclaredCollection
  | .object _ :: items, c :: declared => c :: writtenAsObjects items declared
  | _ :: items, _ :: declared => writtenAsObjects items declared
  | _, _ => []

/-- The dialect is the one of a document in which one of the keys, or neither, was found. -/
structure Dialect.Fits (dialect : Dialect) (fields schema : Prop) : Prop where
  latest : dialect = .latest ↔ fields
  legacy : dialect = .legacy ↔ schema
  unknown : dialect = .unknown ↔ ¬fields ∧ ¬schema

/-- The field list that the dialect goes by. -/
def DeclaredCollection.listIn (c : DeclaredCollection) : Dialect → Option (List DeclaredField)
  | .latest => c.fields
  | .legacy => c.schema
  | .unknown => none

variable {bytes : Bytes} {items : List Tree} {declared : List DeclaredCollection}

theorem exists_readings (h : readDocument bytes = .ok declared) :
    ∃ items, Readings bytes items declared := by
  obtain ⟨items, hspelled, hdeclares⟩ := readDocument_ok h
  exact ⟨items, fun tree => ⟨fun htree => htree.tree_unique hspelled, fun heq => heq ▸ hspelled⟩, h,
    hdeclares⟩

theorem Readings.detect_eq (h : Readings bytes items declared) :
    Dialect.detect bytes = classify items := by
  have hspelled := (h.spelled _).mpr rfl
  have hmark := Dialect.withoutMark_list hspelled []
  rw [List.append_nil] at hmark
  exact Dialect.detect_of_withoutMark hspelled (hmark.trans (List.append_nil bytes).symm)

/-! ## What the scan finds -/

theorem firstWith_eq_none_iff (key : Bytes) (objects : List (List Bytes)) :
    firstWith key objects = none ↔ ¬∃ keys ∈ objects, key ∈ keys := by
  simp [firstWith]

theorem fits_of_classify {dialect : Dialect} (h : classify items = .ok dialect) :
    dialect.Fits (∃ keys ∈ objectKeys items, Utf8.encode "fields" ∈ keys)
      (∃ keys ∈ objectKeys items, Utf8.encode "schema" ∈ keys) := by
  have hfound {key : Bytes} {i : Nat} (h : firstWith key (objectKeys items) = some i) :
      ∃ keys ∈ objectKeys items, key ∈ keys := by
    by_contra hnone
    rw [(firstWith_eq_none_iff _ _).mpr hnone] at h
    cases h
  unfold classify at h
  split at h
  · cases h
  · next hf hs =>
    cases h
    have hfields := hfound hf
    have hschema := (firstWith_eq_none_iff _ _).mp hs
    constructor <;> simp [hfields, hschema]
  · next hf hs =>
    cases h
    have hfields := (firstWith_eq_none_iff _ _).mp hf
    have hschema := hfound hs
    constructor <;> simp [hfields, hschema]
  · next hf hs =>
    cases h
    have hfields := (firstWith_eq_none_iff _ _).mp hf
    have hschema := (firstWith_eq_none_iff _ _).mp hs
    constructor <;> simp [hfields, hschema]

theorem firsts_of_classify {i j : Nat} (h : classify items = .error (.mixed i j)) :
    firstWith (Utf8.encode "fields") (objectKeys items) = some i ∧
      firstWith (Utf8.encode "schema") (objectKeys items) = some j := by
  unfold classify at h
  split at h
  · next hf hs =>
    cases h
    exact ⟨hf, hs⟩
  all_goals cases h

/-! ## What the reader finds -/

/-- A key that needs no escapes may be spelled as it is. -/
theorem denotes_encode {key : String} (hplain : (Utf8.encode key).all isPlain)
    (hdecode : Utf8.decode (Utf8.encode key) = .ok key) : Denotes (Utf8.encode key) key := by
  have hback : Ascii.backslash ∉ Utf8.encode key := by
    intro hmem
    exact absurd (List.all_eq_true.mp hplain _ hmem) (by decide)
  exact ⟨_, unquoted_of_notMem (quoted_of_plain hplain) hback, hdecode⟩

theorem unescaped_of_encoded {members : List (Bytes × Tree)}
    (h : ∀ member ∈ members, ∃ key, member.1 = Utf8.encode key ∧ Denotes member.1 key) :
    Unescaped (.object members) := by
  intro member hmember key _ hkey
  obtain ⟨spelled, heq, hspelled⟩ := h member hmember
  rw [heq, hspelled.unique hkey]

theorem denotes_fieldListKey {key : String} (h : key ∈ fieldListKeys) :
    Denotes (Utf8.encode key) key := by
  simp only [fieldListKeys, List.mem_cons, List.not_mem_nil, or_false] at h
  rcases h with rfl | rfl
  all_goals exact denotes_encode (by decide +kernel) (by decide +kernel)

theorem mem_keys_of_object {members : List (Bytes × Tree)} {c : DeclaredCollection}
    (h : Declares (.object members) c) (hplain : Unescaped (.object members)) {key : String}
    (hkey : key ∈ fieldListKeys) : Utf8.encode key ∈ members.map Prod.fst ↔ key ∈ c.keys := by
  have hknown : ∀ key ∈ fieldListKeys, key ∈ collectionShape.keys := by decide
  rw [h.mem_keys_iff (hknown key hkey), List.mem_map]
  constructor
  · rintro ⟨member, hmember, heq⟩
    exact ⟨member, hmember, heq ▸ denotes_fieldListKey hkey⟩
  · rintro ⟨member, hmember, hmeans⟩
    exact ⟨member, hmember, hplain member hmember key hkey hmeans⟩

theorem notMem_keys_of_list {values : List Tree} {c : DeclaredCollection}
    (h : Declares (.list values) c) (hshort : Short (.list values)) {key : String}
    (hkey : key ∈ fieldListKeys) : key ∉ c.keys := by
  have hfirst : ∀ key ∈ fieldListKeys, key ∉ collectionShape.keys.take 4 := by decide
  intro hmem
  rw [h.keys_eq_take.2, ← Nat.min_eq_left hshort, ← List.take_take] at hmem
  exact hfirst key hkey (List.mem_of_mem_take hmem)

theorem exists_key_iff (h : List.Forall₂ Declares items declared)
    (hplain : ∀ item ∈ items, Unescaped item) (hshort : ∀ item ∈ items, Short item) {key : String}
    (hkey : key ∈ fieldListKeys) :
    (∃ keys ∈ objectKeys items, Utf8.encode key ∈ keys) ↔ ∃ c ∈ declared, key ∈ c.keys := by
  induction h with
  | nil => simp [objectKeys]
  | @cons item c items declared hdeclares _ ih =>
    obtain ⟨hplain, hplains⟩ := List.forall_mem_cons.mp hplain
    obtain ⟨hshort, hshorts⟩ := List.forall_mem_cons.mp hshort
    have ih := ih hplains hshorts
    obtain ⟨members, rfl⟩ | ⟨values, rfl⟩ := hdeclares.object_or_list
    · have hfirst := mem_keys_of_object hdeclares hplain hkey
      simp only [objectKeys, List.mem_cons, exists_eq_or_imp, hfirst, ih]
    · have hfirst := notMem_keys_of_list hdeclares hshort hkey
      simp only [objectKeys, List.mem_cons, exists_eq_or_imp, hfirst, ih, false_or]

theorem firstWith_eq (h : List.Forall₂ Declares items declared)
    (hplain : ∀ item ∈ items, Unescaped item) {key : String} (hkey : key ∈ fieldListKeys) :
    firstWith (Utf8.encode key) (objectKeys items) =
      (writtenAsObjects items declared).findIdx? fun c => key ∈ c.keys := by
  induction h with
  | nil => rfl
  | @cons item c items declared hdeclares _ ih =>
    obtain ⟨hplain, hplains⟩ := List.forall_mem_cons.mp hplain
    have ih := ih hplains
    obtain ⟨members, rfl⟩ | ⟨values, rfl⟩ := hdeclares.object_or_list
    · have hfirst := mem_keys_of_object hdeclares hplain hkey
      unfold firstWith at ih ⊢
      simp only [objectKeys, writtenAsObjects, List.findIdx?_cons, hfirst, ih]
    · exact ih

theorem fieldList_eq (h : List.Forall₂ Declares items declared) {dialect : Dialect}
    (hfits : dialect.Fits (∃ c ∈ declared, "fields" ∈ c.keys) (∃ c ∈ declared, "schema" ∈ c.keys)) :
    ∀ c ∈ declared, c.fieldList = (c.listIn dialect).getD [] := by
  have hown : ∀ c ∈ declared, ("fields" ∉ c.keys → c.fields = none) ∧
      ("schema" ∉ c.keys → c.schema = none) := by
    clear hfits
    induction h with
    | nil => simp
    | cons hdeclares _ ih =>
      exact List.forall_mem_cons.mpr ⟨hdeclares.lists_eq_none, ih⟩
  intro c hc
  have hfields (hne : dialect ≠ .latest) : c.fields = none :=
    (hown c hc).1 fun hkey => hne (hfits.latest.mpr ⟨c, hc, hkey⟩)
  have hschema (hne : dialect ≠ .legacy) : c.schema = none :=
    (hown c hc).2 fun hkey => hne (hfits.legacy.mpr ⟨c, hc, hkey⟩)
  cases dialect with
  | latest => simp [DeclaredCollection.fieldList, DeclaredCollection.listIn, hschema]
  | legacy => simp [DeclaredCollection.fieldList, DeclaredCollection.listIn, hfields]
  | unknown => simp [DeclaredCollection.fieldList, DeclaredCollection.listIn, hfields, hschema]

end TypedCollections.Schema

namespace TypedCollections.Compiler

open Schema Json
open Schema.Dialect (objectKeys firstWith)

/-- The detection goes by the keys of objects as they are spelled: the dialect is the one of the key
that was found, and a mixture is told with the numbers of the first objects that have the two keys.
Where no key of a field list is escaped and no collection is written as a list that reaches the
field lists, these are the keys that the collections are read with; then each list of fields is the
one of the dialect, and the numbers count the collections that are written as objects. -/
theorem detection_agrees (options : LoadOptions) (path : String) (bytes : Bytes) :
    (∀ s, load options path bytes = .ok s →
      ∃ items declared, Readings bytes items declared ∧
        s.detected.Fits (∃ keys ∈ objectKeys items, Utf8.encode "fields" ∈ keys)
          (∃ keys ∈ objectKeys items, Utf8.encode "schema" ∈ keys) ∧
        ((∀ item ∈ items, Unescaped item ∧ Short item) →
          s.detected.Fits (∃ c ∈ declared, "fields" ∈ c.keys) (∃ c ∈ declared, "schema" ∈ c.keys) ∧
          ∀ c ∈ declared, c.fieldList = (c.listIn s.detected).getD [])) ∧
    (∀ file i j, load options path bytes = .error (.mixedDialect file i j) →
      ∃ items declared, Readings bytes items declared ∧
        firstWith (Utf8.encode "fields") (objectKeys items) = some i ∧
        firstWith (Utf8.encode "schema") (objectKeys items) = some j ∧
        ((∀ item ∈ items, Unescaped item) →
          ((writtenAsObjects items declared).findIdx? fun c => "fields" ∈ c.keys) = some i ∧
          ((writtenAsObjects items declared).findIdx? fun c => "schema" ∈ c.keys) = some j)) := by
  constructor
  · intro s h
    obtain ⟨-, -, hdetect, -, declared, hread, -, -⟩ := load_ok h
    obtain ⟨items, hreadings⟩ := exists_readings hread
    rw [hreadings.detect_eq] at hdetect
    have hfits := fits_of_classify hdetect
    refine ⟨items, declared, hreadings, hfits, fun hlegible => ?_⟩
    have hplain : ∀ item ∈ items, Unescaped item := fun item hitem => (hlegible item hitem).1
    have hshort : ∀ item ∈ items, Short item := fun item hitem => (hlegible item hitem).2
    rw [exists_key_iff hreadings.declares hplain hshort (by decide),
      exists_key_iff hreadings.declares hplain hshort (by decide)] at hfits
    exact ⟨hfits, fieldList_eq hreadings.declares hfits⟩
  · intro file i j h
    obtain ⟨declared, hread, hdetect⟩ := mixed_of_load h
    obtain ⟨items, hreadings⟩ := exists_readings hread
    rw [hreadings.detect_eq] at hdetect
    obtain ⟨hi, hj⟩ := firsts_of_classify hdetect
    refine ⟨items, declared, hreadings, hi, hj, fun hplain => ?_⟩
    rw [← firstWith_eq hreadings.declares hplain (by decide),
      ← firstWith_eq hreadings.declares hplain (by decide)]
    exact ⟨hi, hj⟩

/-- A collection is written as a list, and comes before those that have the keys. -/
def shiftedText : Bytes :=
  Utf8.encode
    ("[[null,\"a\"],\x7b\"name\":\"b\",\"fields\":[]\x7d,"
      ++ "\x7b\"name\":\"c\",\"schema\":[]\x7d]")

def shiftedCollections : List DeclaredCollection :=
  [{ name := "a", keys := ["id", "name"] },
    { name := "b", fields := some [], keys := ["name", "fields"] },
    { name := "c", schema := some [], keys := ["name", "schema"] }]

/-- A document that is read alike twice. -/
def alikeText : Bytes :=
  Utf8.encode "[[null,\"a\"],\x7b\"name\":\"b\",\"fields\":[]\x7d]"

/-- A collection with an empty field list. -/
def emptyCollection (name key : String) : Tree :=
  .object [(Utf8.encode "name", .string (Utf8.encode name)), (Utf8.encode key, .list [])]

def alikeItems : List Tree :=
  [.list [.word nullWord, .string (Utf8.encode "a")], emptyCollection "b" "fields"]

def shiftedItems : List Tree := alikeItems ++ [emptyCollection "c" "schema"]

theorem unescaped_emptyCollection (name : String) {key : String} (hkey : key ∈ fieldListKeys) :
    Unescaped (emptyCollection name key) := by
  have hname : Denotes (Utf8.encode "name") "name" :=
    denotes_encode (by decide +kernel) (by decide +kernel)
  refine unescaped_of_encoded ?_
  intro member hmember
  simp only [List.mem_cons, List.not_mem_nil, or_false] at hmember
  rcases hmember with rfl | rfl
  · exact ⟨"name", rfl, hname⟩
  · exact ⟨key, rfl, denotes_fieldListKey hkey⟩

theorem spelled_alike :
    SpellsPadded (.list alikeItems) alikeText ∧ SpellsPadded (.list shiftedItems) shiftedText := by
  have hstring (s : Bytes) (h : s.all isPlain) : Spells (.string s) _ :=
    .string (quoted_of_plain h)
  have hlist := (Spells.list (.more (Spells.word (by decide : nullWord ∈ _)).bare
    (.last (hstring (Utf8.encode "a") (by decide +kernel)).bare))).bare
  have hobject (name key : Bytes) (hname : name.all isPlain) (hkey : key.all isPlain) :
      SpellsPadded (.object [(Utf8.encode "name", .string name), (key, .list [])]) _ :=
    (Spells.object (.more ((hstring name hname).bare.keyed (quoted_of_plain (by decide +kernel)))
      (.last ((Spells.list (.none blank_nil)).bare.keyed (quoted_of_plain hkey))))).bare
  have hfields := hobject (Utf8.encode "b") (Utf8.encode "fields") (by decide +kernel)
    (by decide +kernel)
  have hschema := hobject (Utf8.encode "c") (Utf8.encode "schema") (by decide +kernel)
    (by decide +kernel)
  exact ⟨(Spells.list (.more hlist (.last hfields))).bare,
    (Spells.list (.more hlist (.more hfields (.last hschema)))).bare⟩

theorem detection_agrees_alike :
    (load {} "schema.json" alikeText =
        .ok ⟨"schema.json", .latest, .latest, [⟨"a", "A", none, [], .latest⟩,
          ⟨"b", "B", none, [], .latest⟩], []⟩ ∧
      (∀ item ∈ alikeItems, Unescaped item ∧ Short item) ∧
      ∃ declared, Readings alikeText alikeItems declared ∧
        Dialect.latest.Fits (∃ c ∈ declared, "fields" ∈ c.keys)
          (∃ c ∈ declared, "schema" ∈ c.keys) ∧
        ∀ c ∈ declared, c.fieldList = (c.listIn .latest).getD []) ∧
    load {} "schema.json" shiftedText = .error (.mixedDialect "schema.json" 0 1) ∧
      (∀ item ∈ shiftedItems, Unescaped item) ∧
      ∃ declared, Readings shiftedText shiftedItems declared ∧
        ((writtenAsObjects shiftedItems declared).findIdx? fun c => "fields" ∈ c.keys) = some 0 ∧
        ((writtenAsObjects shiftedItems declared).findIdx? fun c => "schema" ∈ c.keys) =
          some 1 := by
  have hfields := unescaped_emptyCollection "b" (by decide : "fields" ∈ fieldListKeys)
  have hschema := unescaped_emptyCollection "c" (by decide : "schema" ∈ fieldListKeys)
  have hshort : Short (.list [.word nullWord, .string (Utf8.encode "a")]) := (by decide : 2 ≤ 4)
  have hunescaped : ∀ item ∈ shiftedItems, Unescaped item := by
    simp only [shiftedItems, alikeItems, List.cons_append, List.nil_append, List.forall_mem_cons]
    exact ⟨trivial, hfields, hschema, by simp⟩
  have hlegible : ∀ item ∈ alikeItems, Unescaped item ∧ Short item := by
    simp only [alikeItems, List.forall_mem_cons]
    exact ⟨⟨trivial, hshort⟩, ⟨hfields, trivial⟩, by simp⟩
  have hload : load {} "schema.json" alikeText = .ok ⟨"schema.json", .latest, .latest,
      [⟨"a", "A", none, [], .latest⟩, ⟨"b", "B", none, [], .latest⟩], []⟩ := by decide +kernel
  have hmixed : load {} "schema.json" shiftedText = .error (.mixedDialect "schema.json" 0 1) := by
    decide +kernel
  obtain ⟨items, declared, hreadings, -, hagrees⟩ :=
    (detection_agrees {} "schema.json" alikeText).1 _ hload
  cases (hreadings.spelled _).mp spelled_alike.1
  obtain ⟨items, declared', hreadings', -, -, hfirsts⟩ :=
    (detection_agrees {} "schema.json" shiftedText).2 _ _ _ hmixed
  cases (hreadings'.spelled _).mp spelled_alike.2
  exact ⟨⟨hload, hlegible, declared, hreadings, hagrees hlegible⟩,
    hmixed, hunescaped, declared', hreadings', hfirsts hunescaped⟩

/-- One of the keys is escaped. -/
def escapedText : Bytes :=
  Utf8.encode
    ("[\x7b\"name\":\"a\",\"fields\":[]\x7d,"
      ++ "\x7b\"name\":\"b\",\"sch\\u0065ma\":[\x7b\"name\":\"t\",\"type\":\"text\"\x7d]\x7d]")

def escapedCollections : List DeclaredCollection :=
  [{ name := "a", fields := some [], keys := ["name", "fields"] },
    { name := "b", schema := some [{ name := "t", kind := "text" }], keys := ["name", "schema"] }]

/-- A collection is written as a list, which gives its fields. -/
def listText : Bytes := Utf8.encode "[[null,\"a\",null,false,[]]]"

def listCollections : List DeclaredCollection :=
  [{ name := "a", fields := some [], keys := ["id", "name", "type", "system", "fields"] }]

/-- The detection does not see an escaped key, so the fields of a collection come from the other
list. It does not see what lists give, and it does not count them. -/
theorem detection_disagrees :
    ((load {} "schema.json" escapedText).map Schema.detected = .ok .latest ∧
      readDocument escapedText = .ok escapedCollections ∧
      ∃ c ∈ escapedCollections, "schema" ∈ c.keys ∧ c.fieldList ≠ (c.listIn .latest).getD []) ∧
    ((load {} "schema.json" listText).map Schema.detected = .ok .unknown ∧
      readDocument listText = .ok listCollections ∧ ∃ c ∈ listCollections, "fields" ∈ c.keys) ∧
    load {} "schema.json" shiftedText = .error (.mixedDialect "schema.json" 0 1) ∧
      readDocument shiftedText = .ok shiftedCollections ∧
      (shiftedCollections.findIdx? fun c => "fields" ∈ c.keys) = some 1 ∧
      (shiftedCollections.findIdx? fun c => "schema" ∈ c.keys) = some 2 := by
  decide +kernel

end TypedCollections.Compiler
