import Mathlib.Logic.Relation
import TypedCollections.Proofs.Json.Edits
import TypedCollections.Proofs.Model.Compilable

/-!
Edits of a document that leave what is compiled from it. Every list of collections that the grammar
can spell is read, so the white space of a document does not matter; and what its trees declare, and
which of the two keys the detection finds in them, stays when members are put in another order and
when members that nobody asks for come or go.
-/

namespace TypedCollections

namespace Schema

open Json
open Dialect (objectKeys firstWith classify)

/-! ## Every declaration is read -/

theorem fill_field_reads (key : String) (f : DeclaredField) :
    Reads (fieldShape.fill key f) fun tree g => fillsField key tree f g := by
  unfold fillsField fieldShape
  dsimp only
  split
  · exact text_reads.map fun x => { f with name := x }
  split
  · exact text_reads.map fun x => { f with kind := x }
  split
  · exact flag_reads.map fun x => { f with required := x }
  split
  · exact flag_reads.map fun x => { f with system := x }
  · exact flag_reads.map fun x => { f with hidden := x }

theorem readField_reads : Reads readField DeclaresField :=
  (Shape.read_reads fun key _ => fill_field_reads key).map Prod.fst

theorem fill_collection_reads (key : String) (c : DeclaredCollection) :
    Reads (collectionShape.fill key c) fun tree d => fillsCollection key tree c d := by
  have htext := orNull_reads text_reads not_isText_null
  have hfields := orNull_reads (listOf_reads readField_reads) not_isListOf_null
  unfold fillsCollection collectionShape
  dsimp only
  split
  · exact htext.map fun x => { c with id := x }
  split
  · exact text_reads.map fun x => { c with name := x }
  split
  · exact htext.map fun x => { c with kind := x }
  split
  · exact flag_reads.map fun x => { c with system := x }
  split
  · exact hfields.map fun x => { c with fields := x }
  · exact hfields.map fun x => { c with schema := x }

theorem readCollection_reads : Reads readCollection Declares :=
  (Shape.read_reads fun key _ => fill_collection_reads key).map fun x =>
    ({ x.1 with keys := x.2 } : DeclaredCollection)

/-- A list is read exactly as the collections that its items declare. -/
theorem readDocument_eq_ok_iff {items : List Tree} {bytes : Bytes}
    (h : SpellsPadded (.list items) bytes) (declared : List DeclaredCollection) :
    readDocument bytes = .ok declared ↔ List.Forall₂ Declares items declared := by
  rw [readDocument, readAll_eq_ok_iff (listOf_ok readCollection_ok)
    (listOf_reads readCollection_reads) h]
  constructor
  · rintro ⟨_, heq, hall⟩
    cases heq
    exact hall
  · intro hall
    exact ⟨items, rfl, hall⟩

/-! ## Edits -/

/-- An edit of the text of a collection: an object, at any depth, gets another order, or one more
member under an unknown key is added to the collection or to one of its fields. -/
inductive CollectionEdit : Tree → Tree → Prop
  | reordered {tree tree'} : Reordered tree tree' → CollectionEdit tree tree'
  | extended {tree tree'} : Extended collectionShape.keys tree tree' → CollectionEdit tree tree'
  | fieldExtended {before after raw key front back field field'} : Denotes raw key →
      key ∈ fieldListKeys → Extended fieldShape.keys field field' →
      CollectionEdit (.object (before ++ (raw, .list (front ++ field :: back)) :: after))
        (.object (before ++ (raw, .list (front ++ field' :: back)) :: after))

/-- An edit of one collection of a document. -/
inductive Edit : List Tree → List Tree → Prop
  | mk {before after item item'} : CollectionEdit item item' →
      Edit (before ++ item :: after) (before ++ item' :: after)

/-- Any number of edits, made or taken back. -/
def Edited : List Tree → List Tree → Prop := Relation.EqvGen Edit

/-- What each edit leaves is left by any number of them. -/
theorem Edited.value_eq {α : Type*} {items items' : List Tree} (h : Edited items items')
    (value : List Tree → α)
    (hedit : ∀ items items', Edit items items' → value items = value items') :
    value items = value items' := by
  induction h with
  | rel items items' h => exact hedit items items' h
  | refl => rfl
  | symm _ _ _ ih => exact ih.symm
  | trans _ _ _ _ _ ih ih' => exact ih.trans ih'

/-! ## What an edit leaves -/

theorem commutes_fillsField : fieldShape.Commutes fillsField := by
  intro key hkey key' hkey' hne tree tree' f g h hfills hfills'
  simp only [fieldShape, List.mem_cons, List.not_mem_nil, or_false] at hkey hkey'
  rcases hkey with rfl | rfl | rfl | rfl | rfl <;>
    rcases hkey' with rfl | rfl | rfl | rfl | rfl <;>
    first
    | exact absurd rfl hne
    | obtain ⟨x, hx, rfl⟩ := hfills
      obtain ⟨y, hy, rfl⟩ := hfills'
      exact ⟨_, ⟨y, hy, rfl⟩, x, hx, rfl⟩

theorem commutes_fillsCollection : collectionShape.Commutes fillsCollection := by
  intro key hkey key' hkey' hne tree tree' c d e hfills hfills'
  simp only [collectionShape, List.mem_cons, List.not_mem_nil, or_false] at hkey hkey'
  rcases hkey with rfl | rfl | rfl | rfl | rfl | rfl <;>
    rcases hkey' with rfl | rfl | rfl | rfl | rfl | rfl <;>
    first
    | exact absurd rfl hne
    | obtain ⟨x, hx, rfl⟩ := hfills
      obtain ⟨y, hy, rfl⟩ := hfills'
      exact ⟨_, ⟨y, hy, rfl⟩, x, hx, rfl⟩

variable {tree tree' : Tree}

theorem declaresField_iff (f : DeclaredField) :
    DeclaresField tree f ↔ fieldShape.States fillsField tree f := by
  constructor
  · rintro ⟨x, hx, rfl⟩
    exact ⟨x.2, hx⟩
  · rintro ⟨met, hf⟩
    exact ⟨_, hf, rfl⟩

theorem DeclaresField.reordered {f : DeclaredField} (h : DeclaresField tree f)
    (hreordered : Reordered tree tree') : DeclaresField tree' f := by
  rw [declaresField_iff] at h ⊢
  refine h.reordered commutes_fillsField ?_ hreordered
  intro key hkey value value' g g' hvalue hfills
  simp only [fieldShape, List.mem_cons, List.not_mem_nil, or_false] at hkey
  rcases hkey with rfl | rfl | rfl | rfl | rfl <;> obtain ⟨x, hx, -⟩ := hfills
  · exact absurd hvalue (not_reordered_text hx)
  · exact absurd hvalue (not_reordered_text hx)
  · exact absurd hvalue (not_reordered_flag hx)
  · exact absurd hvalue (not_reordered_flag hx)
  · exact absurd hvalue (not_reordered_flag hx)

theorem declaresField_extended_iff (h : Extended fieldShape.keys tree tree') (f : DeclaredField) :
    DeclaresField tree' f ↔ DeclaresField tree f := by
  rw [declaresField_iff, declaresField_iff, Shape.States.extended_iff h]

theorem not_reordered_nullOrText {x : Option String} (h : IsNullOr IsText tree x) :
    ¬Reordered tree tree' := by
  cases x with
  | none =>
    obtain rfl : tree = .word nullWord := h
    intro hreordered
    cases hreordered
  | some x => exact not_reordered_text h

theorem fields_reordered {x : Option (List DeclaredField)}
    (h : IsNullOr (IsListOf DeclaresField) tree x) (hreordered : Reordered tree tree') :
    IsNullOr (IsListOf DeclaresField) tree' x := by
  cases x with
  | none =>
    obtain rfl : tree = .word nullWord := h
    cases hreordered
  | some fields =>
    obtain ⟨items, rfl, hall⟩ := h
    cases hreordered with
    | item hitem =>
      exact IsListOf.item (fun f hf => DeclaresField.reordered hf hitem) ⟨_, rfl, hall⟩

theorem states_reordered {c : DeclaredCollection}
    (h : collectionShape.States fillsCollection tree c) (hreordered : Reordered tree tree') :
    collectionShape.States fillsCollection tree' c := by
  refine h.reordered commutes_fillsCollection ?_ hreordered
  intro key hkey value value' d d' hvalue hfills
  simp only [collectionShape, List.mem_cons, List.not_mem_nil, or_false] at hkey
  rcases hkey with rfl | rfl | rfl | rfl | rfl | rfl <;> obtain ⟨x, hx, rfl⟩ := hfills
  · exact absurd hvalue (not_reordered_nullOrText hx)
  · exact absurd hvalue (not_reordered_text hx)
  · exact absurd hvalue (not_reordered_nullOrText hx)
  · exact absurd hvalue (not_reordered_flag hx)
  · exact ⟨x, fields_reordered hx hvalue, rfl⟩
  · exact ⟨x, fields_reordered hx hvalue, rfl⟩

/-- Another field list stands for the one there if it declares the same fields. -/
theorem states_fieldList {before after : List (Bytes × Tree)} {raw : Bytes} {key : String}
    {items items' : List Tree} {c : DeclaredCollection} (hraw : Denotes raw key)
    (hkey : key ∈ fieldListKeys) (hitems : ∀ fields, IsListOf DeclaresField (.list items) fields →
      IsListOf DeclaresField (.list items') fields)
    (h : collectionShape.States fillsCollection (.object (before ++ (raw, .list items) :: after)) c) :
    collectionShape.States fillsCollection (.object (before ++ (raw, .list items') :: after)) c := by
  let same (key : String) (value value' : Tree) : Prop :=
    value = value' ∨ (key ∈ fieldListKeys ∧ value = .list items ∧ value' = .list items')
  have hlists (x : Option (List DeclaredField))
      (hx : IsNullOr (IsListOf DeclaresField) (.list items) x) :
      IsNullOr (IsListOf DeclaresField) (.list items') x := by
    cases x with
    | none => cases hx
    | some fields => exact hitems fields hx
  have hrest (members : List (Bytes × Tree)) : List.Forall₂ (fun m m' => m.1 = m'.1 ∧
      ∀ key ∈ collectionShape.keys, Denotes m.1 key → same key m.2 m'.2) members members :=
    List.forall₂_same.mpr fun _ _ => ⟨rfl, fun _ _ _ => .inl rfl⟩
  have hvaries : collectionShape.Varies same (.object (before ++ (raw, .list items) :: after))
      (.object (before ++ (raw, .list items') :: after)) := by
    refine .object (List.rel_append (hrest before) (.cons ⟨rfl, ?_⟩ (hrest after)))
    intro key' _ hraw'
    exact .inr ⟨hraw.unique hraw' ▸ hkey, rfl, rfl⟩
  refine h.varies ?_ hvaries
  rintro key' - value value' d d' (rfl | ⟨hkey', rfl, rfl⟩) hfills
  · exact hfills
  simp only [fieldListKeys, List.mem_cons, List.not_mem_nil, or_false] at hkey'
  rcases hkey' with rfl | rfl <;> obtain ⟨x, hx, rfl⟩ := hfills
  · exact ⟨x, hlists x hx, rfl⟩
  · exact ⟨x, hlists x hx, rfl⟩

theorem CollectionEdit.states_iff (h : CollectionEdit tree tree') (c : DeclaredCollection) :
    collectionShape.States fillsCollection tree' c ↔ collectionShape.States fillsCollection tree c := by
  cases h with
  | reordered h => exact ⟨fun hc => states_reordered hc h.symm, fun hc => states_reordered hc h⟩
  | extended h => exact Shape.States.extended_iff h
  | fieldExtended hraw hkey h =>
    constructor
    · exact states_fieldList hraw hkey fun _ =>
        IsListOf.item fun f => (declaresField_extended_iff h f).mp
    · exact states_fieldList hraw hkey fun _ =>
        IsListOf.item fun f => (declaresField_extended_iff h f).mpr

/-- The tree declares the collection, whatever the order of the keys that are noted with it. -/
def DeclaresAnyhow (tree : Tree) (c : DeclaredCollection) : Prop :=
  ∃ d, collectionShape.States fillsCollection tree d ∧ c = { d with keys := c.keys }

theorem Declares.anyhow {c : DeclaredCollection} (h : Declares tree c) : DeclaresAnyhow tree c := by
  obtain ⟨x, hx, rfl⟩ := h
  exact ⟨x.1, ⟨x.2, hx⟩, rfl⟩

theorem DeclaresAnyhow.exists_keys {c : DeclaredCollection} (h : DeclaresAnyhow tree c) :
    ∃ keys, Declares tree { c with keys := keys } := by
  obtain ⟨d, ⟨met, hd⟩, hc⟩ := h
  exact ⟨met, _, hd, congrArg (fun c : DeclaredCollection => { c with keys := met }) hc⟩

theorem forall₂_declaresAnyhow_replace {before after : List Tree} {item item' : Tree}
    {declared : List DeclaredCollection}
    (hitem : ∀ c, DeclaresAnyhow item c → DeclaresAnyhow item' c)
    (h : List.Forall₂ DeclaresAnyhow (before ++ item :: after) declared) :
    List.Forall₂ DeclaresAnyhow (before ++ item' :: after) declared := by
  obtain ⟨front, rest, rfl, hfront, hrest⟩ := exists_of_forall₂_append h
  cases hrest with
  | cons hc hback => exact List.rel_append hfront (.cons (hitem _ hc) hback)

theorem Edit.declares_iff {items items' : List Tree} (h : Edit items items')
    (declared : List DeclaredCollection) :
    List.Forall₂ DeclaresAnyhow items declared ↔ List.Forall₂ DeclaresAnyhow items' declared := by
  obtain ⟨hitem⟩ := h
  constructor
  · refine forall₂_declaresAnyhow_replace fun c hc => ?_
    obtain ⟨d, hd, heq⟩ := hc
    exact ⟨d, (hitem.states_iff d).mpr hd, heq⟩
  · refine forall₂_declaresAnyhow_replace fun c hc => ?_
    obtain ⟨d, hd, heq⟩ := hc
    exact ⟨d, (hitem.states_iff d).mp hd, heq⟩

/-- What the collections of an edited document declare stays. -/
theorem Edited.declares_iff {items items' : List Tree} (h : Edited items items')
    (declared : List DeclaredCollection) :
    List.Forall₂ DeclaresAnyhow items declared ↔ List.Forall₂ DeclaresAnyhow items' declared :=
  iff_of_eq (h.value_eq (List.Forall₂ DeclaresAnyhow · declared) fun _ _ hedit =>
    propext (hedit.declares_iff declared))

/-! ## What the detection finds in an edited document -/

/-- The same of the two keys are found, as they are spelled. -/
def SameFinds (keys keys' : List Bytes) : Prop :=
  ∀ key ∈ fieldListKeys, (Utf8.encode key ∈ keys ↔ Utf8.encode key ∈ keys')

theorem objectKeys_append (items items' : List Tree) :
    objectKeys (items ++ items') = objectKeys items ++ objectKeys items' := by
  induction items with
  | nil => rfl
  | cons item items ih => cases item <;> simp [objectKeys, ih]

theorem firstWith_congr {key : Bytes} {objects objects' : List (List Bytes)}
    (h : List.Forall₂ (fun keys keys' => key ∈ keys ↔ key ∈ keys') objects objects') :
    firstWith key objects = firstWith key objects' := by
  induction h with
  | nil => rfl
  | cons hkeys _ ih =>
    unfold firstWith at ih ⊢
    rw [List.findIdx?_cons, List.findIdx?_cons, ih, decide_eq_decide.mpr hkeys]

theorem CollectionEdit.sameFinds (h : CollectionEdit tree tree') :
    List.Forall₂ SameFinds (objectKeys [tree]) (objectKeys [tree']) := by
  cases h with
  | reordered h =>
    cases h with
    | members hperm => exact .cons (fun key _ => (hperm.map Prod.fst).mem_iff) .nil
    | item => exact .nil
    | value => exact .cons (fun key _ => by simp) .nil
  | extended h =>
    cases h with
    | @mk before after raw added value hraw hnew =>
      refine .cons (fun key hkey => ?_) .nil
      have hne : Utf8.encode key ≠ raw := by
        rintro rfl
        have hknown : ∀ key ∈ fieldListKeys, key ∈ collectionShape.keys := by decide
        exact hnew (hraw.unique (denotes_fieldListKey hkey) ▸ hknown key hkey)
      simp [hne]
  | fieldExtended => exact .cons (fun key _ => by simp) .nil

theorem classify_congr {items items' : List Tree}
    (h : List.Forall₂ SameFinds (objectKeys items) (objectKeys items')) :
    classify items = classify items' := by
  have hfirst : ∀ key ∈ fieldListKeys, firstWith (Utf8.encode key) (objectKeys items) =
      firstWith (Utf8.encode key) (objectKeys items') :=
    fun key hkey => firstWith_congr (h.imp fun _ _ hkeys => hkeys key hkey)
  rw [classify, classify, hfirst "fields" (by decide), hfirst "schema" (by decide)]

theorem Edit.classify_eq {items items' : List Tree} (h : Edit items items') :
    classify items = classify items' := by
  cases h with
  | @mk before after item item' hitem =>
    have hrest (items : List Tree) :
        List.Forall₂ SameFinds (objectKeys items) (objectKeys items) :=
      List.forall₂_same.mpr fun _ _ _ _ => Iff.rfl
    refine classify_congr ?_
    rw [List.append_cons, List.append_cons before item', objectKeys_append, objectKeys_append,
      objectKeys_append, objectKeys_append]
    exact List.rel_append (List.rel_append (hrest before) hitem.sameFinds) (hrest after)

/-- An edited document is classified as before. -/
theorem Edited.classify_eq {items items' : List Tree} (h : Edited items items') :
    classify items = classify items' :=
  h.value_eq classify fun _ _ => Edit.classify_eq

/-- The two declarations are the same but for the order of their keys. -/
def SameButKeys (c d : DeclaredCollection) : Prop := d = { c with keys := d.keys }

theorem exists_declared {items : List Tree} {declared : List DeclaredCollection}
    (h : List.Forall₂ DeclaresAnyhow items declared) :
    ∃ declared', List.Forall₂ Declares items declared' ∧
      List.Forall₂ SameButKeys declared declared' := by
  induction h with
  | nil => exact ⟨[], .nil, .nil⟩
  | cons hc _ ih =>
    obtain ⟨keys, hd⟩ := hc.exists_keys
    obtain ⟨declared', hdeclares, hsame⟩ := ih
    exact ⟨_, .cons hd hdeclares, .cons rfl hsame⟩

theorem checkCollections_congr {declared declared' : List DeclaredCollection}
    (h : List.Forall₂ SameButKeys declared declared') :
    checkCollections declared = checkCollections declared' := by
  have hnames : declared.map DeclaredCollection.name = declared'.map DeclaredCollection.name := by
    induction h with
    | nil => rfl
    | cons hc _ ih => rw [List.map_cons, List.map_cons, ih, hc]
  have hempty : declared = [] ↔ declared' = [] := by
    rw [← List.map_eq_nil_iff, hnames, List.map_eq_nil_iff]
  simp only [checkCollections, hnames, hempty]

end Schema

namespace Compiler

open Schema (DeclaredCollection Dialect Edited Edit CollectionEdit SameButKeys)
open Json (Tree Spells SpellsPadded Denotes Reordered Extended Quoted quoted_of_plain isPlain Blank)

variable {options : LoadOptions} {path : String} {bytes bytes' : Bytes}
variable {items items' : List Tree} {declared declared' : List DeclaredCollection}

/-- The order of the keys of a collection has no part in its model. -/
theorem foldlM_addCollection_keys {dialect : Dialect} {superusers : String}
    (h : List.Forall₂ SameButKeys declared declared') (p : Progress) :
    declared.foldlM (addCollection path dialect superusers) p =
      declared'.foldlM (addCollection path dialect superusers) p := by
  induction h generalizing p with
  | nil => rfl
  | @cons c d _ _ hc _ ih =>
    have hstep : addCollection path dialect superusers p d =
        addCollection path dialect superusers p c := by
      rw [show d = { c with keys := d.keys } from hc]
      rfl
    rw [List.foldlM_cons, List.foldlM_cons, hstep]
    simp only [ih]

/-- A document that is read is compiled as before once it has been edited, with the same diagnostic
if it has one. -/
theorem load_eq_of_edited (hread : Schema.readDocument bytes = .ok declared)
    (hspelled : SpellsPadded (.list items) bytes) (hedited : Edited items items')
    (hspelled' : SpellsPadded (.list items') bytes') :
    load options path bytes' = load options path bytes := by
  have hdeclares := (Schema.readDocument_eq_ok_iff hspelled declared).mp hread
  have hanyhow := (hedited.declares_iff declared).mp (hdeclares.imp fun _ _ hc => hc.anyhow)
  obtain ⟨declared', hdeclares', hsame⟩ := Schema.exists_declared hanyhow
  have hread' := (Schema.readDocument_eq_ok_iff hspelled' declared').mpr hdeclares'
  obtain ⟨_, hreadings⟩ := Schema.exists_readings hread
  obtain ⟨_, hreadings'⟩ := Schema.exists_readings hread'
  cases (hreadings.spelled _).mp hspelled
  cases (hreadings'.spelled _).mp hspelled'
  have hdetect : Dialect.detect bytes' = Dialect.detect bytes := by
    rw [hreadings.detect_eq, hreadings'.detect_eq, hedited.classify_eq]
  rw [load_of_read hread, load_of_read hread', hdetect, Schema.checkCollections_congr hsame]
  simp only [foldlM_addCollection_keys hsame]

/-- Only the content of a document counts. An accepted document spells one list of trees, and every
text of that list, or of a list that edits lead to, is compiled to the same: white space, the order
of members and members that nobody asks for make no difference. -/
theorem load_of_edited {s : Schema} (h : load options path bytes = .ok s) :
    ∃ items, (∀ tree, SpellsPadded tree bytes ↔ tree = .list items) ∧
      ∀ items' bytes', Edited items items' → SpellsPadded (.list items') bytes' →
        load options path bytes' = .ok s := by
  obtain ⟨-, -, -, -, declared, hread, -, -⟩ := load_ok h
  obtain ⟨items, hreadings⟩ := Schema.exists_readings hread
  refine ⟨items, hreadings.spelled, fun items' bytes' hedited hspelled' => ?_⟩
  rw [load_eq_of_edited hread ((hreadings.spelled _).mpr rfl) hedited hspelled', h]

/-- A member whose key needs no escapes. -/
def keyed (key : String) (value : Tree) : Bytes × Tree := (Utf8.encode key, value)

def textTree (text : String) : Tree := .string (Utf8.encode text)

def plainItems : List Tree :=
  [.object [keyed "name" (textTree "a"), keyed "fields" (.list
    [.object [keyed "name" (textTree "t"), keyed "type" (textTree "text")]])]]

def plainText : Bytes :=
  Utf8.encode
    "[\x7b\"name\":\"a\",\"fields\":[\x7b\"name\":\"t\",\"type\":\"text\"\x7d]\x7d]"

/-- A value that looks like the text of a collection. -/
def tangledTree : Tree := .object [keyed "fields" (.list [textTree "\x7d\\\""])]

/-- The same with all members in another order, and with more of them. -/
def decoratedItems : List Tree :=
  [.object [keyed "x" tangledTree, keyed "fields" (.list
    [.object [keyed "type" (textTree "text"), keyed "name" (textTree "t"),
      keyed "schema" (.word Json.nullWord)]]), keyed "name" (textTree "a")]]

def decoratedText : Bytes :=
  Utf8.encode
    ("\n[\x7b\"x\": \x7b\"fields\":[\"\x7d\\\"\"]\x7d,\"fields\":"
      ++ "[\x7b\"type\":\"text\",\"name\":\"t\",\"schema\":null\x7d],\"name\":\"a\"\x7d]")

theorem edited_plain : Edited plainItems decoratedItems := by
  have hedit {tree tree' : Tree} (h : CollectionEdit tree tree') : Edited [tree] [tree'] :=
    .rel _ _ (@Edit.mk [] [] _ _ h)
  have hfields := Schema.denotes_fieldListKey (by decide : "fields" ∈ Schema.fieldListKeys)
  let name := keyed "name" (textTree "t")
  let type := keyed "type" (textTree "text")
  have hswap : Reordered (.object [name, type]) (.object [type, name]) := .members (.swap _ _ _)
  have hschema : Extended Schema.fieldShape.keys (.object [type, name])
      (.object [type, name, keyed "schema" (.word Json.nullWord)]) :=
    @Extended.mk _ [type, name] [] _ "schema" _
      (Schema.denotes_encode (by decide +kernel) (by decide +kernel)) (by decide)
  have hx (members : List (Bytes × Tree)) : Extended Schema.collectionShape.keys
      (.object members) (.object (keyed "x" tangledTree :: members)) :=
    @Extended.mk _ [] members _ "x" _
      (Schema.denotes_encode (by decide +kernel) (by decide +kernel)) (by decide)
  let collection := keyed "name" (textTree "a")
  have hinner := hedit (.reordered (@Reordered.value [collection] [] (Utf8.encode "fields") _ _
    (@Reordered.item [] [] _ _ hswap)))
  have hfield := hedit
    (@CollectionEdit.fieldExtended [collection] [] _ _ [] [] _ _ hfields (by decide) hschema)
  have hadded (members : List (Bytes × Tree)) := hedit (.extended (hx members))
  have houter (added m m' : Bytes × Tree) : Edited [.object [added, m, m']] [.object [added, m', m]] :=
    hedit (.reordered (.members (.cons _ (.swap _ _ _))))
  exact hinner.trans _ _ _ (hfield.trans _ _ _ ((hadded _).trans _ _ _ (houter _ _ _)))

theorem spelled_plain :
    SpellsPadded (.list plainItems) plainText ∧
      SpellsPadded (.list decoratedItems) decoratedText := by
  have hkey (key : String) (h : (Utf8.encode key).all isPlain) : Quoted (Utf8.encode key) :=
    quoted_of_plain h
  have htext (s : String) (h : (Utf8.encode s).all isPlain) : SpellsPadded (textTree s) _ :=
    (Spells.string (hkey s h)).bare
  have hname := hkey "name" (by decide +kernel)
  have hfields := hkey "fields" (by decide +kernel)
  have ha := (htext "a" (by decide +kernel)).keyed hname
  have ht := (htext "t" (by decide +kernel)).keyed hname
  have htype := (htext "text" (by decide +kernel)).keyed (hkey "type" (by decide +kernel))
  have hnull := (Spells.word (by decide : Json.nullWord ∈ _)).bare.keyed
    (hkey "schema" (by decide +kernel))
  have hblank (b : UInt8) (h : Json.isSeparator b) : Blank [b] := by
    intro c hc
    rwa [List.mem_singleton.mp hc]
  have htangled : SpellsPadded tangledTree _ :=
    .mk (hblank Ascii.space (by decide)) (.object (.last ((Spells.list (.last (Spells.string
      (.plain (by decide) (by decide) (by decide) (.escape (by decide) .nil))).bare)).bare.keyed
        hfields))) Json.blank_nil
  have hfield := (Spells.object (.more ht (.last htype))).bare
  have hfield' := (Spells.object (.more htype (.more ht (.last hnull)))).bare
  have hplain : SpellsPadded (.list plainItems) _ :=
    (Spells.list (.last (Spells.object (.more ha
      (.last ((Spells.list (.last hfield)).bare.keyed hfields)))).bare)).bare
  have hdecorated : SpellsPadded (.list decoratedItems) _ :=
    .mk (hblank Ascii.lineFeed (by decide)) (.list (.last (Spells.object
      (.more (htangled.keyed (hkey "x" (by decide +kernel)))
        (.more ((Spells.list (.last hfield')).bare.keyed hfields) (.last ha)))).bare))
      Json.blank_nil
  constructor
  · convert hplain using 1
    decide +kernel
  · convert hdecorated using 1
    decide +kernel

/-- A field is put in another order and gets a member that is called as a list of a collection's
fields, and the collection gets one whose value has brackets and an escaped quotation mark. -/
theorem load_decorated :
    (load {} "schema.json" plainText = .ok ⟨"schema.json", .latest, .latest,
        [⟨"a", "A", none, [⟨"T", "t", ⟨.text, true⟩⟩], .latest⟩], []⟩ ∧
      SpellsPadded (.list plainItems) plainText ∧ Edited plainItems decoratedItems ∧
      SpellsPadded (.list decoratedItems) decoratedText) ∧
    load {} "schema.json" decoratedText = .ok ⟨"schema.json", .latest, .latest,
      [⟨"a", "A", none, [⟨"T", "t", ⟨.text, true⟩⟩], .latest⟩], []⟩ := by
  have hload : load {} "schema.json" plainText = .ok ⟨"schema.json", .latest, .latest,
      [⟨"a", "A", none, [⟨"T", "t", ⟨.text, true⟩⟩], .latest⟩], []⟩ := by decide +kernel
  obtain ⟨items, hspelled, hedited⟩ := load_of_edited hload
  cases (hspelled _).mp spelled_plain.1
  exact ⟨⟨hload, spelled_plain.1, edited_plain, spelled_plain.2⟩,
    hedited _ _ edited_plain spelled_plain.2⟩

/-! ## A key that is no text -/

/-- The escape of the first half of a character, whose second half is missing. -/
def loneKey : Bytes := [Ascii.backslash, 0x75, 0x64, 0x38, 0x30, 0x30]

theorem not_denotes_loneKey (key : String) : ¬Denotes loneKey key := by
  intro h
  obtain ⟨hlt, hread⟩ := Json.quotation_append h []
  have hrefused : (Json.quotation (loneKey ++ [Ascii.quote])).isOk = false := by decide +kernel
  rw [hread] at hrefused
  cases hrefused

/-- A collection with the members behind its name. -/
def namedItems (members : List (Bytes × Tree)) : List Tree :=
  [.object (keyed "name" (textTree "a") :: members)]

/-- A key that the grammar allows need not denote a text. It is none of the known keys then, but the
reader refuses it, so a document cannot be given a member of that key. -/
theorem load_loneKey :
    (SpellsPadded (.list (namedItems [])) (Utf8.encode "[\x7b\"name\":\"a\"\x7d]") ∧
      SpellsPadded (.list (namedItems [(loneKey, .word Json.nullWord)]))
        (Utf8.encode "[\x7b\"name\":\"a\",\"\\ud800\":null\x7d]") ∧
      ∀ key ∈ Schema.collectionShape.keys, ¬Denotes loneKey key) ∧
    load {} "schema.json" (Utf8.encode "[\x7b\"name\":\"a\"\x7d]") =
      .ok ⟨"schema.json", .unknown, .latest, [⟨"a", "A", none, [], .latest⟩], []⟩ ∧
    load {} "schema.json" (Utf8.encode "[\x7b\"name\":\"a\",\"\\ud800\":null\x7d]") =
      .error (.malformed "schema.json" 1 21 "unexpected end of hex escape at line 1 column 21") := by
  have hname : Json.SpellsMember (keyed "name" (textTree "a")) _ :=
    (Spells.string (quoted_of_plain (by decide +kernel))).bare.keyed
      (quoted_of_plain (by decide +kernel))
  have hquoted : Quoted loneKey := .unicode rfl rfl rfl rfl .nil
  have hlone : Json.SpellsMember (loneKey, .word Json.nullWord) _ :=
    (Spells.word (by decide)).bare.keyed hquoted
  have hplain : SpellsPadded (.list (namedItems [])) _ :=
    (Spells.list (.last (Spells.object (.last hname)).bare)).bare
  have hrefused : SpellsPadded (.list (namedItems [(loneKey, .word Json.nullWord)])) _ :=
    (Spells.list (.last (Spells.object (.more hname (.last hlone))).bare)).bare
  refine ⟨⟨?_, ?_, fun key _ => not_denotes_loneKey key⟩, by decide +kernel, by decide +kernel⟩
  · convert hplain using 1
    decide +kernel
  · convert hrefused using 1
    decide +kernel

end Compiler
end TypedCollections
