import TypedCollections.Model.SourceFile
import TypedCollections.Proofs.Model.Identifiers
import TypedCollections.Proofs.Model.MemberNames

/-!
The member that holds the id of a record. It has the type of the declared field, and the code that
reads and writes the id fits the texts among the types; it is called `id` unless a field before it
has been called so first.
-/

namespace TypedCollections

open Schema (DeclaredCollection DeclaredField Dialect)
open Identifier (bare stem snake)

namespace Selection

variable {dialect : Dialect} {collection : String} {declared : List DeclaredField} {s : Selection}

/-- The first declaration of a name is the one that is found first. -/
theorem find?_firsts (name : String) : (declared : List DeclaredField) →
    ((firsts declared).find? fun d => d.name = name) = declared.find? fun d => d.name = name
  | [] => rfl
  | d :: rest => by
    rw [firsts_cons]
    by_cases h : d.name = name
    · simp [h]
    · have hrest : ((rest.filter fun later => later.name ≠ d.name).find? fun d => d.name = name) =
          rest.find? fun d => d.name = name := by
        rw [List.find?_filter]
        refine List.find?_congr fun later _ => ?_
        by_cases heq : later.name = name <;> simp [heq, Ne.symm h]
      simp only [List.find?_cons, h, decide_false]
      rw [find?_firsts name, hrest]
termination_by declared => declared.length
decreasing_by exact Nat.lt_succ_of_le (List.length_filter_le _ _)

/-- The field of the key `id` is what the first declaration of that name says; no flag and no
dialect leaves it out. -/
theorem find?_id (h : Selection.of dialect collection declared = .ok s) :
    (s.fields.find? fun f => f.key == "id").map Field.description =
      (declared.find? fun d => d.name = "id").map DeclaredField.description := by
  have hmap := of_eq_reference dialect collection declared
  rw [h] at hmap
  split at hmap
  · cases hmap
  have hdescriptions := congrArg (List.find? fun x : Description => x.key == "id")
    (Except.ok.inj hmap)
  rw [List.find?_map, List.find?_map, List.find?_filter] at hdescriptions
  rw [← find?_firsts]
  refine hdescriptions.trans (congrArg _ (List.find?_congr fun d _ => ?_))
  have hname : d.description.key = d.name := by
    unfold DeclaredField.description
    split <;> rfl
  have hremains : d.name = "id" → remains dialect d := by
    intro heq
    simp [remains, heq]
  by_cases heq : d.name = "id" <;> simp [hname, heq, hremains]

end Selection

theorem canonical?_id : Identifier.canonical? "id" = some "Id" := by decide +kernel

namespace Field

variable {f : Field}

/-- The field of the key `id` is called so if it has the identifier of that name. -/
theorem memberName_eq_id_iff (hpascal : Identifier.IsPascal f.identifier.toList)
    (hkey : f.key = "id") : f.memberName = "id" ↔ f.identifier = "Id" := by
  have hid : Identifier.IsPascal "Id".toList := Identifier.isPascal_of_canonical? canonical?_id
  constructor
  · intro h
    have hstem := stem_memberName hpascal
    rw [h, show stem (bare "id") = (snake "Id").toList from by decide] at hstem
    exact (Identifier.snake_injective hid hpascal (String.toList_injective hstem)).symm
  · intro h
    have hsetter : f.setterName = "id" := by
      unfold setterName
      rw [h, hkey]
      decide
    rw [memberName, hsetter]
    decide

end Field

namespace Selection

variable {before : List Field}

theorem getLast?_numbered (identifier : String) (n : Nat) :
    ∃ c, (identifier ++ toString n).toList.getLast? = some c ∧ c.isDigit := by
  have hne : Nat.toDigits 10 n ≠ [] := Nat.toDigits_ne_nil
  obtain ⟨c, hc⟩ := Option.ne_none_iff_exists'.mp (mt List.getLast?_eq_none_iff.mp hne)
  refine ⟨c, ?_, Nat.isDigit_of_mem_toDigits (by decide) (by decide) (List.mem_of_getLast? hc)⟩
  rw [String.toList_append, Nat.toString_eq_repr, Nat.toList_repr,
    List.getLast?_append_of_ne_nil _ hne, hc]

/-- An identifier that does not end with a digit is only had by fields that are called after their
keys. So it is taken once some field before is to be called so. -/
theorem mem_identifiers_iff {identifier : String} {c : Char}
    (hlast : identifier.toList.getLast? = some c) (hdigit : c.isDigit = false)
    (hclaims : ∀ front g back, before = front ++ g :: back →
      ∃ own, Identifier.canonical? g.key = some own ∧
        Claims (front.map Field.identifier) own g.identifier) :
    identifier ∈ before.map Field.identifier ↔
      ∃ g ∈ before, Identifier.canonical? g.key = some identifier := by
  constructor
  · intro h
    obtain ⟨g, hg, rfl⟩ := List.mem_map.mp h
    obtain ⟨front, back, rfl⟩ := List.append_of_mem hg
    obtain ⟨own, hown, hclaim⟩ := hclaims front g back rfl
    refine ⟨g, hg, ?_⟩
    unfold Claims at hclaim
    split at hclaim
    · obtain ⟨n, -, hn, -⟩ := hclaim
      obtain ⟨c', hc', hdigit'⟩ := getLast?_numbered own n
      rw [← hn, hlast] at hc'
      cases hc'
      exact absurd hdigit' (by simp [hdigit])
    · rw [hown, hclaim]
  · rintro ⟨g, hg, hown⟩
    obtain ⟨front, back, rfl⟩ := List.append_of_mem hg
    obtain ⟨own, hown', hclaim⟩ := hclaims front g back rfl
    obtain rfl : identifier = own := Option.some.inj (hown.symm.trans hown')
    unfold Claims at hclaim
    split at hclaim
    · next htaken =>
      rw [List.map_append]
      exact List.mem_append_left _ htaken
    · rw [← hclaim]
      exact List.mem_map_of_mem hg

end Selection

namespace Member

/-- The code that reads the member as an id and sets it goes with its type. -/
inductive HoldsText (m : Member) : Prop
  | direct (type : m.typeCode = "String")
      (access : m.idAccess =
        ("&self." ++ m.name, "self." ++ m.name ++ " = id.to_string();"))
  | optional (type : m.typeCode = "Option<String>")
      (access : m.idAccess =
        ("self." ++ m.name ++ ".as_deref().unwrap_or_default()",
          "self." ++ m.name ++ " = Some(id.to_string());"))

end Member

theorem MemberType.code_mem_iff (t : MemberType) :
    t.code ∈ ["String", "Option<String>"] ↔ t.base = .text := by
  obtain ⟨base, optional⟩ := t
  cases base <;> cases optional <;> decide +kernel

namespace Collection

variable {c : Collection} {f : Field}

theorem idMember_of_none (h : c.field? "id" = none) : c.idMember = .recordId := by
  rw [idMember, h]
  rfl

theorem idMember_of_some (h : c.field? "id" = some f) : c.idMember = .field f := by
  rw [idMember, h]
  rfl

theorem mem_of_field? (h : c.field? "id" = some f) : f ∈ c.fields ∧ f.key = "id" :=
  ⟨List.mem_of_find?_eq_some h, by simpa using List.find?_some h⟩

/-- The id has a member of its own, which is the one with the key `id`. -/
theorem idMember_mem (c : Collection) : c.idMember ∈ c.members ∧ c.idMember.keys = ["id"] := by
  cases h : c.field? "id" with
  | none =>
    rw [idMember_of_none h]
    exact ⟨by simp [members, hasIdField, h], rfl⟩
  | some f =>
    obtain ⟨hf, hkey⟩ := mem_of_field? h
    rw [idMember_of_some h]
    exact ⟨by simp [members, hf], by rw [Member.keys, hkey]⟩

/-! ## The type of the id -/

theorem holdsText_iff (c : Collection) :
    c.idMember.HoldsText ↔ ∀ f, c.field? "id" = some f → f.type.base = .text := by
  cases h : c.field? "id" with
  | none =>
    rw [idMember_of_none h]
    exact iff_of_true (.direct rfl rfl) (by simp)
  | some f =>
    rw [idMember_of_some h]
    simp only [Option.some.injEq, forall_eq']
    constructor
    · intro hholds
      refine f.type.code_mem_iff.mp ?_
      cases hholds with
      | direct htype => exact List.mem_cons.mpr (.inl htype)
      | optional htype => exact List.mem_cons_of_mem _ (List.mem_singleton.mpr htype)
    · intro hbase
      obtain ⟨identifier, key, base, optional⟩ := f
      obtain rfl : base = .text := hbase
      cases optional with
      | false => exact .direct rfl rfl
      | true => exact .optional rfl rfl

theorem typeCode_iff (c : Collection) :
    c.idMember.typeCode ∈ ["String", "Option<String>"] ↔
      ∀ f, c.field? "id" = some f → f.type.base = .text := by
  cases h : c.field? "id" with
  | none =>
    rw [idMember_of_none h]
    exact iff_of_true (by decide) (by simp)
  | some f =>
    rw [idMember_of_some h]
    simp only [Option.some.injEq, forall_eq']
    exact f.type.code_mem_iff

/-- The field of the key `id` has the type of the first declaration of that name. -/
theorem base_iff {dialect : Dialect} {d : DeclaredCollection} (h : Compiler.Models dialect d c) :
    (∀ f, c.field? "id" = some f → f.type.base = .text) ↔
      ∀ f, (d.fieldList.find? fun f => f.name = "id") = some f →
        FieldType.ofKind? f.kind ∈ [none, some .text] := by
  have hbase (f : DeclaredField) (hname : f.name = "id") :
      f.description.base = (FieldType.ofKind? f.kind).getD .text := by
    rw [DeclaredField.description, if_neg (by rw [hname]; decide)]
    rfl
  cases h with
  | mk selection hselection identifier hidentifier =>
    have hid := Selection.find?_id hselection
    change (∀ f, selection.fields.find? (fun f => f.key == "id") = some f →
      f.type.base = .text) ↔ _
    cases hfirst : d.fieldList.find? fun f => f.name = "id" with
    | none =>
      rw [hfirst] at hid
      simp [Option.map_eq_none_iff.mp hid]
    | some first =>
      rw [hfirst] at hid
      obtain ⟨f, hf, hsame⟩ := Option.map_eq_some_iff.mp hid
      have hname : first.name = "id" := by simpa using List.find?_some hfirst
      have htype : f.type.base = (FieldType.ofKind? first.kind).getD .text :=
        (congrArg Description.base hsame).trans (hbase first hname)
      rw [hf]
      simp only [Option.some.injEq, forall_eq', htype, List.mem_cons, List.not_mem_nil, or_false]
      cases FieldType.ofKind? first.kind <;> simp

/-- The member that a model is identified by holds the key `id`, and it has the type of the first
declaration of that name. The code that reads it as an id and sets it is that of a text, so it goes
with that type if there is no declaration, or one of a kind that is a text or that nobody knows. -/
theorem idMember_of_load {options : LoadOptions} {path : String} {bytes : Bytes} {s : Schema}
    (h : Compiler.load options path bytes = .ok s) (hc : c ∈ s.collections) :
    c.idMember ∈ c.members ∧ c.idMember.keys = ["id"] ∧
      ∃ declared d, Schema.readDocument bytes = .ok declared ∧ d ∈ declared ∧ d.name = c.name ∧
        (c.idMember.typeCode ∈ ["String", "Option<String>"] ↔
          ∀ f, (d.fieldList.find? fun f => f.name = "id") = some f →
            FieldType.ofKind? f.kind ∈ [none, some .text]) ∧
        (c.idMember.HoldsText ↔
          ∀ f, (d.fieldList.find? fun f => f.name = "id") = some f →
            FieldType.ofKind? f.kind ∈ [none, some .text]) := by
  obtain ⟨declared, d, hread, -, hd, hmodel⟩ := Compiler.exists_models_of_mem h hc
  have hbase := base_iff hmodel
  refine ⟨c.idMember_mem.1, c.idMember_mem.2, declared, d, hread, hd, ?_,
    c.typeCode_iff.trans hbase, c.holdsText_iff.trans hbase⟩
  cases hmodel
  rfl

/-- A collection whose only field is the id, of some kind. -/
def idText (kind : String) : Bytes :=
  Utf8.encode
    ("[\x7b\"name\":\"a\",\"fields\":[\x7b\"name\":\"id\",\"type\":\"" ++ kind ++ "\"\x7d]\x7d]")

def idCollection (type : MemberType) : Collection := ⟨"a", "A", none, [⟨"Id", "id", type⟩], .latest⟩

theorem idMember_of_text :
    Compiler.load {} "schema.json" (idText "text") = .ok ⟨"schema.json", .latest, .latest,
        [idCollection ⟨.text, true⟩], []⟩ ∧
      (idCollection ⟨.text, true⟩).idMember.typeCode = "Option<String>" ∧
      (idCollection ⟨.text, true⟩).idMember.HoldsText := by
  have hload : Compiler.load {} "schema.json" (idText "text") = .ok ⟨"schema.json", .latest,
      .latest, [idCollection ⟨.text, true⟩], []⟩ := by decide +kernel
  obtain ⟨-, -, declared, d, hread, hd, -, htype, hholds⟩ :=
    idMember_of_load hload (List.mem_singleton.mpr rfl)
  exact ⟨hload, by decide +kernel, hholds.mpr (htype.mp (by decide +kernel))⟩

/-- The id is a number, and the code reads and sets a text. -/
theorem idMember_of_number :
    Compiler.load {} "schema.json" (idText "number") = .ok ⟨"schema.json", .latest, .latest,
        [idCollection ⟨.number, true⟩], []⟩ ∧
      (idCollection ⟨.number, true⟩).idMember.typeCode = "Option<f64>" ∧
      (idCollection ⟨.number, true⟩).idMember.idAccess =
        ("self.id.as_deref().unwrap_or_default()", "self.id = Some(id.to_string());") ∧
      ¬(idCollection ⟨.number, true⟩).idMember.HoldsText := by
  refine ⟨by decide +kernel, by decide +kernel, by decide +kernel, ?_⟩
  rw [holdsText_iff]
  intro htext
  exact absurd (htext _ rfl) (by decide)

/-! ## The name of the id -/

/-- A field before the one of the key `id` would be called `Id` after its key. -/
def IdTaken (c : Collection) : Prop :=
  c.hasIdField ∧ ∃ g ∈ c.fields.takeWhile fun f => f.key ≠ "id",
    Identifier.canonical? g.key = some "Id"

theorem memberName_ne_id (hpascal : Identifier.IsPascal f.identifier.toList) (hkey : f.key ≠ "id") :
    f.memberName ≠ "id" := by
  intro heq
  have hne := Field.memberName_ne hpascal (by decide) (Field.setterName_ne_id hkey)
  exact hne (by rw [heq]; decide)

variable (hdistinct : Selection.Distinct c.dialect c.fields)

include hdistinct

/-- No other member is called as the id. -/
theorem eq_idMember_of_name {m : Member} (hm : m ∈ c.members) (hname : m.name = "id") :
    m = c.idMember := by
  cases m with
  | recordMeta => exact absurd hname (by decide)
  | timestamps => exact absurd hname (by decide)
  | recordId =>
    cases h : c.field? "id" with
    | none => exact (idMember_of_none h).symm
    | some f => simp [members, hasIdField, h] at hm
  | field f =>
    have hf : f ∈ c.fields := by simpa [members] using hm
    have hkey : f.key = "id" := by
      by_contra hkey
      exact memberName_ne_id (hdistinct.pascal f hf) hkey hname
    have hfirst : c.field? "id" = some f := by
      obtain ⟨g, hg⟩ : ∃ g, c.field? "id" = some g :=
        Option.isSome_iff_exists.mp (List.find?_isSome.mpr ⟨f, hf, by simp [hkey]⟩)
      obtain ⟨hmem, hgkey⟩ := mem_of_field? hg
      rw [hg, List.inj_on_of_nodup_map hdistinct.keys hmem hf (hgkey.trans hkey.symm)]
    exact (idMember_of_some hfirst).symm

/-- The member of the id is called so exactly if no field before it is to be. -/
theorem name_idMember_iff (hclaims : ∀ before f after, c.fields = before ++ f :: after →
      ∃ identifier, Identifier.canonical? f.key = some identifier ∧
        Selection.Claims (before.map Field.identifier) identifier f.identifier) :
    c.idMember.name = "id" ↔ ¬c.IdTaken := by
  cases h : c.field? "id" with
  | none =>
    rw [idMember_of_none h]
    refine iff_of_true rfl ?_
    rintro ⟨hfield, -⟩
    simp [hasIdField, h] at hfield
  | some f =>
    obtain ⟨hf, hkey⟩ := mem_of_field? h
    obtain ⟨before, after, heq⟩ := List.append_of_mem hf
    have hfront : (c.fields.takeWhile fun f => f.key ≠ "id") = before := by
      have hkeys := hdistinct.keys
      rw [heq, List.map_append, List.map_cons] at hkeys
      have hne : ∀ g ∈ before, decide (g.key ≠ "id") = true := by
        intro g hg
        have hapart := (List.nodup_append.mp hkeys).2.2 g.key (List.mem_map_of_mem hg) f.key
          List.mem_cons_self
        exact decide_eq_true (hkey ▸ hapart)
      rw [heq, List.takeWhile_append_of_pos hne, List.takeWhile_cons_of_neg (by simp [hkey]),
        List.append_nil]
    have htaken : c.IdTaken ↔ "Id" ∈ before.map Field.identifier := by
      have hmem : "Id" ∈ before.map Field.identifier ↔
          ∃ g ∈ before, Identifier.canonical? g.key = some "Id" := by
        refine Selection.mem_identifiers_iff (by decide : _ = some 'd') (by decide) ?_
        intro front g back hbefore
        exact hclaims front g (back ++ f :: after) (by
          rw [heq, hbefore, List.append_assoc, List.cons_append])
      rw [IdTaken, hfront, hmem]
      simp [hasIdField, h]
    obtain ⟨identifier, hidentifier, hclaim⟩ := hclaims before f after heq
    obtain rfl : "Id" = identifier := by
      rw [hkey, canonical?_id] at hidentifier
      exact Option.some.inj hidentifier
    rw [idMember_of_some h, Member.name_field,
      Field.memberName_eq_id_iff (hdistinct.pascal f hf) hkey, htaken]
    unfold Selection.Claims at hclaim
    split at hclaim
    · next hmem =>
      obtain ⟨n, -, hn, hfree, -⟩ := hclaim
      refine iff_of_false ?_ (not_not_intro hmem)
      intro hid
      rw [hid] at hfree
      exact hfree hmem
    · next hmem => exact iff_of_true hclaim hmem

omit hdistinct

/-- A model has one member that is called `id`, and it is the one of that key, unless a field before
the one of the key would be called so after its own key. Then none has that name: the field that
came first leaves it to the key, and the field of the key has got a number. -/
theorem idName_of_load {options : LoadOptions} {path : String} {bytes : Bytes} {s : Schema}
    (h : Compiler.load options path bytes = .ok s) (hc : c ∈ s.collections) :
    c.idMember.keys = ["id"] ∧
      (¬c.IdTaken → (c.members.filter fun m => m.name = "id") = [c.idMember]) ∧
      (c.IdTaken → (c.members.filter fun m => m.name = "id") = []) := by
  have hdistinct := Compiler.distinct_of_load h hc
  have hclaims : ∀ before f after, c.fields = before ++ f :: after →
      ∃ identifier, Identifier.canonical? f.key = some identifier ∧
        Selection.Claims (before.map Field.identifier) identifier f.identifier := by
    obtain ⟨declared, d, -, -, -, hmodel⟩ := Compiler.exists_models_of_mem h hc
    cases hmodel with
    | mk selection hselection => exact (Selection.told_of hselection).identifiers
  have hname := name_idMember_iff hdistinct hclaims
  have honly : ∀ m ∈ c.members, m.name = "id" → m = c.idMember :=
    fun m hm => eq_idMember_of_name hdistinct hm
  refine ⟨c.idMember_mem.2, fun hfree => ?_, fun htaken => ?_⟩
  · have hsame : (c.members.filter fun m => m.name = "id") =
        c.members.filter fun m => m = c.idMember := by
      refine List.filter_congr fun m hm => ?_
      rw [decide_eq_decide]
      exact ⟨honly m hm, fun heq => heq ▸ hname.mpr hfree⟩
    have hnodup : c.members.Nodup := (names_nodup hdistinct).of_map
    rw [hsame, List.filter_eq, List.count_eq_one_of_mem hnodup c.idMember_mem.1]
    rfl
  · rw [List.filter_eq_nil_iff]
    intro m hm hid
    have hid : m.name = "id" := by simpa using hid
    exact hname.mp (honly m hm hid ▸ hid) htaken

/-- A collection with two fields that are called alike. -/
def twoIdsText (first second : String) : Bytes :=
  Utf8.encode
    ("[\x7b\"name\":\"a\",\"fields\":[\x7b\"name\":\"" ++ first ++ "\",\"type\":\"text\"\x7d,"
      ++ "\x7b\"name\":\"" ++ second ++ "\",\"type\":\"text\"\x7d]\x7d]")

def twoIds (first second : String) : Collection :=
  ⟨"a", "A", none, [⟨"Id", first, ⟨.text, true⟩⟩, ⟨"Id2", second, ⟨.text, true⟩⟩], .latest⟩

theorem idName_of_first :
    Compiler.load {} "schema.json" (twoIdsText "id" "_id") = .ok ⟨"schema.json", .latest, .latest,
        [twoIds "id" "_id"], [.identifierCollision "a" "_id" "Id2"]⟩ ∧
      ¬(twoIds "id" "_id").IdTaken ∧
      ((twoIds "id" "_id").members.filter fun m => m.name = "id") =
        [.field ⟨"Id", "id", ⟨.text, true⟩⟩] := by
  have hload : Compiler.load {} "schema.json" (twoIdsText "id" "_id") = .ok ⟨"schema.json",
      .latest, .latest, [twoIds "id" "_id"], [.identifierCollision "a" "_id" "Id2"]⟩ := by
    decide +kernel
  have hfree : ¬(twoIds "id" "_id").IdTaken := by
    rintro ⟨-, g, hg, -⟩
    simp [twoIds] at hg
  exact ⟨hload, hfree, (idName_of_load hload (List.mem_singleton.mpr rfl)).2.1 hfree⟩

/-- The field of the key comes second: the first one is called `id_`, and the id is called `id2`. -/
theorem idName_of_second :
    Compiler.load {} "schema.json" (twoIdsText "_id" "id") = .ok ⟨"schema.json", .latest, .latest,
        [twoIds "_id" "id"], [.identifierCollision "a" "id" "Id2"]⟩ ∧
      (twoIds "_id" "id").members.map Member.name = ["meta", "id_", "id2"] ∧
      (twoIds "_id" "id").idMember.name = "id2" := by
  decide +kernel

end Collection
end TypedCollections
