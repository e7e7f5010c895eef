import TypedCollections.Proofs.Schema.Scanning
import TypedCollections.Text.Utf8

/-!
What the scan of a schema document finds. `classify` reads the document a second time, as the tree
of a JSON text: it looks for the two keys among the members of the objects that are direct items of
the outermost list. The scan comes to the same verdict for every text that spells a list.
-/
namespace TypedCollections.Schema.Dialect

open Json

/-- The keys of the items that are objects, in their own spelling. -/
def objectKeys : List Tree → List (List Bytes)
  | [] => []
  | .object members :: items => members.map Prod.fst :: objectKeys items
  | _ :: items => objectKeys items

/-- The first of several objects that has a key. -/
def firstWith (key : Bytes) (objects : List (List Bytes)) : Option Nat :=
  objects.findIdx? fun keys => key ∈ keys

/-- The dialect of a list of collections, as its tree shows it. -/
def classify (items : List Tree) : Verdict :=
  match firstWith (Utf8.encode "fields") (objectKeys items),
    firstWith (Utf8.encode "schema") (objectKeys items) with
  | some fieldsIndex, some schemaIndex => .error (.mixed fieldsIndex schemaIndex)
  | some _, none => .ok .latest
  | none, some _ => .ok .legacy
  | none, none => .ok .unknown

/-! ## The keys that were found -/

/-- What has been seen in several objects. -/
def Seen.of (objects : List (List Bytes)) : Seen :=
  ⟨firstWith fieldsKey objects, firstWith schemaKey objects⟩

/-- A record that has both keys is a verdict. -/
def Seen.settled (seen : Seen) : Except Verdict Seen :=
  match seen.fieldsAt, seen.schemaAt with
  | some fieldsIndex, some schemaIndex => .error (.error (.mixed fieldsIndex schemaIndex))
  | _, _ => .ok seen

theorem firstWith_append (key : Bytes) (before after : List (List Bytes)) :
    firstWith key (before ++ after) =
      (firstWith key before).or ((firstWith key after).map (· + before.length)) :=
  List.findIdx?_append

/-- One more key in the last object matters only if it is the key that is looked for. -/
theorem firstWith_snoc (key k : Bytes) (before : List (List Bytes)) (keys : List Bytes) :
    firstWith key (before ++ [keys ++ [k]]) =
      (firstWith key (before ++ [keys])).or (if k = key then some before.length else none) := by
  simp only [firstWith_append, Option.or_assoc]
  congr 1
  by_cases hm : key ∈ keys
  · simp [firstWith, hm]
  · by_cases hk : key = k
    · simp [firstWith, hk, hk ▸ hm]
    · simp [firstWith, hm, hk, Ne.symm hk]

theorem firstWith_nil (key : Bytes) (before : List (List Bytes)) :
    firstWith key (before ++ [[]]) = firstWith key before := by
  simp [firstWith]

theorem firstWith_append_of_some {key : Bytes} {before : List (List Bytes)} {i : Nat}
    (h : firstWith key before = some i) (after : List (List Bytes)) :
    firstWith key (before ++ after) = some i := by
  rw [firstWith_append, h, Option.some_or]

theorem firstWith_more_of_some {key : Bytes} {before : List (List Bytes)} {keys : List Bytes}
    {i : Nat} (h : firstWith key (before ++ [keys]) = some i) (more : List Bytes) :
    firstWith key (before ++ [keys ++ more]) = some i := by
  induction more generalizing keys with
  | nil => rwa [List.append_nil]
  | cons k more ih =>
    rw [List.append_cons keys k more]
    refine ih ?_
    rw [firstWith_snoc, h, Option.some_or]

theorem settled_of_both {seen : Seen} {i j : Nat} (hf : seen.fieldsAt = some i)
    (hs : seen.schemaAt = some j) : seen.settled = .error (.error (.mixed i j)) := by
  simp [Seen.settled, hf, hs]

theorem settled_cases (seen : Seen) :
    seen.settled = .ok seen ∨ ∃ i j, seen.fieldsAt = some i ∧ seen.schemaAt = some j := by
  cases hf : seen.fieldsAt with
  | none => exact .inl (by simp [Seen.settled, hf])
  | some i =>
    cases hs : seen.schemaAt with
    | none => exact .inl (by simp [Seen.settled, hs])
    | some j => exact .inr ⟨i, j, rfl, rfl⟩

theorem record_eq_settled (seen : Seen) (k : Bytes) (n : Nat) :
    seen.record k n =
      Seen.settled ⟨seen.fieldsAt.or (if k = fieldsKey then some n else none),
        seen.schemaAt.or (if k = schemaKey then some n else none)⟩ := by
  have hne : fieldsKey ≠ schemaKey := by decide
  obtain ⟨f, s⟩ := seen
  by_cases hf : k = fieldsKey
  · cases f <;> cases s <;> simp [Seen.record, Seen.settled, hf, hne]
  · by_cases hs : k = schemaKey
    · cases f <;> cases s <;> simp [Seen.record, Seen.settled, hs, Ne.symm hne]
    · cases f <;> cases s <;> simp [Seen.record, Seen.settled, hf, hs]

/-- Recording a key of the last object. -/
theorem record_of (before : List (List Bytes)) (keys : List Bytes) (k : Bytes) :
    (Seen.of (before ++ [keys])).record k before.length =
      (Seen.of (before ++ [keys ++ [k]])).settled := by
  rw [record_eq_settled]
  simp only [Seen.of, firstWith_snoc]

/-- Recording keys of the last object, as long as there is no verdict yet. -/
theorem recordAll_of {before : List (List Bytes)} {keys : List Bytes}
    (h : (Seen.of (before ++ [keys])).settled = .ok (Seen.of (before ++ [keys])))
    (more : List Bytes) :
    (Seen.of (before ++ [keys])).recordAll more before.length =
      (Seen.of (before ++ [keys ++ more])).settled := by
  induction more generalizing keys with
  | nil => rw [List.append_nil, h]; rfl
  | cons k more ih =>
    rw [Seen.recordAll, List.foldlM_cons, record_of, List.append_cons keys k more]
    rcases settled_cases (Seen.of (before ++ [keys ++ [k]])) with hk | ⟨i, j, hf, hs⟩
    · rw [hk]
      exact ih hk
    · have hf' : (Seen.of (before ++ [keys ++ [k] ++ more])).fieldsAt = some i :=
        firstWith_more_of_some hf more
      have hs' : (Seen.of (before ++ [keys ++ [k] ++ more])).schemaAt = some j :=
        firstWith_more_of_some hs more
      rw [settled_of_both hf hs, settled_of_both hf' hs']
      rfl

/-- Recording the items of the outermost list, as long as there is no verdict yet. -/
theorem foldlM_item (before : List (List Bytes))
    (h : (Seen.of before).settled = .ok (Seen.of before)) (items : List Tree) :
    items.foldlM Seen.item (Seen.of before, before.length) =
      (Seen.of (before ++ objectKeys items)).settled.map fun seen =>
        (seen, (before ++ objectKeys items).length) := by
  induction items generalizing before with
  | nil => simp [objectKeys, h, Except.map, pure, Except.pure]
  | cons tree items ih =>
    rw [List.foldlM_cons]
    cases tree with
    | word _ | number _ | string _ | list _ => exact ih before h
    | object members =>
      have hempty : Seen.of before = Seen.of (before ++ [[]]) := by
        simp [Seen.of, firstWith_nil]
      have hall : (Seen.of before).recordAll (members.map Prod.fst) before.length =
          (Seen.of (before ++ [members.map Prod.fst])).settled := by
        rw [hempty] at h ⊢
        exact recordAll_of h _
      simp only [Seen.item, objectKeys, hall]
      rw [List.append_cons before _ (objectKeys items)]
      rcases settled_cases (Seen.of (before ++ [members.map Prod.fst])) with hk | ⟨i, j, hf, hs⟩
      · rw [hk, ← ih _ hk, List.length_append]
        rfl
      · have hf' : (Seen.of (before ++ [members.map Prod.fst] ++ objectKeys items)).fieldsAt =
            some i := firstWith_append_of_some hf _
        have hs' : (Seen.of (before ++ [members.map Prod.fst] ++ objectKeys items)).schemaAt =
            some j := firstWith_append_of_some hs _
        rw [settled_of_both hf hs, settled_of_both hf' hs']
        rfl

theorem encode_fields : Utf8.encode "fields" = fieldsKey := by decide

theorem encode_schema : Utf8.encode "schema" = schemaKey := by decide

/-- The record of all objects decides as the tree does. -/
theorem settled_objectKeys (items : List Tree) :
    (match (Seen.of (objectKeys items)).settled with
      | .ok seen => .ok seen.dialect
      | .error v => v) = classify items := by
  unfold classify
  rw [encode_fields, encode_schema]
  simp only [Seen.settled, Seen.of]
  cases hf : firstWith fieldsKey (objectKeys items) <;>
    cases hs : firstWith schemaKey (objectKeys items) <;> rfl

/-! ## Documents -/

/-- The outermost list up to its closing bracket decides; what follows is not looked at. -/
theorem run_list {items : List Tree} {text : Bytes} (h : SpellsItems items text) (offset : Nat)
    (rest : Bytes) :
    Scan.run ⟨offset, [.square], 0, false, {}, none⟩ (text ++ Ascii.closeSquare :: rest) =
      classify items := by
  have hleads := Scan.leads_items h ⟨offset, [.square], 0, false, {}, none⟩ ⟨rfl, rfl⟩
  have hfold := foldlM_item [] rfl items
  rw [show (({} : Seen), 0) = (Seen.of [], ([] : List (List Bytes)).length) from rfl, hfold,
    List.nil_append] at hleads
  rw [← settled_objectKeys]
  cases hr : (Seen.of (objectKeys items)).settled with
  | error v =>
    rw [hr] at hleads
    exact hleads _
  | ok seen =>
    rw [hr] at hleads
    obtain ⟨t, ht, hseen, -, hrun⟩ := hleads
    rw [hrun]
    refine Scan.run_error ?_ rest
    rw [show Ascii.closeSquare = Bracket.square.closing from rfl, Scan.step_close ht.string]
    simp [Scan.closing, ht.opened, hseen]

theorem isBlank_of_separator {b : UInt8} (h : isSeparator b) : Ascii.isBlank b := by
  simp only [isSeparator, Bool.or_eq_true, beq_iff_eq] at h
  simp only [Ascii.isBlank, Bool.or_eq_true, beq_iff_eq]
  rcases h with ((h | h) | h) | h <;> simp [h]

/-- What is classified, once the byte order mark is off. -/
theorem detect_of_withoutMark {items : List Tree} {bytes text rest : Bytes}
    (h : SpellsPadded (.list items) text) (hd : withoutMark bytes = text ++ rest) :
    detect bytes = classify items := by
  obtain ⟨hb, hv, ha⟩ := h
  rename_i before value after
  cases hv with
  | @list items inner hi =>
    have htext : before ++ (Ascii.openSquare :: (inner ++ [Ascii.closeSquare]) ++ after) ++ rest =
        before ++ Ascii.openSquare :: (inner ++ Ascii.closeSquare :: (after ++ rest)) := by
      simp
    have hdrop : List.dropWhile Ascii.isBlank
        (before ++ Ascii.openSquare :: (inner ++ Ascii.closeSquare :: (after ++ rest))) =
        Ascii.openSquare :: (inner ++ Ascii.closeSquare :: (after ++ rest)) := by
      rw [List.dropWhile_append_of_pos fun b hb' => isBlank_of_separator (hb b hb')]
      rfl
    rw [htext] at hd
    unfold detect
    simp only [hd, hdrop, ↓reduceIte]
    exact run_list hi _ _

theorem withoutMark_mark (bytes : Bytes) : withoutMark (byteOrderMark ++ bytes) = bytes := by
  simp [withoutMark, byteOrderMark, List.isPrefixOf]

theorem withoutMark_cons {b : UInt8} (h : b ≠ 0xef) (rest : Bytes) :
    withoutMark (b :: rest) = b :: rest := by
  simp [withoutMark, byteOrderMark, List.isPrefixOf, Ne.symm h]

/-- A list starts with its bracket or with white space, so it has no byte order mark. -/
theorem withoutMark_list {items : List Tree} {text : Bytes} (h : SpellsPadded (.list items) text)
    (rest : Bytes) : withoutMark (text ++ rest) = text ++ rest := by
  have hhead : ∃ b s, text = b :: s ∧ b ≠ 0xef := by
    obtain ⟨hb, hv, -⟩ := h
    rename_i before value after
    cases hv with
    | @list _ inner _ =>
      cases before with
      | nil => exact ⟨Ascii.openSquare, _, rfl, by decide⟩
      | cons b before =>
        refine ⟨b, _, rfl, ?_⟩
        rintro rfl
        exact absurd (hb _ List.mem_cons_self) (by decide)
  obtain ⟨b, s, rfl, hb⟩ := hhead
  exact withoutMark_cons hb _

/-- Every text whose outermost value is a list is classified as its tree says, with or without a
byte order mark, and whatever bytes follow it. -/
theorem detect_eq_classify {items : List Tree} {text mark : Bytes}
    (h : SpellsPadded (.list items) text) (hm : mark ∈ [[], byteOrderMark]) (rest : Bytes) :
    detect (mark ++ text ++ rest) = classify items := by
  simp only [List.mem_cons, List.not_mem_nil, or_false] at hm
  rcases hm with rfl | rfl
  · exact detect_of_withoutMark h (withoutMark_list h rest)
  · rw [List.append_assoc]
    exact detect_of_withoutMark h (withoutMark_mark _)

/-- An escaped quotation mark, a key below a collection, an item that is no object: the first object
has one of the keys, and the second object the other. -/
def bothKeysText : Bytes :=
  Utf8.encode
    (" [\x7b\"a\\\"\":[\x7b\"schema\":null\x7d],\"fields\": []\x7d,"
      ++ "\"fields\",\x7b\"schema\":\"fields\"\x7d]\n")

def bothKeysItems : List Tree :=
  [.object [(Utf8.encode "a\\\"", .list [.object [(schemaKey, .word nullWord)]]),
    (fieldsKey, .list [])], .string fieldsKey, .object [(schemaKey, .string fieldsKey)]]

theorem detect_both_keys :
    SpellsPadded (.list bothKeysItems) bothKeysText ∧ byteOrderMark ∈ [[], byteOrderMark] ∧
      detect (byteOrderMark ++ bothKeysText ++ Utf8.encode "]\x7d\"") = .error (.mixed 0 1) := by
  have hf : Quoted fieldsKey := quoted_of_plain (by decide)
  have hs : Quoted schemaKey := quoted_of_plain (by decide)
  have ha : Quoted (Utf8.encode "a\\\"") :=
    .plain (by decide) (by decide) (by decide) (.escape (by decide) .nil)
  have hblank : ∀ b, isSeparator b → Blank [b] := by
    intro b hb c hc
    rwa [List.mem_singleton.mp hc]
  have hnull : SpellsMember (schemaKey, .word nullWord) _ :=
    (Spells.word (by decide)).bare.keyed hs
  have hempty : SpellsPadded (.list []) _ :=
    .mk (hblank Ascii.space (by decide)) (.list (.none blank_nil)) blank_nil
  have hfirst := (Spells.object (.more
    ((Spells.list (.last (Spells.object (.last hnull)).bare)).bare.keyed ha)
    (.last (hempty.keyed hf)))).bare
  have hsecond := (Spells.object (.last ((Spells.string hf).bare.keyed hs))).bare
  have hlist := Spells.list (.more hfirst (.more (Spells.string hf).bare (.last hsecond)))
  have h := SpellsPadded.mk (hblank Ascii.space (by decide)) hlist
    (hblank Ascii.lineFeed (by decide))
  exact ⟨h, by decide, detect_eq_classify h (by decide) _⟩

end TypedCollections.Schema.Dialect
