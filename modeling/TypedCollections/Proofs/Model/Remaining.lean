import TypedCollections.Model.Field
import TypedCollections.Proofs.Naming.Identifier
import TypedCollections.Proofs.Stopping

/-!
The walk through the declarations of a collection, told without a walk. Of the first declarations of
each name those that are left out are dropped; the others stop at their first fault or give one
field each, in order. `of_eq_foldlM_takeIn` takes the names that were met out of the walk. What is
left is a fold over first declarations, in which the dialects differ at the timestamps only.
-/

namespace TypedCollections

open Schema (DeclaredField Dialect)

/-- What is said of a field besides its identifier. -/
structure Description where
  key : String
  base : FieldType
  optional : Bool
  accessor : Accessor
  typeCode : String
  baseCode : String
  deriving DecidableEq, Repr

def Description.ofType (key : String) (t : MemberType) : Description :=
  ⟨key, t.base, t.optional, t.accessor, t.code, t.base.code⟩

def Field.description (f : Field) : Description := .ofType f.key f.type

/-- What a declaration says of its field. A timestamp is one whatever its kind and its flags. -/
def Schema.DeclaredField.description (d : DeclaredField) : Description :=
  if d.name ∈ ["created", "updated"] then
    ⟨d.name, .dateTime, false, .timestamp, "DateTime", "DateTime"⟩
  else .ofType d.name (.ofKind d.kind d.required)

namespace Selection

/-- The first declaration of each name. -/
def firsts (declared : List DeclaredField) : List DeclaredField :=
  declared.eraseDupsBy fun later earlier => later.name == earlier.name

/-- Does a declaration belong to the model? -/
def remains (dialect : Dialect) (d : DeclaredField) : Bool :=
  (!(d.hidden || d.system) || d.name ∈ ["id", "created", "updated"]) &&
    (dialect != .legacy || d.name ∉ ["created", "updated"])

/-- What stops the selection at a declaration. -/
def fault? (collection : String) (d : DeclaredField) : Option Diagnostic :=
  if d.name ∈ ["created", "updated"] then none
  else if d.required ∧ FieldType.ofKind? d.kind = none then
    some (.unmappableField "" collection d.name d.kind)
  else if d.name = "" then some (.unnamedField "" collection)
  else none

variable {dialect : Dialect} {collection : String} {s : Selection} {d : DeclaredField}

/-! ## First declarations -/

theorem firsts_cons (d : DeclaredField) (rest : List DeclaredField) :
    firsts (d :: rest) = d :: firsts (rest.filter fun later => later.name ≠ d.name) := by
  simp [firsts, List.eraseDupsBy_cons]

/-- Whether a name is left out before the repetitions are or behind them makes no difference. -/
theorem firsts_filter (p : String → Bool) : (declared : List DeclaredField) →
    firsts (declared.filter fun d => p d.name) = (firsts declared).filter fun d => p d.name
  | [] => rfl
  | d :: rest => by
    have ih := firsts_filter p (rest.filter fun later => later.name ≠ d.name)
    rw [firsts_cons]
    by_cases h : p d.name
    · rw [List.filter_cons, if_pos h, List.filter_cons, if_pos h, firsts_cons, ← ih,
        List.filter_filter, List.filter_filter]
      simp only [Bool.and_comm]
    · -- a name that is kept is not the one of `d`
      have hkept : ∀ later ∈ rest,
          (p later.name && decide (later.name ≠ d.name)) = p later.name := by
        intro later _
        by_cases heq : later.name = d.name <;> simp [heq, h]
      rw [List.filter_cons, if_neg h, List.filter_cons, if_neg h, ← ih, List.filter_filter,
        List.filter_congr hkept]
termination_by declared => declared.length
decreasing_by exact Nat.lt_succ_of_le (List.length_filter_le _ _)

/-- What a declaration does to the selection if no earlier one has its name. -/
def takeIn (dialect : Dialect) (collection : String) (s : Selection) (d : DeclaredField) :
    Except Diagnostic Selection :=
  if isSkipped d then .ok { s with warnings := s.warnings ++ skipWarnings collection d }
  else if d.name ∈ timestampFields then
    if dialect.sharesTimestamps then .ok s
    else (fieldOf collection d).map fun f => claim collection s f []
  else (fieldOf collection d).map fun f => claim collection s f (kindWarnings collection d)

theorem step_of_met {w : Walk} (h : d.name ∈ w.met) : step dialect collection w d = .ok w := by
  simp [step, h]

theorem step_of_new {w : Walk} (h : d.name ∉ w.met) :
    step dialect collection w d =
      (takeIn dialect collection w.selection d).map fun s => ⟨d.name :: w.met, s⟩ := by
  unfold step takeIn
  rw [if_neg h]
  dsimp only
  split
  · rfl
  · split
    · split
      · rfl
      · cases fieldOf collection d <;> rfl
    · cases fieldOf collection d <;> rfl

/-- A walk that has met some names goes on as a fold over the first declarations of the others. -/
theorem foldlM_step (declared : List DeclaredField) (w : Walk) :
    (declared.foldlM (step dialect collection) w).map Walk.selection =
      (firsts (declared.filter fun d => d.name ∉ w.met)).foldlM (takeIn dialect collection)
        w.selection := by
  induction declared generalizing w with
  | nil => rfl
  | cons d rest ih =>
    rw [List.foldlM_cons]
    by_cases h : d.name ∈ w.met
    · rw [step_of_met h, List.filter_cons_of_neg (by simpa using h)]
      exact ih w
    · have hrest : (rest.filter fun later => later.name ∉ w.met).filter
          (fun later => later.name ≠ d.name) =
          rest.filter fun later => later.name ∉ d.name :: w.met := by
        rw [List.filter_filter]
        simp only [List.mem_cons, not_or, Bool.decide_and]
      rw [step_of_new h, List.filter_cons_of_pos (by simpa using h), firsts_cons, hrest,
        List.foldlM_cons]
      cases takeIn dialect collection w.selection d with
      | error e => rfl
      | ok s => exact ih ⟨d.name :: w.met, s⟩

theorem of_eq_foldlM_takeIn (dialect : Dialect) (collection : String)
    (declared : List DeclaredField) :
    Selection.of dialect collection declared =
      (firsts declared).foldlM (takeIn dialect collection) ⟨[], []⟩ := by
  have hall : (declared.filter fun d => d.name ∉ ([] : List String)) = declared := by simp
  rw [Selection.of, foldlM_step, hall]

/-! ## Remaining declarations -/

theorem remains_eq_false_iff (dialect : Dialect) (d : DeclaredField) :
    remains dialect d = false ↔
      isSkipped d ∨ d.name ∈ timestampFields ∧ dialect.sharesTimestamps := by
  have hlegacy : dialect.sharesTimestamps ↔ dialect = .legacy := by cases dialect <;> decide
  rw [hlegacy]
  unfold remains isSkipped conventionalFields timestampFields
  grind

/-- A declaration that does not remain leaves the fields as they are. -/
theorem takeIn_of_not_remains (collection : String) (s : Selection)
    (h : remains dialect d = false) :
    ∃ warnings, takeIn dialect collection s d = .ok ⟨s.fields, warnings⟩ := by
  unfold takeIn
  rcases (remains_eq_false_iff dialect d).mp h with hskip | ⟨hstamp, hshares⟩
  · rw [if_pos hskip]
    exact ⟨_, rfl⟩
  · rw [if_pos hstamp, if_pos hshares]
    split <;> exact ⟨_, rfl⟩

theorem takeIn_of_remains (h : remains dialect d) :
    takeIn dialect collection s d = (fieldOf collection d).map fun f =>
      claim collection s f
        (if d.name ∈ timestampFields then [] else kindWarnings collection d) := by
  have hneither : ¬(isSkipped d ∨ d.name ∈ timestampFields ∧ dialect.sharesTimestamps) := by
    rw [← remains_eq_false_iff, h]
    decide
  obtain ⟨hskip, hshared⟩ := not_or.mp hneither
  unfold takeIn
  rw [if_neg hskip]
  split
  · next hstamp => rw [if_neg fun hshares => hshared ⟨hstamp, hshares⟩]
  · rfl

/-- A declaration gives the field that it says, unless it is at fault. -/
theorem fieldOf_description (collection : String) (d : DeclaredField) :
    (fieldOf collection d).map Field.description =
      match fault? collection d with
      | some e => .error e
      | none => .ok d.description := by
  unfold fieldOf fault? DeclaredField.description
  simp only [bind, Except.bind, throw, throwThe, MonadExceptOf.throw, pure, Except.pure,
    timestampFields, Option.isNone_iff_eq_none]
  by_cases hstamp : d.name ∈ ["created", "updated"]
  · have hname : d.name ≠ "" := by
      intro heq
      rw [heq] at hstamp
      exact absurd hstamp (by decide)
    obtain ⟨identifier, hidentifier⟩ := Identifier.exists_canonical hname
    simp only [hstamp, hidentifier]
    rfl
  simp only [hstamp]
  by_cases hkind : d.required ∧ FieldType.ofKind? d.kind = none
  · simp only [hkind]
    rfl
  by_cases hname : d.name = ""
  · have hcanonical : Identifier.canonical? "" = none := rfl
    simp [hkind, hname, hcanonical, Except.map]
  · obtain ⟨identifier, hidentifier⟩ := Identifier.exists_canonical hname
    simp [hkind, hname, hidentifier, Except.map, Field.description]

theorem claim_description (s : Selection) (f : Field) (warnings : List Warning) :
    (claim collection s f warnings).fields.map Field.description =
      s.fields.map Field.description ++ [f.description] := by
  simp [claim, Field.description]

/-- The fold stops at the first remaining declaration that is at fault. Without one it puts what the
remaining declarations say behind what is said so far. -/
theorem foldlM_takeIn (dialect : Dialect) (collection : String) (ds : List DeclaredField)
    (s : Selection) :
    (ds.foldlM (takeIn dialect collection) s).map (fun s => s.fields.map Field.description) =
      match (ds.filter (remains dialect)).findSome? (fault? collection) with
      | some e => .error e
      | none => .ok (s.fields.map Field.description ++
          (ds.filter (remains dialect)).map DeclaredField.description) := by
  induction ds generalizing s with
  | nil => simp [pure, Except.pure, Except.map]
  | cons d ds ih =>
    rw [List.foldlM_cons]
    cases h : remains dialect d with
    | false =>
      obtain ⟨warnings, htaken⟩ := takeIn_of_not_remains collection s h
      rw [htaken, List.filter_cons_of_neg (by simp [h])]
      exact ih ⟨s.fields, warnings⟩
    | true =>
      have hfield := fieldOf_description collection d
      rw [takeIn_of_remains h, List.filter_cons_of_pos h, List.findSome?_cons, List.map_cons]
      cases hfault : fault? collection d with
      | some e =>
        rw [hfault] at hfield
        rw [Stopping.map_error hfield]
        rfl
      | none =>
        rw [hfault] at hfield
        obtain ⟨f, hf, hsame⟩ := Stopping.map_ok hfield
        rw [hf, List.append_cons, ← hsame, ← claim_description]
        exact ih _

/-- What stops a selection is the fault of a declaration. -/
theorem exists_fault_of_error {declared : List DeclaredField} {e : Diagnostic}
    (h : Selection.of dialect collection declared = .error e) :
    ∃ d, fault? collection d = some e := by
  have hfold := foldlM_takeIn dialect collection (firsts declared) ⟨[], []⟩
  rw [← of_eq_foldlM_takeIn, h] at hfold
  split at hfold
  · next e' hfault =>
    cases hfold
    obtain ⟨d, -, hd⟩ := List.exists_of_findSome?_eq_some hfault
    exact ⟨d, hd⟩
  · cases hfold

/-- The selection of any declarations. The first one of each name counts; the hidden and the system
ones are dropped unless they are named by convention, and so are the timestamps that all models of
the dialect share. Of those that remain, the first that is at fault stops the selection; without a
fault each of them gives the field that it says. -/
theorem of_eq_reference (dialect : Dialect) (collection : String) (declared : List DeclaredField) :
    (Selection.of dialect collection declared).map (fun s => s.fields.map Field.description) =
      match ((firsts declared).filter (remains dialect)).findSome? (fault? collection) with
      | some e => .error e
      | none =>
        .ok (((firsts declared).filter (remains dialect)).map DeclaredField.description) := by
  rw [of_eq_foldlM_takeIn, foldlM_takeIn]
  rfl

/-- A hidden declaration keeps a later one of its name out, and is not asked for its kind. -/
example : Selection.of .latest "notes"
    [{ name := "secret", kind := "none", required := true, hidden := true, system := true },
      { name := "secret", kind := "text" }] = .ok ⟨[], []⟩ := by decide

/-! ## Two dialects -/

theorem takeIn_legacy_timestamp (h : d.name ∈ timestampFields) :
    takeIn .legacy collection s d = .ok s := by
  have hkept : d.name ∈ conventionalFields := by
    simp only [timestampFields, List.mem_cons, List.not_mem_nil, or_false] at h
    rcases h with h | h <;> simp [h, conventionalFields]
  have hskip : isSkipped d = false := by simp [isSkipped, hkept]
  have hshares : Dialect.legacy.sharesTimestamps = true := rfl
  simp [takeIn, hskip, h, hshares]

theorem takeIn_legacy_other (h : d.name ∉ timestampFields) :
    takeIn .legacy collection s d = takeIn .latest collection s d := by
  simp [takeIn, h]

/-- The legacy dialect selects what the latest one selects of the declarations that are no
timestamps, with the same identifiers and warnings, and it fails where that fails. -/
theorem of_legacy_eq_of_latest (collection : String) (declared : List DeclaredField) :
    Selection.of .legacy collection declared =
      Selection.of .latest collection
        (declared.filter fun d => d.name ∉ ["created", "updated"]) := by
  rw [of_eq_foldlM_takeIn, of_eq_foldlM_takeIn,
    firsts_filter fun name => decide (name ∉ ["created", "updated"])]
  generalize firsts declared = ds
  generalize (⟨[], []⟩ : Selection) = s
  induction ds generalizing s with
  | nil => rfl
  | cons d ds ih =>
    rw [List.foldlM_cons]
    by_cases h : d.name ∈ ["created", "updated"]
    · have hdropped : ¬decide (d.name ∉ ["created", "updated"]) = true := by
        rw [decide_eq_true_eq]
        exact not_not_intro h
      rw [takeIn_legacy_timestamp h, List.filter_cons, if_neg hdropped]
      exact ih s
    · rw [takeIn_legacy_other h, List.filter_cons, if_pos (decide_eq_true h), List.foldlM_cons]
      cases takeIn .latest collection s d with
      | error e => rfl
      | ok t => exact ih t

end Selection
end TypedCollections
