import TypedCollections.Proofs.Model.Remaining
import TypedCollections.Proofs.Model.Selection

/-!
What the selected fields are called, and what is said on the way. A field is given the identifier of
its key, or the least number behind it that makes another one; each choice is made with those before
it, so `Told` goes along the first declarations and says what holds of the fields so far.
-/

namespace TypedCollections

open Schema (DeclaredField Dialect)

namespace Selection

variable {dialect : Dialect} {collection : String} {declared done ds : List DeclaredField}
variable {s s' : Selection} {d : DeclaredField} {f : Field}

/-- An identifier is claimed as it is, or, if it is taken, with the least number from two on behind
it that is free. -/
def Claims (taken : List String) (identifier claimed : String) : Prop :=
  if identifier ∈ taken then
    ∃ n, 2 ≤ n ∧ claimed = identifier ++ toString n ∧ claimed ∉ taken ∧
      ∀ m, 2 ≤ m → m < n → identifier ++ toString m ∈ taken
  else claimed = identifier

/-- What is said about the first declaration of a name, when these are the fields in the end. -/
def remarks (collection : String) (fields : List Field) (d : DeclaredField) : List Warning :=
  if d.hidden ∧ d.required ∧ ¬d.system ∧ d.name ∉ ["id", "created", "updated"] then
    [.skippedHiddenRequired collection d.name]
  else
    match fields.find? fun f => f.key = d.name with
    | none => []
    | some f =>
      (if d.name ∉ ["created", "updated"] ∧ FieldType.ofKind? d.kind = none then
        [.lossyFallback collection d.name d.kind] else []) ++
      if Identifier.canonical? d.name = some f.identifier then []
      else [.identifierCollision collection d.name f.identifier]

/-! ## The least free number -/

theorem lt_suffix (taken : List String) (identifier : String) {m : Nat} (hm : 2 ≤ m)
    (hlt : m < suffix taken identifier) : identifier ++ toString m ∈ taken := by
  unfold suffix at hlt
  cases hfind : (List.range' 2 (taken.length + 1)).find? fun n =>
      identifier ++ toString n ∉ taken with
  | some n =>
    rw [hfind, Option.getD_some] at hlt
    simpa using (List.find?_range'_eq_some.mp hfind).2.2 m hm hlt
  | none =>
    rw [hfind, Option.getD_none] at hlt
    exact absurd hlt (Nat.not_lt.mpr hm)

theorem two_le_suffix (taken : List String) (identifier : String) : 2 ≤ suffix taken identifier := by
  unfold suffix
  cases hfind : (List.range' 2 (taken.length + 1)).find? fun n =>
      identifier ++ toString n ∉ taken with
  | some n => exact (List.mem_range'_1.mp (List.mem_of_find?_eq_some hfind)).1
  | none => exact Nat.le_refl 2

theorem claims_freeIdentifier (taken : List String) (identifier : String) :
    Claims taken identifier (freeIdentifier taken identifier) := by
  unfold Claims freeIdentifier
  split
  · exact ⟨_, two_le_suffix taken identifier, rfl, numbered_suffix_notMem taken identifier,
      fun m => lt_suffix taken identifier⟩
  · rfl

/-! ## One declaration -/

/-- The first declarations have names of their own. -/
theorem names_firsts_nodup : (declared : List DeclaredField) →
    ((firsts declared).map DeclaredField.name).Nodup
  | [] => .nil
  | d :: rest => by
    have ih := names_firsts_nodup (rest.filter fun later => later.name ≠ d.name)
    rw [firsts_cons, List.map_cons, List.nodup_cons]
    refine ⟨?_, ih⟩
    rw [firsts_filter fun name => decide (name ≠ d.name)]
    simp
termination_by declared => declared.length
decreasing_by exact Nat.lt_succ_of_le (List.length_filter_le _ _)

/-- What holds when these first declarations have been taken in. -/
structure Told (collection : String) (done : List DeclaredField) (s : Selection) : Prop where
  keys : (s.fields.map Field.key).Sublist (done.map DeclaredField.name)
  identifiers : ∀ before f after, s.fields = before ++ f :: after →
    ∃ identifier, Identifier.canonical? f.key = some identifier ∧
      Claims (before.map Field.identifier) identifier f.identifier
  warnings : s.warnings = done.flatMap (remarks collection s.fields)

theorem find?_eq_none_of_sublist (hkeys : (s.fields.map Field.key).Sublist
      (done.map DeclaredField.name)) (hnew : d.name ∉ done.map DeclaredField.name) :
    (s.fields.find? fun f => f.key = d.name) = none := by
  rw [List.find?_eq_none]
  intro f hf heq
  rw [decide_eq_true_eq] at heq
  exact hnew (heq ▸ hkeys.subset (List.mem_map_of_mem hf))

/-- A field behind the others does not change what is said about the declarations before it. -/
theorem Told.flatMap_remarks (h : Told collection done s)
    (hnew : f.key ∉ done.map DeclaredField.name) :
    done.flatMap (remarks collection (s.fields ++ [f])) = s.warnings := by
  rw [h.warnings]
  refine List.flatMap_congr fun d hd => ?_
  have hne : f.key ≠ d.name := fun heq => hnew (heq ▸ List.mem_map_of_mem hd)
  have hfind : ((s.fields ++ [f]).find? fun f => f.key = d.name) =
      s.fields.find? fun f => f.key = d.name := by
    simp [List.find?_append, hne]
  unfold remarks
  rw [hfind]

/-- A declaration that gives no field. -/
theorem Told.passed (h : Told collection done s) {warnings : List Warning}
    (hwarnings : remarks collection s.fields d = warnings) :
    Told collection (done ++ [d]) ⟨s.fields, s.warnings ++ warnings⟩ := by
  refine ⟨?_, h.identifiers, ?_⟩
  · rw [List.map_append]
    exact h.keys.trans (List.sublist_append_left _ _)
  · rw [List.flatMap_append, List.flatMap_singleton, hwarnings, ← h.warnings]

/-- A declaration that is left out is told if it must have a value and only its flag hides it. -/
theorem remarks_of_skipped (hskip : isSkipped d)
    (hnone : (s.fields.find? fun f => f.key = d.name) = none) :
    remarks collection s.fields d = skipWarnings collection d := by
  have hname : d.name ∉ ["id", "created", "updated"] := by
    rw [isSkipped, Bool.and_eq_true] at hskip
    exact of_decide_eq_true hskip.2
  unfold remarks skipWarnings
  rw [hnone]
  simp only [hname, not_false_eq_true, and_true, Bool.and_eq_true, and_assoc, Bool.not_eq_true',
    Bool.not_eq_true]

/-- The kind of a timestamp is not looked at. -/
theorem kindRemarks_eq (collection : String) (d : DeclaredField) :
    (if d.name ∉ ["created", "updated"] ∧ FieldType.ofKind? d.kind = none then
      [.lossyFallback collection d.name d.kind] else []) =
      if d.name ∈ timestampFields then [] else kindWarnings collection d := by
  unfold timestampFields kindWarnings
  by_cases hstamp : d.name ∈ ["created", "updated"]
  · rw [if_pos hstamp, if_neg fun h => h.1 hstamp]
  · rw [if_neg hstamp]
    cases FieldType.ofKind? d.kind with
    | none => rw [if_pos ⟨hstamp, rfl⟩]
    | some base => rw [if_neg (by simp)]

/-- A declaration that is not left out is told by its field. -/
theorem remarks_of_kept (hkeep : isSkipped d = false) (fields : List Field) :
    remarks collection fields d =
      match fields.find? fun f => f.key = d.name with
      | none => []
      | some f =>
        (if d.name ∈ timestampFields then [] else kindWarnings collection d) ++
        if Identifier.canonical? d.name = some f.identifier then []
        else [.identifierCollision collection d.name f.identifier] := by
  have hplain : ¬(d.hidden ∧ d.required ∧ ¬d.system ∧ d.name ∉ ["id", "created", "updated"]) := by
    rintro ⟨hhidden, -, -, hname⟩
    have hskip : isSkipped d = true := by
      rw [isSkipped, hhidden, Bool.true_or, Bool.true_and]
      exact decide_eq_true hname
    rw [hskip] at hkeep
    cases hkeep
  unfold remarks
  rw [if_neg hplain]
  simp only [kindRemarks_eq]

theorem Told.claim (h : Told collection done s) (hnew : d.name ∉ done.map DeclaredField.name)
    (hkeep : isSkipped d = false) (hf : fieldOf collection d = .ok f) :
    Told collection (done ++ [d]) (claim collection s f
      (if d.name ∈ timestampFields then [] else kindWarnings collection d)) := by
  obtain ⟨hcanonical, hkey, -⟩ := fieldOf_ok hf
  have hnone := find?_eq_none_of_sublist h.keys hnew
  have hclaims := claims_freeIdentifier (s.fields.map Field.identifier) f.identifier
  unfold Selection.claim
  dsimp only
  generalize freeIdentifier (s.fields.map Field.identifier) f.identifier = identifier at hclaims
  refine ⟨?_, ?_, ?_⟩
  · rw [List.map_append, List.map_append]
    exact h.keys.append (by simp [hkey])
  · intro before g after heq
    rcases List.eq_nil_or_concat after with rfl | ⟨after, last, rfl⟩
    · obtain ⟨rfl, hg⟩ := List.append_inj' heq rfl
      cases hg
      exact ⟨f.identifier, hkey ▸ hcanonical, hclaims⟩
    · rw [List.concat_eq_append, ← List.cons_append, ← List.append_assoc] at heq
      exact h.identifiers before g after (List.append_inj' heq rfl).1
  · have hfind : ((s.fields ++ [{ f with identifier }]).find? fun f => f.key = d.name) =
        some { f with identifier } := by
      simp [List.find?_append, hnone, hkey]
    rw [List.flatMap_append, List.flatMap_singleton,
      h.flatMap_remarks (f := { f with identifier }) (hkey ▸ hnew), remarks_of_kept hkeep, hfind,
      hcanonical, List.append_assoc]
    simp only [Option.some.injEq, eq_comm, hkey]

theorem Told.takeIn (h : Told collection done s) (hnew : d.name ∉ done.map DeclaredField.name)
    (htaken : takeIn dialect collection s d = .ok s') : Told collection (done ++ [d]) s' := by
  have hnone := find?_eq_none_of_sublist h.keys hnew
  unfold Selection.takeIn at htaken
  split at htaken
  · next hskip =>
    cases htaken
    exact h.passed (remarks_of_skipped hskip hnone)
  next hkeep =>
  have hkeep : isSkipped d = false := by simpa using hkeep
  split at htaken
  · next hstamp =>
    split at htaken
    · cases htaken
      have hremarks : remarks collection s.fields d = [] := by
        rw [remarks_of_kept hkeep, hnone]
      have hpassed := h.passed hremarks
      rwa [List.append_nil] at hpassed
    · obtain ⟨f, hf, rfl⟩ := Stopping.map_ok htaken
      have hclaim := h.claim hnew hkeep hf
      rwa [if_pos hstamp] at hclaim
  · next hstamp =>
    obtain ⟨f, hf, rfl⟩ := Stopping.map_ok htaken
    have hclaim := h.claim hnew hkeep hf
    rwa [if_neg hstamp] at hclaim

/-! ## All declarations -/

theorem Told.foldlM (h : Told collection done s)
    (hnodup : ((done ++ ds).map DeclaredField.name).Nodup)
    (hfold : ds.foldlM (Selection.takeIn dialect collection) s = .ok s') :
    Told collection (done ++ ds) s' := by
  induction ds generalizing done s with
  | nil =>
    cases hfold
    rwa [List.append_nil]
  | cons d ds ih =>
    rw [List.foldlM_cons] at hfold
    obtain ⟨t, htaken, hfold⟩ := Stopping.bind_ok hfold
    rw [List.append_cons] at hnodup ⊢
    refine ih (h.takeIn ?_ htaken) hnodup hfold
    rw [List.map_append, List.map_append] at hnodup
    exact fun hmem => (List.nodup_append.mp (List.nodup_append.mp hnodup).1).2.2 _ hmem _
      List.mem_cons_self rfl

theorem told_of (h : Selection.of dialect collection declared = .ok s) :
    Told collection (firsts declared) s := by
  rw [of_eq_foldlM_takeIn] at h
  have hstart : Told collection [] ⟨[], []⟩ := ⟨.slnil, by simp, rfl⟩
  exact hstart.foldlM (names_firsts_nodup declared) h

/-- The fields of a successful selection come in the order of their first declarations and have
identifiers of their own. Each is called after its key, or, exactly if a field before it has that
identifier already, with the least number from two on behind it that none of them has. The warnings
are those about the first declarations, in their order. -/
theorem identifiers_of {dialect : Dialect} {collection : String} {declared : List DeclaredField}
    {s : Selection} (h : Selection.of dialect collection declared = .ok s) :
    (s.fields.map Field.key).Sublist ((firsts declared).map DeclaredField.name) ∧
      (s.fields.map Field.identifier).Nodup ∧
      (∀ before f after, s.fields = before ++ f :: after →
        ∃ identifier, Identifier.canonical? f.key = some identifier ∧
          Claims (before.map Field.identifier) identifier f.identifier) ∧
      s.warnings = (firsts declared).flatMap (remarks collection s.fields) := by
  have htold := told_of h
  exact ⟨htold.keys, (distinct_of h).identifiers, htold.identifiers, htold.warnings⟩

/-- A renamed field takes the identifier of a field behind it, and a name is declared twice. -/
def clashingNames : List DeclaredField :=
  [{ name := "user_name", kind := "text", required := true }, { name := "userName", kind := "vector" },
    { name := "secret", kind := "text", required := true, hidden := true },
    { name := "userName2", kind := "json" }, { name := "secret", kind := "text" }]

def clashingSelection : Selection where
  fields := [⟨"UserName", "user_name", ⟨.text, false⟩⟩, ⟨"UserName2", "userName", ⟨.text, true⟩⟩,
    ⟨"UserName22", "userName2", ⟨.json, false⟩⟩]
  warnings := [.lossyFallback "users" "userName" "vector",
    .identifierCollision "users" "userName" "UserName2", .skippedHiddenRequired "users" "secret",
    .identifierCollision "users" "userName2" "UserName22"]

theorem identifiers_of_clashingNames :
    Selection.of .latest "users" clashingNames = .ok clashingSelection ∧
      (clashingSelection.fields.map Field.identifier).Nodup ∧
      Claims ["UserName", "UserName2"] "UserName2" "UserName22" ∧
      clashingSelection.warnings =
        (firsts clashingNames).flatMap (remarks "users" clashingSelection.fields) := by
  have hof : Selection.of .latest "users" clashingNames = .ok clashingSelection := by
    decide +kernel
  obtain ⟨-, hnodup, hclaims, hwarnings⟩ := identifiers_of hof
  obtain ⟨identifier, hcanonical, hclaims⟩ :=
    hclaims [⟨"UserName", "user_name", ⟨.text, false⟩⟩, ⟨"UserName2", "userName", ⟨.text, true⟩⟩]
      ⟨"UserName22", "userName2", ⟨.json, false⟩⟩ [] rfl
  have hown : Identifier.canonical? "userName2" = some "UserName2" := by decide +kernel
  obtain rfl : "UserName2" = identifier := Option.some.inj (hown.symm.trans hcanonical)
  exact ⟨hof, hnodup, hclaims, hwarnings⟩

end Selection
end TypedCollections
