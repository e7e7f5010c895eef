import Mathlib.Data.List.Nodup
import Mathlib.Data.List.Perm.Subperm
import TypedCollections.Model.Field
import TypedCollections.Proofs.Naming.Identifier
import TypedCollections.Proofs.Stopping

/-!
The fields that a walk through declarations selects. `Turn` says what one declaration does to the
walk, and `Sound` what holds of the walk after each of them: no two fields have one identifier or
one key, and no key stands for two declarations.
-/

namespace TypedCollections

open Schema (DeclaredField Dialect)

namespace Selection

/-! Free identifiers. Each number gives another identifier, so one of the first `taken.length + 1`
candidates is not taken. -/

theorem numbered_injective (identifier : String) {m n : Nat}
    (h : identifier ++ toString m = identifier ++ toString n) : m = n := by
  have hd : Nat.toDigits 10 m = Nat.toDigits 10 n := by
    have hl := congrArg String.toList h
    simp only [String.toList_append, Nat.toString_eq_repr, Nat.toList_repr] at hl
    exact List.append_cancel_left hl
  have hn := congrArg (fun digits => Nat.ofDigitChars 10 digits 0) hd
  simpa using hn

theorem exists_free (taken : List String) (identifier : String) :
    ∃ n ∈ List.range' 2 (taken.length + 1), identifier ++ toString n ∉ taken := by
  apply Classical.byContradiction
  intro hnone
  let candidates := (List.range' 2 (taken.length + 1)).map fun n => identifier ++ toString n
  have hsub : candidates ⊆ taken := by
    intro name hname
    obtain ⟨n, hn, rfl⟩ := List.mem_map.mp hname
    exact Classical.byContradiction fun h => hnone ⟨n, hn, h⟩
  have hnodup : candidates.Nodup :=
    (List.nodup_range' 1).map fun _ _ h => numbered_injective identifier h
  have hlength := (hnodup.subperm hsub).length_le
  simp only [candidates, List.length_map, List.length_range'] at hlength
  omega

theorem numbered_suffix_notMem (taken : List String) (identifier : String) :
    identifier ++ toString (suffix taken identifier) ∉ taken := by
  unfold suffix
  cases hfind : (List.range' 2 (taken.length + 1)).find? fun n =>
      identifier ++ toString n ∉ taken with
  | some n => simpa using List.find?_some hfind
  | none =>
    obtain ⟨n, hn, hfree⟩ := exists_free taken identifier
    exact absurd hfree (by simpa using List.find?_eq_none.mp hfind n hn)

theorem freeIdentifier_notMem (taken : List String) (identifier : String) :
    freeIdentifier taken identifier ∉ taken := by
  unfold freeIdentifier
  split
  · exact numbered_suffix_notMem taken identifier
  · assumption

theorem isPascal_freeIdentifier (taken : List String) {identifier : String}
    (h : Identifier.IsPascal identifier.toList) :
    Identifier.IsPascal (freeIdentifier taken identifier).toList := by
  unfold freeIdentifier
  split
  · exact h.numbered _
  · exact h

/-! One declaration. -/

/-- What is known of the field of a declaration. -/
theorem fieldOf_ok {collection : String} {d : DeclaredField} {f : Field}
    (h : fieldOf collection d = .ok f) :
    Identifier.canonical? d.name = some f.identifier ∧ f.key = d.name ∧
      f.type =
        if d.name ∈ timestampFields then ⟨.dateTime, false⟩ else .ofKind d.kind d.required := by
  unfold fieldOf at h
  simp only [bind, Except.bind, throw, throwThe, MonadExceptOf.throw, pure, Except.pure] at h
  split at h
  · cases h
  · split at h
    · cases h
    · next hname =>
      cases h
      exact ⟨hname, rfl, rfl⟩

/-- What a declaration does to a walk. -/
inductive Turn (dialect : Dialect) (collection : String) (w : Walk) (d : DeclaredField) :
    Walk → Prop
  | repeated (met : d.name ∈ w.met) : Turn dialect collection w d w
  | skipped (new : d.name ∉ w.met) (skip : isSkipped d) :
    Turn dialect collection w d ⟨d.name :: w.met, w.selection.fields,
      w.selection.warnings ++ skipWarnings collection d⟩
  | shared (new : d.name ∉ w.met) (keep : isSkipped d = false)
      (timestamp : d.name ∈ timestampFields) (shares : dialect.sharesTimestamps) :
    Turn dialect collection w d ⟨d.name :: w.met, w.selection⟩
  | claimed (new : d.name ∉ w.met) (keep : isSkipped d = false)
      (own : dialect.sharesTimestamps → d.name ∉ timestampFields) (f : Field)
      (field : fieldOf collection d = .ok f) :
    Turn dialect collection w d ⟨d.name :: w.met, claim collection w.selection f
      (if d.name ∈ timestampFields then [] else kindWarnings collection d)⟩

theorem turn_of_step {dialect : Dialect} {collection : String} {w w' : Walk} {d : DeclaredField}
    (h : step dialect collection w d = .ok w') : Turn dialect collection w d w' := by
  unfold step at h
  split at h
  · next hmet =>
    cases h
    exact .repeated hmet
  next hnew =>
  simp only at h
  split at h
  · next hskip =>
    cases h
    exact .skipped hnew hskip
  next hkeep =>
  have hkeep : isSkipped d = false := by simpa using hkeep
  split at h
  · next hstamp =>
    split at h
    · next hshares =>
      cases h
      exact .shared hnew hkeep hstamp hshares
    · next hshares =>
      obtain ⟨f, hf, rfl⟩ := Stopping.map_ok h
      have hturn : Turn dialect collection w d _ :=
        .claimed hnew hkeep (fun h => absurd h hshares) f hf
      rwa [if_pos hstamp] at hturn
  · next hstamp =>
    obtain ⟨f, hf, rfl⟩ := Stopping.map_ok h
    have hturn : Turn dialect collection w d _ := .claimed hnew hkeep (fun _ => hstamp) f hf
    rwa [if_neg hstamp] at hturn

/-! The walk. -/

/-- What holds of the fields of a collection whatever was declared. -/
structure Distinct (dialect : Dialect) (fields : List Field) : Prop where
  pascal : ∀ f ∈ fields, Identifier.IsPascal f.identifier.toList
  identifiers : (fields.map Field.identifier).Nodup
  keys : (fields.map Field.key).Nodup
  /-- Shared timestamps are no fields. -/
  stamps : dialect.sharesTimestamps → ∀ f ∈ fields, f.key ∉ timestampFields
  /-- Only a type without a zero value of its own allows for a missing one. -/
  nullable : ∀ f ∈ fields, f.type.optional → f.type.base.isNullable

/-- What holds between two declarations. -/
structure Sound (dialect : Dialect) (w : Walk) : Prop where
  fields : Distinct dialect w.selection.fields
  met : ∀ f ∈ w.selection.fields, f.key ∈ w.met

theorem isNullable_of_fieldOf {collection : String} {d : DeclaredField} {f : Field}
    (h : fieldOf collection d = .ok f) (ho : f.type.optional) : f.type.base.isNullable := by
  rw [(fieldOf_ok h).2.2] at ho ⊢
  split at ho
  · cases ho
  · next hstamp =>
    rw [if_neg hstamp]
    simp only [MemberType.ofKind, Bool.and_eq_true] at ho ⊢
    exact ho.2

/-- A field with a key of its own stays apart from the others. -/
theorem Distinct.claim {dialect : Dialect} {collection : String} {s : Selection} {d : DeclaredField}
    {f : Field} {warnings : List Warning} (hs : Distinct dialect s.fields)
    (hf : fieldOf collection d = .ok f) (hnew : ∀ g ∈ s.fields, g.key ≠ d.name)
    (hown : dialect.sharesTimestamps → d.name ∉ timestampFields) :
    Distinct dialect (Selection.claim collection s f warnings).fields := by
  obtain ⟨hname, hkey, -⟩ := fieldOf_ok hf
  have hfree := freeIdentifier_notMem (s.fields.map Field.identifier) f.identifier
  have hpascal := isPascal_freeIdentifier (s.fields.map Field.identifier)
    (Identifier.isPascal_of_canonical? hname)
  refine ⟨?_, ?_, ?_, ?_, ?_⟩
  · simpa [Selection.claim, or_imp, forall_and] using ⟨hs.pascal, hpascal⟩
  · simp only [Selection.claim, List.map_append, List.map_cons, List.map_nil]
    exact hs.identifiers.append (List.nodup_singleton _) (by simpa using hfree)
  · simp only [Selection.claim, List.map_append, List.map_cons, List.map_nil, hkey]
    refine hs.keys.append (List.nodup_singleton _) ?_
    simpa using hnew
  · intro hshares
    simpa [Selection.claim, or_imp, forall_and, hkey] using ⟨hs.stamps hshares, hown hshares⟩
  · simpa [Selection.claim, or_imp, forall_and] using
      ⟨hs.nullable, isNullable_of_fieldOf hf⟩

theorem Sound.step {dialect : Dialect} {collection : String} {w w' : Walk} {d : DeclaredField}
    (hw : Sound dialect w) (h : step dialect collection w d = .ok w') : Sound dialect w' := by
  have hmet : ∀ f ∈ w.selection.fields, f.key ∈ d.name :: w.met :=
    fun f hf => List.mem_cons_of_mem _ (hw.met f hf)
  cases turn_of_step h with
  | repeated => exact hw
  | skipped => exact ⟨hw.fields, hmet⟩
  | shared => exact ⟨hw.fields, hmet⟩
  | claimed hnew _ hown f hf =>
    have hkeys : ∀ g ∈ w.selection.fields, g.key ≠ d.name :=
      fun g hg he => hnew (he ▸ hw.met g hg)
    refine ⟨hw.fields.claim hf hkeys hown, ?_⟩
    have hkey := (fieldOf_ok hf).2.1
    simpa [claim, or_imp, forall_and, hkey] using fun g hg => Or.inr (hw.met g hg)

theorem distinct_of {dialect : Dialect} {collection : String} {declared : List DeclaredField}
    {s : Selection} (h : Selection.of dialect collection declared = .ok s) :
    Distinct dialect s.fields := by
  obtain ⟨w, hw, rfl⟩ := Stopping.map_ok h
  have hstart : Sound dialect ⟨[], ⟨[], []⟩⟩ := by
    constructor
    · constructor <;> simp
    · simp
  exact (Stopping.foldlM_invariant (fun _ _ _ => Sound.step) hstart hw).fields

end Selection
end TypedCollections
