import Mathlib.Data.List.Perm.Basic
import TypedCollections.Proofs.Json.Complete.Shapes
import TypedCollections.Proofs.Schema.Redeclaration

/-!
Edits of a tree that leave what a declaration with known keys says: the members of an object in
another order, and members that nobody asks for. The order of the known keys does not matter as
each is given once and fills in a part of its own.
-/
namespace TypedCollections.Json

variable {α σ ι : Type}

/-- One object of a tree, at any depth, has its members in another order. -/
inductive Reordered : Tree → Tree → Prop
  | members {members members'} : members.Perm members' →
      Reordered (.object members) (.object members')
  | item {before after tree tree'} : Reordered tree tree' →
      Reordered (.list (before ++ tree :: after)) (.list (before ++ tree' :: after))
  | value {before after key tree tree'} : Reordered tree tree' →
      Reordered (.object (before ++ (key, tree) :: after))
        (.object (before ++ (key, tree') :: after))

/-- An object has got one more member, of any value, under a key that is none of those given. -/
inductive Extended (keys : List String) : Tree → Tree → Prop
  | mk {before after raw key tree} : Denotes raw key → key ∉ keys →
      Extended keys (.object (before ++ after)) (.object (before ++ (raw, tree) :: after))

theorem Reordered.symm {tree tree' : Tree} (h : Reordered tree tree') : Reordered tree' tree := by
  induction h with
  | members hperm => exact .members hperm.symm
  | item _ ih => exact .item ih
  | value _ ih => exact .value ih

/-! ## Lists side by side -/

theorem map_fst_eq {β : Type} {R : α × β → α × β → Prop} {entries entries' : List (α × β)}
    (h : List.Forall₂ (fun e e' => e.1 = e'.1 ∧ R e e') entries entries') :
    entries.map Prod.fst = entries'.map Prod.fst := by
  induction h with
  | nil => rfl
  | cons he _ ih => rw [List.map_cons, List.map_cons, he.1, ih]

theorem exists_of_forall₂_append {β : Type} {R : α → β → Prop} {before after : List α}
    {all : List β} (h : List.Forall₂ R (before ++ after) all) :
    ∃ before' after', all = before' ++ after' ∧ List.Forall₂ R before before' ∧
      List.Forall₂ R after after' := by
  have h := h.flip
  exact ⟨all.take before.length, all.drop before.length, (List.take_append_drop _ _).symm,
    (List.forall₂_take_append _ _ _ h).flip, (List.forall₂_drop_append _ _ _ h).flip⟩

theorem forall₂_zip {β : Type} {R : α → α → Prop} {xs xs' : List α}
    (h : List.Forall₂ R xs xs') (keys : List β) :
    List.Forall₂ (fun e e' => e.1 = e'.1 ∧ R e.2 e'.2) (keys.zip xs) (keys.zip xs') := by
  induction h generalizing keys with
  | nil =>
    rw [List.zip_nil_right]
    exact .nil
  | cons hx _ ih =>
    cases keys with
    | nil => exact .nil
    | cons key keys => exact .cons ⟨rfl, hx⟩ (ih keys)

/-- Steps that can change places with each other lead to the same state in any order. -/
theorem Run.perm {κ : Type} {step : σ → ι → σ → Prop} (key : ι → κ)
    (hcommute : ∀ i j x y z, key i ≠ key j → step x i y → step y j z →
      ∃ w, step x j w ∧ step w i z)
    {items items' : List ι} (hperm : items.Perm items') (hnodup : (items.map key).Nodup) {x y : σ}
    (h : Run step x items y) : Run step x items' y := by
  induction hperm generalizing x with
  | nil => exact h
  | cons i _ ih =>
    cases h with
    | cons hstep h => exact .cons hstep (ih (List.nodup_cons.mp hnodup).2 h)
  | swap i j rest =>
    cases h with
    | cons hj h =>
      cases h with
      | cons hi h =>
        have hne : key j ≠ key i := by
          intro heq
          simp [heq] at hnodup
        obtain ⟨w, hi', hj'⟩ := hcommute j i _ _ _ hne hj hi
        exact .cons hi' (.cons hj' h)
  | trans hfirst _ ih ih' => exact ih' ((hfirst.map key).nodup_iff.mp hnodup) (ih hnodup h)

/-- What each value means is kept from one list of entries to the next. -/
theorem Run.forall₂ {step : σ → ι → σ → Prop} {same : ι → ι → Prop}
    (hstep : ∀ i i' x y, same i i' → step x i y → step x i' y) {items items' : List ι}
    (hsame : List.Forall₂ same items items') {x y : σ} (h : Run step x items y) :
    Run step x items' y := by
  induction hsame generalizing x with
  | nil => exact h
  | cons hi _ ih =>
    cases h with
    | cons hx h => exact .cons (hstep _ _ _ _ hi hx) (ih h)

namespace Shape

variable {shape : Shape σ} {fills : String → Tree → σ → σ → Prop}
variable {same : String → Tree → Tree → Prop} {tree tree' : Tree} {x : σ}

/-- The values of two keys can be filled in one after the other either way. -/
def Commutes (shape : Shape σ) (fills : String → Tree → σ → σ → Prop) : Prop :=
  ∀ key ∈ shape.keys, ∀ key' ∈ shape.keys, key ≠ key' → ∀ tree tree' x y z,
    fills key tree x y → fills key' tree' y z → ∃ w, fills key' tree' x w ∧ fills key tree w z

/-- What a tree declares, without the order of its keys. -/
def States (shape : Shape σ) (fills : String → Tree → σ → σ → Prop) (tree : Tree) (x : σ) : Prop :=
  ∃ met, shape.Means fills tree (x, met)

theorem Filled.perm (hcommutes : shape.Commutes fills) {entries entries' : List (String × Tree)}
    (hperm : entries.Perm entries') (hnodup : (entries.map Prod.fst).Nodup)
    (h : shape.Filled fills entries x) : shape.Filled fills entries' x := by
  refine Filled.start.append_run (h.run.perm Prod.fst ?_ hperm hnodup)
  rintro ⟨key, tree⟩ ⟨key', tree'⟩ x y z hne ⟨hkey, hy⟩ ⟨hkey', hz⟩
  obtain ⟨w, hw, hz⟩ := hcommutes key hkey key' hkey' hne tree tree' x y z hy hz
  exact ⟨w, ⟨hkey', hw⟩, hkey, hz⟩

theorem Gives.perm {members members' : List (Bytes × Tree)} {entries : List (String × Tree)}
    (h : shape.Gives (.object members) entries) (hperm : members.Perm members') :
    ∃ entries', shape.Gives (.object members') entries' ∧ entries.Perm entries' ∧
      (entries.map Prod.fst).Nodup := by
  cases h with
  | object hdecoded hnodup =>
    obtain ⟨decoded', hdecoded', hperm'⟩ := List.perm_comp_forall₂ hperm.symm hdecoded
    have hentries := (hperm'.filter fun entry => decide (entry.1 ∈ shape.keys)).symm
    refine ⟨_, .object hdecoded' ?_, hentries, hnodup⟩
    exact (hentries.map Prod.fst).nodup_iff.mp hnodup

theorem States.perm (hcommutes : shape.Commutes fills) {members members' : List (Bytes × Tree)}
    (h : shape.States fills (.object members) x) (hperm : members.Perm members') :
    shape.States fills (.object members') x := by
  obtain ⟨met, entries, hgives, hfilled, -⟩ := h
  obtain ⟨entries', hgives', hentries, hnodup⟩ := hgives.perm hperm
  exact ⟨entries'.map Prod.fst, entries', hgives', hfilled.perm hcommutes hentries hnodup, rfl⟩

/-- Of two trees that vary, the second gives what the first gives, but for the values. -/
theorem Gives.exists_varies {entries : List (String × Tree)} (h : shape.Gives tree entries)
    (hvaries : shape.Varies same tree tree') : ∃ entries', shape.Gives tree' entries' ∧
      List.Forall₂ (fun e e' => e.1 = e'.1 ∧ (e.1 ∈ shape.keys → same e.1 e.2 e'.2))
        entries entries' := by
  cases hvaries with
  | @object members members' hmembers =>
    cases h with
    | @object _ decoded hdecoded hnodup =>
      have hdecoded' : ∃ decoded' : List (String × Tree), List.Forall₂
          (fun member entry => Denotes member.1 entry.1 ∧ member.2 = entry.2) members' decoded' ∧
          List.Forall₂ (fun e e' => e.1 = e'.1 ∧ (e.1 ∈ shape.keys → same e.1 e.2 e'.2))
            decoded decoded' := by
        clear hnodup
        induction hmembers generalizing decoded with
        | nil =>
          cases hdecoded
          exact ⟨[], .nil, .nil⟩
        | @cons m m' _ _ hm _ ih =>
          cases hdecoded with
          | @cons _ e _ _ he hdecoded =>
            obtain ⟨decoded', hdecoded', hsame⟩ := ih hdecoded
            refine ⟨(e.1, m'.2) :: decoded', .cons ⟨hm.1 ▸ he.1, rfl⟩ hdecoded',
              .cons ⟨rfl, fun hkey => ?_⟩ hsame⟩
            rw [← he.2]
            exact hm.2 e.1 hkey he.1
      obtain ⟨decoded', hdecoded', hsame⟩ := hdecoded'
      have hfilter : List.Forall₂ (fun e e' => e.1 = e'.1 ∧ (e.1 ∈ shape.keys → same e.1 e.2 e'.2))
          (decoded.filter fun entry => entry.1 ∈ shape.keys)
          (decoded'.filter fun entry => entry.1 ∈ shape.keys) := by
        refine List.rel_filter ?_ hsame
        intro e e' he
        simp [he.1]
      refine ⟨_, .object hdecoded' ?_, hfilter⟩
      rwa [← map_fst_eq hfilter]
  | list hlen hvalues =>
    cases h with
    | list hle => exact ⟨_, .list (hlen ▸ hle), hvalues⟩

theorem States.varies (hfills : ∀ key ∈ shape.keys, ∀ tree tree' x y, same key tree tree' →
      fills key tree x y → fills key tree' x y) (h : shape.States fills tree x)
    (hvaries : shape.Varies same tree tree') : shape.States fills tree' x := by
  obtain ⟨met, entries, hgives, hfilled, -⟩ := h
  obtain ⟨entries', hgives', hsame⟩ := hgives.exists_varies hvaries
  refine ⟨entries'.map Prod.fst, entries', hgives',
    Filled.start.append_run (hfilled.run.forall₂ ?_ hsame), rfl⟩
  rintro ⟨key, tree⟩ ⟨key', tree'⟩ x y ⟨heq, hsame⟩ ⟨hkey, hy⟩
  dsimp only at heq hsame hkey hy
  subst heq
  exact ⟨hkey, hfills key hkey tree tree' x y (hsame hkey) hy⟩

/-- The values of the known keys can be reordered inside. -/
theorem States.reordered (hcommutes : shape.Commutes fills)
    (hfills : ∀ key ∈ shape.keys, ∀ tree tree' x y, Reordered tree tree' →
      fills key tree x y → fills key tree' x y) (h : shape.States fills tree x)
    (hreordered : Reordered tree tree') : shape.States fills tree' x := by
  have hfills (key : String) (hkey : key ∈ shape.keys) (tree tree' : Tree) (x y : σ)
      (hsame : tree = tree' ∨ Reordered tree tree') (hy : fills key tree x y) :
      fills key tree' x y := by
    obtain rfl | hreordered := hsame
    · exact hy
    · exact hfills key hkey tree tree' x y hreordered hy
  cases hreordered with
  | members hperm => exact h.perm hcommutes hperm
  | @item before after value value' hvalue =>
    refine h.varies hfills (.list (by simp) ?_)
    have hrest (items : List Tree) :
        List.Forall₂ (fun v v' => v = v' ∨ Reordered v v') items items :=
      List.forall₂_same.mpr fun _ _ => .inl rfl
    have hvalues := List.rel_append (hrest before) (.cons (.inr hvalue) (hrest after))
    exact (forall₂_zip hvalues shape.keys).imp fun _ _ he => ⟨he.1, fun _ => he.2⟩
  | @value before after raw value value' hvalue =>
    refine h.varies hfills (.object ?_)
    have hrest (members : List (Bytes × Tree)) : List.Forall₂ (fun m m' => m.1 = m'.1 ∧
        ∀ key ∈ shape.keys, Denotes m.1 key → m.2 = m'.2 ∨ Reordered m.2 m'.2) members members :=
      List.forall₂_same.mpr fun _ _ => ⟨rfl, fun _ _ _ => .inl rfl⟩
    exact List.rel_append (hrest before) (.cons ⟨rfl, fun _ _ _ => .inr hvalue⟩ (hrest after))

/-- A member that nobody asks for gives nothing. -/
theorem Gives.extended_iff {before after : List (Bytes × Tree)} {raw : Bytes} {key : String}
    (hraw : Denotes raw key) (hkey : key ∉ shape.keys) (value : Tree)
    (entries : List (String × Tree)) :
    shape.Gives (.object (before ++ (raw, value) :: after)) entries ↔
      shape.Gives (.object (before ++ after)) entries := by
  have hfilter (front back : List (String × Tree)) :
      (front ++ (key, value) :: back).filter (fun entry => entry.1 ∈ shape.keys) =
        (front ++ back).filter fun entry => entry.1 ∈ shape.keys := by
    rw [List.filter_append, List.filter_cons_of_neg (by simpa using hkey), ← List.filter_append]
  constructor
  · intro h
    cases h with
    | object hdecoded hnodup =>
      obtain ⟨front, rest, rfl, hfront, hrest⟩ := exists_of_forall₂_append hdecoded
      cases hrest with
      | @cons _ entry _ back hentry hback =>
        obtain ⟨key', value'⟩ := entry
        obtain ⟨hraw', rfl⟩ : Denotes raw key' ∧ value = value' := hentry
        obtain rfl := hraw.unique hraw'
        rw [hfilter] at hnodup ⊢
        exact .object (List.rel_append hfront hback) hnodup
  · intro h
    cases h with
    | object hdecoded hnodup =>
      obtain ⟨front, back, rfl, hfront, hback⟩ := exists_of_forall₂_append hdecoded
      rw [← hfilter] at hnodup ⊢
      exact .object (List.rel_append hfront (.cons ⟨hraw, rfl⟩ hback)) hnodup

theorem States.extended_iff (h : Extended shape.keys tree tree') :
    shape.States fills tree' x ↔ shape.States fills tree x := by
  obtain ⟨hraw, hkey⟩ := h
  simp only [States, Means, Gives.extended_iff hraw hkey]

end Shape

/-! ## Edits inside a list -/

/-- An item of a list that means the same can stand for another. -/
theorem IsListOf.item {means : Tree → α → Prop} {before after : List Tree} {tree tree' : Tree}
    (hmeans : ∀ x, means tree x → means tree' x) {xs : List α}
    (h : IsListOf means (.list (before ++ tree :: after)) xs) :
    IsListOf means (.list (before ++ tree' :: after)) xs := by
  obtain ⟨items, heq, hitems⟩ := h
  cases heq
  obtain ⟨front, rest, rfl, hfront, hrest⟩ := exists_of_forall₂_append hitems
  cases hrest with
  | cons hx hback => exact ⟨_, rfl, List.rel_append hfront (.cons (hmeans _ hx) hback)⟩

theorem not_reordered_text {tree tree' : Tree} {x : String} (h : IsText tree x) :
    ¬Reordered tree tree' := by
  obtain ⟨raw, rfl, -⟩ := h
  intro hreordered
  cases hreordered

theorem not_reordered_flag {tree tree' : Tree} {b : Bool} (h : IsFlag tree b) :
    ¬Reordered tree tree' := by
  intro hreordered
  rw [h] at hreordered
  cases hreordered

end TypedCollections.Json
