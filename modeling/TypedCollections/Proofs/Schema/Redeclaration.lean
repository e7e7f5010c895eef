import TypedCollections.Proofs.Schema.Agreement

/-!
What two texts of a declaration have in common. `Shape.Varies` says that they have the same keys,
and how the values of a key may differ; what no such value can change is then declared alike. So a
document declares one list of collections only, and where two documents differ in nothing but the
field lists of some collections, these are still called the same, and the detection comes to the
same verdict.
-/

namespace TypedCollections

namespace Json

variable {σ : Type} {shape : Shape σ} {fills : String → Tree → σ → σ → Prop}
variable {same : String → Tree → Tree → Prop}

namespace Shape

/-- Two texts of a declaration have the same keys, as they are spelled, and the values of a known
key differ at most as they may. -/
inductive Varies (shape : Shape σ) (same : String → Tree → Tree → Prop) : Tree → Tree → Prop
  | object {members members'} :
      List.Forall₂ (fun m m' => m.1 = m'.1 ∧
        ∀ key ∈ shape.keys, Denotes m.1 key → same key m.2 m'.2) members members' →
      Varies shape same (.object members) (.object members')
  | list {values values'} : values.length = values'.length →
      List.Forall₂ (fun e e' => e.1 = e'.1 ∧ (e.1 ∈ shape.keys → same e.1 e.2 e'.2))
        (shape.keys.zip values) (shape.keys.zip values') →
      Varies shape same (.list values) (.list values')

theorem Gives.varies {tree tree' : Tree} {entries entries' : List (String × Tree)}
    (h : shape.Gives tree entries) (h' : shape.Gives tree' entries')
    (hvaries : shape.Varies same tree tree') :
    List.Forall₂ (fun e e' => e.1 = e'.1 ∧ (e.1 ∈ shape.keys → same e.1 e.2 e'.2))
      entries entries' := by
  cases hvaries with
  | @object members members' hmembers =>
    cases h with
    | @object _ decoded hdecoded hnodup =>
      cases h' with
      | @object _ decoded' hdecoded' hnodup' =>
        clear hnodup hnodup'
        refine List.rel_filter ?_ ?_
        · intro e e' he
          simp [he.1]
        · induction hmembers generalizing decoded decoded' with
          | nil =>
            cases hdecoded
            cases hdecoded'
            exact .nil
          | @cons m m' _ _ hm _ ih =>
            cases hdecoded with
            | @cons _ e _ _ he hdecoded =>
              cases hdecoded' with
              | @cons _ e' _ _ he' hdecoded' =>
                have hkey : e.1 = e'.1 := he.1.unique (hm.1 ▸ he'.1)
                refine .cons ⟨hkey, fun hknown => ?_⟩ (ih hdecoded hdecoded')
                rw [← he.2, ← he'.2]
                exact hm.2 e.1 hknown he.1
  | list _ hvalues =>
    cases h
    cases h'
    exact hvalues

/-- What holds of the two declarations so far holds at their end. -/
theorem Filled.varies {alike : σ → σ → Prop} (hstart : alike shape.start shape.start)
    (hstep : ∀ key ∈ shape.keys, ∀ tree tree' x x' y y', same key tree tree' → alike x x' →
      fills key tree x y → fills key tree' x' y' → alike y y')
    {entries entries' : List (String × Tree)} {x x' : σ} (h : shape.Filled fills entries x)
    (h' : shape.Filled fills entries' x')
    (hsame : List.Forall₂ (fun e e' => e.1 = e'.1 ∧ (e.1 ∈ shape.keys → same e.1 e.2 e'.2))
      entries entries') : alike x x' := by
  induction h generalizing entries' x' with
  | start =>
    cases hsame
    generalize hnil : ([] : List (String × Tree)) = entries' at h'
    cases h' with
    | start => exact hstart
    | fill => simp at hnil
  | @fill entries key tree x y _ hkey hfills ih =>
    cases h' with
    | start => simpa using hsame.length_eq
    | @fill _ key' tree' _ _ hfilled' _ hfills' =>
      rw [← List.forall₂_reverse_iff, List.reverse_append, List.reverse_append] at hsame
      cases hsame with
      | cons hlast hfront =>
        obtain ⟨heq, hlast⟩ := hlast
        dsimp only at heq hlast
        subst heq
        exact hstep key hkey tree tree' _ _ _ _ (hlast hkey)
          (ih hfilled' (List.forall₂_reverse_iff.mp hfront)) hfills hfills'

theorem Means.varies (alike : σ → σ → Prop) (hstart : alike shape.start shape.start)
    (hstep : ∀ key ∈ shape.keys, ∀ tree tree' x x' y y', same key tree tree' → alike x x' →
      fills key tree x y → fills key tree' x' y' → alike y y')
    {tree tree' : Tree} {x x' : σ × List String} (h : shape.Means fills tree x)
    (h' : shape.Means fills tree' x') (hvaries : shape.Varies same tree tree') :
    alike x.1 x'.1 ∧ x.2 = x'.2 := by
  obtain ⟨entries, hgives, hfilled, hkeys⟩ := h
  obtain ⟨entries', hgives', hfilled', hkeys'⟩ := h'
  have hsame := hgives.varies hgives' hvaries
  refine ⟨hfilled.varies hstart hstep hfilled' hsame, ?_⟩
  rw [hkeys, hkeys']
  clear hgives hgives' hfilled hfilled' hkeys hkeys'
  induction hsame with
  | nil => rfl
  | cons he _ ih => rw [List.map_cons, List.map_cons, he.1, ih]

/-- A tree declares one thing only, if each of its values does. -/
theorem Means.unique (hfills : ∀ key ∈ shape.keys, ∀ tree x y y', fills key tree x y →
      fills key tree x y' → y = y') {tree : Tree} {x x' : σ × List String}
    (h : shape.Means fills tree x) (h' : shape.Means fills tree x') : x = x' := by
  have hvaries : shape.Varies (fun _ => Eq) tree tree := by
    obtain ⟨entries, hgives, -⟩ := h
    cases hgives with
    | object => exact .object (List.forall₂_same.mpr fun _ _ => ⟨rfl, fun _ _ _ => rfl⟩)
    | list => exact .list rfl (List.forall₂_same.mpr fun _ _ => ⟨rfl, fun _ => rfl⟩)
  have hstep : ∀ key ∈ shape.keys, ∀ tree tree' x x' y y', tree = tree' → x = x' →
      fills key tree x y → fills key tree' x' y' → y = y' := by
    rintro key hkey tree _ x _ y y' rfl rfl hy hy'
    exact hfills key hkey tree x y y' hy hy'
  exact Prod.ext_iff.mpr (h.varies Eq rfl hstep h' hvaries)

end Shape

/-! ## What one value means -/

theorem IsText.unique {tree : Tree} {x y : String} (h : IsText tree x) (h' : IsText tree y) :
    x = y := by
  obtain ⟨raw, rfl, hx⟩ := h
  obtain ⟨raw', heq, hy⟩ := h'
  cases heq
  exact hx.unique hy

theorem IsFlag.unique {tree : Tree} {x y : Bool} (h : IsFlag tree x) (h' : IsFlag tree y) :
    x = y := by
  have hwords : Tree.word (if x then trueWord else falseWord) =
      .word (if y then trueWord else falseWord) := h.symm.trans h'
  cases x <;> cases y <;> first | rfl | exact absurd (Tree.word.inj hwords) (by decide)

variable {α : Type} {means : Tree → α → Prop}

theorem IsNullOr.unique (hnull : ∀ x, ¬means (.word nullWord) x)
    (hmeans : ∀ tree x y, means tree x → means tree y → x = y) {tree : Tree} {x y : Option α}
    (h : IsNullOr means tree x) (h' : IsNullOr means tree y) : x = y := by
  cases x with
  | none =>
    cases y with
    | none => rfl
    | some y =>
      cases h
      exact absurd h' (hnull y)
  | some x =>
    cases y with
    | none =>
      cases h'
      exact absurd h (hnull x)
    | some y => exact congrArg some (hmeans tree x y h h')

theorem IsListOf.unique (hmeans : ∀ tree x y, means tree x → means tree y → x = y) {tree : Tree}
    {xs ys : List α} (h : IsListOf means tree xs) (h' : IsListOf means tree ys) : xs = ys := by
  obtain ⟨items, rfl, hxs⟩ := h
  obtain ⟨items', heq, hys⟩ := h'
  cases heq
  induction hxs generalizing ys with
  | nil =>
    cases hys
    rfl
  | cons hx _ ih =>
    cases hys with
    | cons hy hys => rw [hmeans _ _ _ hx hy, ih hys]

/-- What is made of a value that is known is known. -/
theorem eq_of_made {β : Type} {p : α → Prop} (hp : ∀ x y, p x → p y → x = y) {f : α → β} {y z : β}
    (h : ∃ x, p x ∧ y = f x) (h' : ∃ x, p x ∧ z = f x) : y = z := by
  obtain ⟨x, hx, rfl⟩ := h
  obtain ⟨x', hx', rfl⟩ := h'
  rw [hp x x' hx hx']

end Json

namespace Schema

open Json
open Dialect (objectKeys)

/-! ## What a document declares -/

theorem DeclaresField.unique {tree : Tree} {f g : DeclaredField} (h : DeclaresField tree f)
    (h' : DeclaresField tree g) : f = g := by
  obtain ⟨x, hx, rfl⟩ := h
  obtain ⟨y, hy, rfl⟩ := h'
  refine congrArg Prod.fst (Shape.Means.unique ?_ hx hy)
  intro key hkey tree x y y' h h'
  simp only [fieldShape, List.mem_cons, List.not_mem_nil, or_false] at hkey
  rcases hkey with rfl | rfl | rfl | rfl | rfl
  · exact eq_of_made (fun _ _ => IsText.unique) h h'
  · exact eq_of_made (fun _ _ => IsText.unique) h h'
  · exact eq_of_made (fun _ _ => IsFlag.unique) h h'
  · exact eq_of_made (fun _ _ => IsFlag.unique) h h'
  · exact eq_of_made (fun _ _ => IsFlag.unique) h h'

theorem not_isText_null (x : String) : ¬IsText (.word nullWord) x := by
  rintro ⟨raw, heq, -⟩
  cases heq

theorem not_isListOf_null {α : Type} {means : Tree → α → Prop} (xs : List α) :
    ¬IsListOf means (.word nullWord) xs := by
  rintro ⟨items, heq, -⟩
  cases heq

theorem Declares.unique {tree : Tree} {c d : DeclaredCollection} (h : Declares tree c)
    (h' : Declares tree d) : c = d := by
  have htext : ∀ tree x y, IsNullOr IsText tree x → IsNullOr IsText tree y → x = y :=
    fun _ _ _ => IsNullOr.unique not_isText_null fun _ _ _ => IsText.unique
  have hfield : ∀ tree f g, DeclaresField tree f → DeclaresField tree g → f = g :=
    fun _ _ _ => DeclaresField.unique
  have hfields : ∀ tree x y, IsNullOr (IsListOf DeclaresField) tree x →
      IsNullOr (IsListOf DeclaresField) tree y → x = y :=
    fun _ _ _ => IsNullOr.unique not_isListOf_null fun _ _ _ => IsListOf.unique hfield
  obtain ⟨x, hx, rfl⟩ := h
  obtain ⟨y, hy, rfl⟩ := h'
  rw [Shape.Means.unique ?_ hx hy]
  intro key hkey tree x y y' h h'
  simp only [collectionShape, List.mem_cons, List.not_mem_nil, or_false] at hkey
  rcases hkey with rfl | rfl | rfl | rfl | rfl | rfl
  · exact eq_of_made (htext tree) h h'
  · exact eq_of_made (fun _ _ => IsText.unique) h h'
  · exact eq_of_made (htext tree) h h'
  · exact eq_of_made (fun _ _ => IsFlag.unique) h h'
  · exact eq_of_made (hfields tree) h h'
  · exact eq_of_made (hfields tree) h h'

/-! ## Other field lists -/

/-- A collection is written anew: its keys are spelled as before, and the values of those that are
known are the same but for the field lists. -/
def Redeclares : Tree → Tree → Prop :=
  collectionShape.Varies fun key value value' => key ∈ fieldListKeys ∨ value = value'

theorem name_eq_of_fills {key : String} (hkey : key ∈ collectionShape.keys) (hne : key ≠ "name")
    {tree : Tree} {c d : DeclaredCollection} (h : fillsCollection key tree c d) :
    d.name = c.name := by
  simp only [collectionShape, List.mem_cons, List.not_mem_nil, or_false] at hkey
  rcases hkey with rfl | rfl | rfl | rfl | rfl | rfl
  · obtain ⟨x, -, rfl⟩ := h
    rfl
  · exact absurd rfl hne
  all_goals
    obtain ⟨x, -, rfl⟩ := h
    rfl

theorem Redeclares.name_eq {tree tree' : Tree} (h : Redeclares tree tree')
    {c c' : DeclaredCollection} (hc : Declares tree c) (hc' : Declares tree' c') :
    c.name = c'.name := by
  obtain ⟨x, hx, rfl⟩ := hc
  obtain ⟨y, hy, rfl⟩ := hc'
  refine (Shape.Means.varies (fun c c' => c.name = c'.name) rfl ?_ hx hy h).1
  intro key hkey tree tree' x x' y y' hsame halike hy hy'
  by_cases hname : key = "name"
  · subst hname
    obtain hlist | rfl := hsame
    · exact absurd hlist (by decide)
    · obtain ⟨text, htext, rfl⟩ := hy
      obtain ⟨text', htext', rfl⟩ := hy'
      exact htext.unique htext'
  · rw [name_eq_of_fills hkey hname hy, name_eq_of_fills hkey hname hy', halike]

/-- Two lists of collections differ in the field lists of the collections of one name only. -/
def RedeclaresOnly (name : String) (items items' : List Tree) : Prop :=
  List.Forall₂ (fun item item' => item = item' ∨
    (Redeclares item item' ∧ ∃ c, Declares item c ∧ c.name = name)) items items'

variable {name : String} {items items' : List Tree}

theorem Redeclares.objectKeys_cons {item item' : Tree} (h : Redeclares item item')
    (hrest : objectKeys items = objectKeys items') :
    objectKeys (item :: items) = objectKeys (item' :: items') := by
  cases h with
  | object hmembers =>
    rw [objectKeys, objectKeys, hrest]
    congr 1
    induction hmembers with
    | nil => rfl
    | cons hm _ ih => rw [List.map_cons, List.map_cons, hm.1, ih]
  | list => simpa [objectKeys] using hrest

theorem RedeclaresOnly.objectKeys_eq (h : RedeclaresOnly name items items') :
    objectKeys items = objectKeys items' := by
  induction h with
  | nil => rfl
  | @cons item item' _ _ hitem _ ih =>
    obtain rfl | ⟨hredeclares, -⟩ := hitem
    · cases item <;> simp [objectKeys, ih]
    · exact hredeclares.objectKeys_cons ih

/-- What the collections of other names declare stays. -/
theorem RedeclaresOnly.declared (h : RedeclaresOnly name items items')
    {declared declared' : List DeclaredCollection} (hd : List.Forall₂ Declares items declared)
    (hd' : List.Forall₂ Declares items' declared') :
    List.Forall₂ (fun c c' => c = c' ∨ (c.name = name ∧ c'.name = name)) declared declared' := by
  induction h generalizing declared declared' with
  | nil =>
    cases hd
    cases hd'
    exact .nil
  | @cons item item' _ _ hitem _ ih =>
    cases hd with
    | @cons _ c _ _ hc hd =>
      cases hd' with
      | @cons _ c' _ _ hc' hd' =>
        refine .cons ?_ (ih hd hd')
        obtain rfl | ⟨hredeclares, b, hb, hname⟩ := hitem
        · exact .inl (hc.unique hc')
        · obtain rfl := hb.unique hc
          exact .inr ⟨hname, (hredeclares.name_eq hc hc').symm.trans hname⟩

end Schema
end TypedCollections
