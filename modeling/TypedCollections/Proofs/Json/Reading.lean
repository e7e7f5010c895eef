import Mathlib.Data.List.Forall2
import TypedCollections.Json.Shape
import TypedCollections.Proofs.Json.Skipping

/-!
What the typed readers accept. A reader takes a value of the grammar from the front of its text, and
what it returns is what the tree of that value means. For a declaration with known keys this says
which of its values come under which key, whether they are written as an object or as a list.
-/
namespace TypedCollections.Json

variable {α σ : Type} {s t rest : Bytes} {tree : Tree}

/-- A reader takes values of the grammar, and returns what their trees mean. -/
def Accepts (read : Reader α) (means : Tree → α → Prop) : Prop :=
  ∀ s x r, read s = .ok (x, r) → ∃ tree, AtFront tree s r.1 ∧ means tree x

/-- What is made of what a reader returns means what it is made of. -/
theorem Accepts.map {β : Type} {read : Reader α} {means : Tree → α → Prop}
    (hread : Accepts read means) (f : α → β) :
    Accepts (fun s => (read s).map fun (x, r) => (f x, r)) fun tree y =>
      ∃ x, means tree x ∧ y = f x := by
  intro s y r h
  obtain ⟨⟨x, u⟩, hx, h⟩ := Stopping.map_ok h
  cases h
  obtain ⟨tree, htree, hmeans⟩ := hread s x r hx
  exact ⟨tree, htree, x, hmeans, rfl⟩

/-! ## Strings, words and null -/

def IsText (tree : Tree) (text : String) : Prop := ∃ raw, tree = .string raw ∧ Denotes raw text

def IsFlag (tree : Tree) (b : Bool) : Prop := tree = .word (if b then trueWord else falseWord)

def IsNullOr (means : Tree → α → Prop) (tree : Tree) : Option α → Prop
  | none => tree = .word nullWord
  | some x => means tree x

def IsListOf (means : Tree → α → Prop) (tree : Tree) (xs : List α) : Prop :=
  ∃ items, tree = .list items ∧ List.Forall₂ means items xs

theorem atFront_word {b : UInt8} {letters : Bytes} {r : Tail t} (h : literal letters t = .ok r)
    (hs : skipBlank s = b :: t) (hw : b :: letters ∈ [trueWord, falseWord, nullWord]) :
    AtFront (.word (b :: letters)) s r.1 :=
  atFront_of_skipBlank (.word hw) (hs.trans (congrArg (b :: ·) (literal_ok h)))

theorem text_ok : Accepts text IsText := by
  intro s x r h
  unfold text at h
  split at h
  · cases h
  next b t hs =>
  split at h
  · next hb =>
    obtain ⟨⟨y, u⟩, hquotation, h⟩ := Stopping.map_ok h
    cases h
    obtain ⟨raw, hraw, ht⟩ := quotation_ok hquotation
    refine ⟨.string raw, atFront_of_skipBlank (.string hraw.quoted) (hs.trans ?_), raw, rfl, hraw⟩
    change b :: t = Ascii.quote :: (raw ++ [Ascii.quote]) ++ u.1
    rw [hb, List.cons_append, List.append_assoc]
    exact congrArg (Ascii.quote :: ·) ht
  · cases h

theorem flag_ok : Accepts flag IsFlag := by
  intro s x r h
  unfold flag at h
  split at h
  · cases h
  next b t hs =>
  split at h
  · next hb =>
    obtain ⟨u, hword, h⟩ := Stopping.map_ok h
    cases h
    exact ⟨_, atFront_word hword (hb ▸ hs) (by decide), rfl⟩
  split at h
  · next hb =>
    obtain ⟨u, hword, h⟩ := Stopping.map_ok h
    cases h
    exact ⟨_, atFront_word hword (hb ▸ hs) (by decide), rfl⟩
  · cases h

theorem orNull_ok {read : Reader α} {means : Tree → α → Prop} (hread : Accepts read means) :
    Accepts (orNull read) (IsNullOr means) := by
  intro s x r h
  unfold orNull at h
  split at h
  · cases h
  next b t hs =>
  split at h
  · next hb =>
    obtain ⟨u, hword, h⟩ := Stopping.map_ok h
    cases h
    exact ⟨_, atFront_word hword (hb ▸ hs) (by decide), rfl⟩
  · obtain ⟨⟨y, u⟩, hy, h⟩ := Stopping.map_ok h
    cases h
    exact hread s y _ hy

/-! ## Lists -/

theorem items_ok {read : Reader α} {means : Tree → α → Prop} (hread : Accepts read means)
    (before : List α) (s : Bytes) {all : List α} {r : Rest s}
    (h : items read before s = .ok (all, r)) :
    ∃ trees xs, trees ≠ [] ∧ ItemsAtFront trees s r.1 ∧ List.Forall₂ means trees xs ∧
      all = before.reverse ++ xs := by
  unfold items at h
  obtain ⟨⟨x, mid, hmid⟩, hx, h⟩ := Stopping.bind_ok h
  obtain ⟨tree, htree, hmeans⟩ := hread s x _ hx
  dsimp only at h
  split at h
  · cases h
  next b t hs =>
  have ht : t.length < s.length := Nat.lt_trans (length_lt_of_skipBlank hs) hmid
  split at h
  · next hb =>
    cases h
    exact ⟨[tree], [x], List.cons_ne_nil _ _, htree.last (hb ▸ hs), .cons hmeans .nil, by simp⟩
  split at h
  · next hb =>
    split at h
    · cases h
    · obtain ⟨⟨more, u⟩, hitems, h⟩ := Stopping.bind_ok h
      cases h
      obtain ⟨trees, xs, hne, htrees, hall, rfl⟩ := items_ok hread (x :: before) t hitems
      exact ⟨tree :: trees, x :: xs, List.cons_ne_nil _ _, htree.more (hb ▸ hs) htrees hne,
        .cons hmeans hall, by simp⟩
  · cases h
termination_by s.length

theorem list_ok {read : Reader α} {means : Tree → α → Prop} (hread : Accepts read means)
    {all : List α} {r : Rest s} (h : list read s = .ok (all, r)) :
    ∃ trees, ItemsAtFront trees s r.1 ∧ List.Forall₂ means trees all := by
  unfold list at h
  split at h
  · cases h
  next b t hs =>
  split at h
  · next hb =>
    cases h
    exact ⟨[], itemsAtFront_nil (hb ▸ hs), .nil⟩
  · obtain ⟨trees, xs, -, htrees, hall, rfl⟩ := items_ok hread [] s h
    exact ⟨trees, htrees, hall⟩

theorem listOf_ok {read : Reader α} {means : Tree → α → Prop} (hread : Accepts read means) :
    Accepts (listOf read) (IsListOf means) := by
  intro s x r h
  unfold listOf at h
  split at h
  · cases h
  next b t hs =>
  split at h
  · next hb =>
    obtain ⟨⟨all, u⟩, hlist, h⟩ := Stopping.map_ok h
    cases h
    obtain ⟨trees, htrees, hall⟩ := list_ok hread hlist
    exact ⟨.list trees, htrees.list (hb ▸ hs), trees, rfl, hall⟩
  · cases h

/-! ## Objects -/

/-- A member is read behind its opening mark. It takes what holds of the members before it to what
holds with it as well. -/
def Extends (member : σ → Reader σ) (p : List (Bytes × Tree) → σ → Prop) : Prop :=
  ∀ done x s y r, p done x → member x s = .ok (y, r) →
    ∃ entry, (∀ before, Blank before → MemberAtFront entry (before ++ Ascii.quote :: s) r.1) ∧
      p (done ++ [entry]) y

theorem members_ok {member : σ → Reader σ} {p : List (Bytes × Tree) → σ → Prop}
    (hmember : Extends member p) {done : List (Bytes × Tree)} {before : σ} (hp : p done before)
    {blank : Bytes} (hblank : Blank blank) (s : Bytes) {x : σ} {r : Rest s}
    (h : members member before s = .ok (x, r)) :
    ∃ more, more ≠ [] ∧ MembersAtFront more (blank ++ Ascii.quote :: s) r.1 ∧
      p (done ++ more) x := by
  unfold members at h
  obtain ⟨⟨y, mid, hmid⟩, hy, h⟩ := Stopping.bind_ok h
  obtain ⟨entry, hentry, hp'⟩ := hmember done before s y _ hp hy
  have hentry := hentry blank hblank
  dsimp only at h
  split at h
  · cases h
  next b t hs =>
  have ht : t.length < s.length := Nat.lt_trans (length_lt_of_skipBlank hs) hmid
  split at h
  · next hb =>
    cases h
    exact ⟨[entry], List.cons_ne_nil _ _, hentry.last (hb ▸ hs), hp'⟩
  split at h
  · next hb =>
    split at h
    · cases h
    next c u hu =>
    have hlt : u.length < s.length := Nat.lt_trans (length_lt_of_skipBlank hu) ht
    split at h
    · next hc =>
      obtain ⟨⟨all, v⟩, hmembers, h⟩ := Stopping.bind_ok h
      cases h
      obtain ⟨blank', hblank', ht'⟩ := exists_blank_of_skipBlank hu
      obtain ⟨more, hne, hmore, hall⟩ := members_ok hmember hp' hblank' u hmembers
      rw [← hc, ← ht'] at hmore
      refine ⟨entry :: more, List.cons_ne_nil _ _, hentry.more (hb ▸ hs) hmore hne, ?_⟩
      rwa [List.append_cons]
    split at h
    · cases h
    · cases h
  · cases h
termination_by s.length

theorem object_ok {member : σ → Reader σ} {p : List (Bytes × Tree) → σ → Prop}
    (hmember : Extends member p) {start : σ} (hp : p [] start) {x : σ} {r : Rest s}
    (h : object member start s = .ok (x, r)) :
    ∃ all, MembersAtFront all s r.1 ∧ p all x := by
  unfold object at h
  split at h
  · cases h
  next b t hs =>
  split at h
  · next hb =>
    cases h
    exact ⟨[], membersAtFront_nil (hb ▸ hs), hp⟩
  split at h
  · next hb =>
    obtain ⟨⟨y, u⟩, hmembers, h⟩ := Stopping.map_ok h
    cases h
    obtain ⟨blank, hblank, hs⟩ := exists_blank_of_skipBlank hs
    obtain ⟨all, -, hall, hp'⟩ := members_ok hmember hp hblank t hmembers
    rw [← hb, ← hs] at hall
    exact ⟨all, hall, hp'⟩
  · cases h

/-! ## Declarations with known keys -/

namespace Shape

/-- The values that a tree gives under known keys, in their order. An object gives each key once;
a list gives values of the first keys. -/
inductive Gives (shape : Shape σ) : Tree → List (String × Tree) → Prop
  | object {members decoded} :
      List.Forall₂ (fun member entry => Denotes member.1 entry.1 ∧ member.2 = entry.2)
        members decoded →
      ((decoded.filter fun entry => entry.1 ∈ shape.keys).map Prod.fst).Nodup →
      Gives shape (.object members) (decoded.filter fun entry => entry.1 ∈ shape.keys)
  | list {values} : values.length ≤ shape.keys.length →
      Gives shape (.list values) (shape.keys.zip values)

/-- What values make of a declaration, taken in one after the other. `fills` says what one of them
does. -/
inductive Filled (shape : Shape σ) (fills : String → Tree → σ → σ → Prop) :
    List (String × Tree) → σ → Prop
  | start : Filled shape fills [] shape.start
  | fill {entries key tree x y} : Filled shape fills entries x → key ∈ shape.keys →
      fills key tree x y → Filled shape fills (entries ++ [(key, tree)]) y

/-- What a tree declares. -/
def Means (shape : Shape σ) (fills : String → Tree → σ → σ → Prop) (tree : Tree)
    (x : σ × List String) : Prop :=
  ∃ entries, shape.Gives tree entries ∧ shape.Filled fills entries x.1 ∧
    x.2 = entries.map Prod.fst

variable {shape : Shape σ} {fills : String → Tree → σ → σ → Prop}

/-- What the members of an object have made of a declaration so far. -/
def Taken (shape : Shape σ) (fills : String → Tree → σ → σ → Prop) (done : List (Bytes × Tree))
    (x : σ × List String) : Prop :=
  ∃ decoded, List.Forall₂ (fun member entry => Denotes member.1 entry.1 ∧ member.2 = entry.2)
      done decoded ∧
    shape.Filled fills (decoded.filter fun entry => entry.1 ∈ shape.keys) x.1 ∧
    x.2 = (decoded.filter fun entry => entry.1 ∈ shape.keys).map Prod.fst ∧ x.2.Nodup

theorem member_ok (hfill : ∀ key ∈ shape.keys, ∀ x,
      Accepts (shape.fill key x) fun tree y => fills key tree x y) :
    Extends shape.member (shape.Taken fills) := by
  rintro done ⟨x, met⟩ s ⟨y, met'⟩ r ⟨decoded, hdecoded, hfilled, hmet, hnodup⟩ h
  dsimp only at hfilled hmet hnodup
  unfold member at h
  obtain ⟨⟨key, r₁, h₁⟩, hquotation, h⟩ := Stopping.bind_ok h
  obtain ⟨raw, hraw, hs⟩ := quotation_ok hquotation
  have hs : s = raw ++ Ascii.quote :: r₁ := hs
  have hentry {tree : Tree} {r₂ : Rest r₁} (hcolon : colon r₁ = .ok r₂) {u : Bytes}
      (htree : AtFront tree r₂.1 u) (before : Bytes) (hbefore : Blank before) :
      MemberAtFront (raw, tree) (before ++ Ascii.quote :: s) u := by
    obtain ⟨after, hafter, hr₁⟩ := colon_ok hcolon
    exact ⟨before, after, r₂.1, hbefore, hraw.quoted, hafter, by rw [hs, ← hr₁], htree⟩
  dsimp only at h
  split at h
  · next hkey =>
    split at h
    · cases h
    next hnew =>
    obtain ⟨r₂, hcolon, h⟩ := Stopping.bind_ok h
    obtain ⟨⟨z, r₃⟩, hz, h⟩ := Stopping.bind_ok h
    cases h
    obtain ⟨tree, htree, hfills⟩ := hfill key hkey x _ z _ hz
    refine ⟨(raw, tree), hentry hcolon htree, decoded ++ [(key, tree)],
      List.rel_append hdecoded (.cons ⟨hraw, rfl⟩ .nil), ?_⟩
    have hfilter : (decoded ++ [(key, tree)]).filter (fun entry => entry.1 ∈ shape.keys) =
        decoded.filter (fun entry => entry.1 ∈ shape.keys) ++ [(key, tree)] := by
      simp [List.filter_append, hkey]
    rw [hfilter]
    refine ⟨hfilled.fill hkey hfills, by simp [hmet], ?_⟩
    exact List.nodup_append.mpr ⟨hnodup, by simp, by
      rintro a ha b hb rfl
      exact hnew (List.mem_singleton.mp hb ▸ ha)⟩
  · next hkey =>
    obtain ⟨r₂, hcolon, h⟩ := Stopping.bind_ok h
    obtain ⟨r₃, hskip, h⟩ := Stopping.bind_ok h
    cases h
    obtain ⟨tree, htree⟩ := skip_ok hskip
    refine ⟨(raw, tree), hentry hcolon htree, decoded ++ [(key, tree)],
      List.rel_append hdecoded (.cons ⟨hraw, rfl⟩ .nil), ?_⟩
    have hfilter : (decoded ++ [(key, tree)]).filter (fun entry => entry.1 ∈ shape.keys) =
        decoded.filter (fun entry => entry.1 ∈ shape.keys) := by
      simp [List.filter_append, hkey]
    rw [hfilter]
    exact ⟨hfilled, hmet, hnodup⟩

theorem closed_ok {r : Rest s} (h : closed s = .ok r) : skipBlank s = Ascii.closeSquare :: r.1 := by
  unfold closed at h
  split at h
  · cases h
  next hs =>
  split at h
  · next hb =>
    cases h
    exact hs.trans (congrArg (· :: _) hb)
  split at h
  · split at h <;> cases h
  · cases h

/-- Behind the values of a list so far: its closing bracket, or a comma and further values. -/
def FollowAtFront (items : List Tree) (s rest : Bytes) : Prop :=
  (items = [] ∧ skipBlank s = Ascii.closeSquare :: rest) ∨
    ∃ t, items ≠ [] ∧ skipBlank s = Ascii.comma :: t ∧ ItemsAtFront items t rest

/-- The remaining values of a list, when values of the given keys have been read. -/
def RemainAtFront (met : List String) (items : List Tree) (s rest : Bytes) : Prop :=
  if met = [] then ItemsAtFront items s rest else FollowAtFront items s rest

theorem remainAtFront_nil (met : List String) (h : skipBlank s = Ascii.closeSquare :: rest) :
    RemainAtFront met [] s rest := by
  unfold RemainAtFront
  split
  · exact itemsAtFront_nil h
  · exact .inl ⟨rfl, h⟩

theorem itemsAtFront_cons {items : List Tree} {mid : Bytes} (h : AtFront tree s mid)
    (hitems : FollowAtFront items mid rest) : ItemsAtFront (tree :: items) s rest := by
  obtain ⟨rfl, hmid⟩ | ⟨t, hne, hmid, hitems⟩ := hitems
  · exact h.last hmid
  · exact h.more hmid hitems hne

theorem remainAtFront_cons {met : List String} {b : UInt8} {hr : t.length < s.length} {u : Tail s}
    {items : List Tree} {mid : Bytes} (hstart : values.start met b t hr = .ok u)
    (hs : skipBlank s = b :: t) (h : AtFront tree u.1 mid) (hitems : FollowAtFront items mid rest) :
    RemainAtFront met (tree :: items) s rest := by
  unfold values.start at hstart
  unfold RemainAtFront
  split at hstart
  · next hmet =>
    cases hstart
    rw [if_pos hmet]
    have h : AtFront tree (b :: t) mid := h
    rw [← hs] at h
    exact itemsAtFront_cons h.of_skipBlank hitems
  next hmet =>
  rw [if_neg hmet]
  split at hstart
  · next hb =>
    split at hstart
    · cases hstart
    · cases hstart
      exact .inr ⟨t, List.cons_ne_nil _ _, hb ▸ hs, itemsAtFront_cons h hitems⟩
  · cases hstart

/-- The values of a list are read to its end: with those that were done before, they fill the first
keys. -/
def Completes (shape : Shape σ) (fills : String → Tree → σ → σ → Prop) (keys : List String)
    (done : List Tree) (met : List String) (s rest : Bytes) (x : σ × List String) : Prop :=
  ∃ more, RemainAtFront met more s rest ∧ more.length ≤ keys.length ∧
    shape.Filled fills (shape.keys.zip (done ++ more)) x.1 ∧
    x.2 = (shape.keys.zip (done ++ more)).map Prod.fst

theorem completes_of_closing {keys met : List String} {done : List Tree} {x : σ}
    (hkeys : shape.keys = met ++ keys) (hdone : met.length = done.length)
    (hfilled : shape.Filled fills (met.zip done) x)
    (hs : skipBlank s = Ascii.closeSquare :: rest) :
    shape.Completes fills keys done met s rest (x, met) := by
  have hzip : shape.keys.zip (done ++ []) = met.zip done := by
    rw [hkeys, List.zip_append hdone, List.zip_nil_right, List.append_nil]
  refine ⟨[], remainAtFront_nil met hs, Nat.zero_le _, ?_, ?_⟩
  · rwa [hzip]
  · rw [hzip, List.map_fst_zip (Nat.le_of_eq hdone)]

theorem values_ok (hfill : ∀ key ∈ shape.keys, ∀ x,
      Accepts (shape.fill key x) fun tree y => fills key tree x y) {keys met : List String}
    {done : List Tree} {x : σ} {y : σ × List String} {s : Bytes} {r : Rest s}
    (hkeys : shape.keys = met ++ keys) (hdone : met.length = done.length)
    (hfilled : shape.Filled fills (met.zip done) x)
    (h : shape.values keys (x, met) s = .ok (y, r)) :
    shape.Completes fills keys done met s r.1 y := by
  induction keys generalizing done x met s with
  | nil =>
    obtain ⟨u, hclosed, h⟩ := Stopping.map_ok h
    cases h
    exact completes_of_closing hkeys hdone hfilled (closed_ok hclosed)
  | cons key keys ih =>
    unfold values at h
    split at h
    · cases h
    next b t hs =>
    split at h
    · next hb =>
      cases h
      exact completes_of_closing hkeys hdone hfilled (hs.trans (congrArg (· :: _) hb))
    obtain ⟨⟨u, hu⟩, hstart, h⟩ := Stopping.bind_ok h
    obtain ⟨⟨z, v⟩, hz, h⟩ := Stopping.bind_ok h
    obtain ⟨⟨all, w⟩, hvalues, h⟩ := Stopping.bind_ok h
    cases h
    have hkey : key ∈ shape.keys := hkeys ▸ List.mem_append_right _ List.mem_cons_self
    obtain ⟨tree, htree, hfills⟩ := hfill key hkey x _ z _ hz
    have hnext : shape.Filled fills ((met ++ [key]).zip (done ++ [tree])) z := by
      rw [List.zip_append hdone]
      exact hfilled.fill hkey hfills
    obtain ⟨more, hmore, hlen, hall, hmet⟩ := ih (hkeys.trans (List.append_cons met key keys))
      (by simp [hdone]) hnext hvalues
    rw [RemainAtFront, if_neg (by simp)] at hmore
    rw [← List.append_cons] at hall hmet
    exact ⟨tree :: more, remainAtFront_cons hstart hs htree hmore, Nat.succ_le_succ hlen, hall,
      hmet⟩

/-- A declaration that is read from a tree is what the tree declares. -/
theorem read_ok (hfill : ∀ key ∈ shape.keys, ∀ x,
      Accepts (shape.fill key x) fun tree y => fills key tree x y) :
    Accepts shape.read (shape.Means fills) := by
  intro s x r h
  unfold read at h
  split at h
  · cases h
  next b t hs =>
  split at h
  · next hb =>
    obtain ⟨⟨y, u⟩, hobject, h⟩ := Stopping.map_ok h
    cases h
    have hstart : shape.Taken fills [] (shape.start, []) := ⟨[], .nil, .start, rfl, .nil⟩
    obtain ⟨all, hall, decoded, hdecoded, hfilled, hmet, hnodup⟩ :=
      object_ok (member_ok hfill) hstart hobject
    exact ⟨.object all, hall.object (hb ▸ hs), _, .object hdecoded (hmet ▸ hnodup), hfilled, hmet⟩
  split at h
  · next hb =>
    obtain ⟨⟨y, u⟩, hvalues, h⟩ := Stopping.map_ok h
    cases h
    have hnone : shape.Filled fills (([] : List String).zip ([] : List Tree)) shape.start := .start
    obtain ⟨values, hitems, hlen, hfilled, hmet⟩ :=
      values_ok hfill (List.nil_append _).symm rfl hnone hvalues
    rw [RemainAtFront, if_pos rfl] at hitems
    exact ⟨.list values, hitems.list (hb ▸ hs), _, .list hlen, hfilled, hmet⟩
  · cases h

/-- An object gives the known keys that its members' keys denote. -/
theorem Gives.mem_keys_iff {members : List (Bytes × Tree)} {entries : List (String × Tree)}
    (h : shape.Gives (.object members) entries) {key : String} (hkey : key ∈ shape.keys) :
    key ∈ entries.map Prod.fst ↔ ∃ member ∈ members, Denotes member.1 key := by
  cases h with
  | @object members decoded hdecoded hnodup =>
    clear hnodup
    have hsame : (∃ entry ∈ decoded, entry.1 = key) ↔ ∃ member ∈ members, Denotes member.1 key := by
      induction hdecoded with
      | nil => simp
      | @cons member entry _ _ hentry _ ih =>
        have hhead : entry.1 = key ↔ Denotes member.1 key :=
          ⟨fun heq => heq ▸ hentry.1, fun hdenotes => hentry.1.unique hdenotes⟩
        simp only [List.mem_cons, exists_eq_or_imp, hhead, ih]
    rw [← hsame, List.mem_map]
    constructor
    · rintro ⟨entry, hentry, heq⟩
      exact ⟨entry, (List.mem_filter.mp hentry).1, heq⟩
    · rintro ⟨entry, hentry, heq⟩
      exact ⟨entry, List.mem_filter.mpr ⟨hentry, by simpa [heq] using hkey⟩, heq⟩

/-- A list gives as many keys as it has values. -/
theorem Gives.keys_eq_take {values : List Tree} {entries : List (String × Tree)}
    (h : shape.Gives (.list values) entries) :
    values.length ≤ shape.keys.length ∧
      entries.map Prod.fst = shape.keys.take values.length := by
  cases h with
  | list hlen =>
    refine ⟨hlen, ?_⟩
    rw [List.zip_eq_zip_take_min, Nat.min_eq_right hlen, List.map_fst_zip (by simp [hlen])]

/-- What only one key can change is as it was at the start as long as that key is not given. -/
theorem Filled.eq_start {β : Type} (part : σ → β) {key : String}
    (hother : ∀ k ∈ shape.keys, k ≠ key → ∀ tree x y, fills k tree x y → part y = part x)
    {entries : List (String × Tree)} {x : σ} (h : shape.Filled fills entries x)
    (hkey : key ∉ entries.map Prod.fst) : part x = part shape.start := by
  induction h with
  | start => rfl
  | @fill entries k tree x y _ hk hfills ih =>
    simp only [List.map_append, List.mem_append, not_or, List.map_cons, List.map_nil,
      List.mem_singleton] at hkey
    rw [hother k hk (Ne.symm hkey.2) tree x y hfills, ih hkey.1]

end Shape

/-! ## Whole texts -/

theorem ended_ok {u : Unit} (h : ended s = .ok u) : Blank s := by
  obtain ⟨before, hbefore, hs⟩ := exists_blank_append_skipBlank s
  unfold ended at h
  split at h
  · next hnil =>
    rw [hnil, List.append_nil] at hs
    rwa [hs]
  · cases h

/-- A text that is read whole spells a value, and what is returned is what its tree means. -/
theorem readAll_ok {read : Reader α} {means : Tree → α → Prop} (hread : Accepts read means) {x : α}
    (h : readAll read s = .ok x) : ∃ tree, SpellsPadded tree s ∧ means tree x := by
  unfold readAll at h
  split at h
  · next y hy =>
    cases h
    obtain ⟨⟨z, r⟩, hz, hy⟩ := Stopping.bind_ok hy
    obtain ⟨u, hended, hy⟩ := Stopping.bind_ok hy
    cases hy
    obtain ⟨tree, ⟨before, text, hbefore, htext, hs⟩, hmeans⟩ := hread s _ r hz
    refine ⟨tree, ?_, hmeans⟩
    rw [hs]
    exact .mk hbefore htext (ended_ok hended)
  · cases h

end TypedCollections.Json
