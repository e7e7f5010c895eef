import TypedCollections.Proofs.Service.Paging
import TypedCollections.Proofs.Service.Sending
import TypedCollections.Proofs.Stopping

/-!
Answers that are no objects. Where a record is expected they are refused. Where a page is expected
there is one kind that is not: a list that holds the parts of a page, or the first few of them, in
their order. Such a list may end the fetching of all records, with success, as a short page does.
-/

namespace TypedCollections

open Json (Value)
open Stopping (bind_ok bind_ok_iff map_ok)

namespace Page

/-- The parts of a page in the order in which a list gives them. -/
def parts (p : Page Record) : List Value :=
  [.number (.integer p.page), .number (.integer p.perPage), .number (.integer p.totalItems),
    .number (.integer p.totalPages), .array (p.items.map Record.toJson)]

/-- The counts of a page have 32 bits, and its totals 64. -/
structure Fits (p : Page Record) : Prop where
  page : p.page < 2 ^ 32
  perPage : p.perPage < 2 ^ 32
  totalItems : -2 ^ 63 ≤ p.totalItems ∧ p.totalItems < 2 ^ 63
  totalPages : -2 ^ 63 ≤ p.totalPages ∧ p.totalPages < 2 ^ 63

/-- The values are the first parts of a page, and the other ones are zero. -/
structure Lists (values : List Value) (p : Page Record) : Prop where
  fits : p.Fits
  first : values = p.parts.take values.length
  others : p.parts.drop values.length = ({} : Page Record).parts.drop values.length

/-- A value is a list of the first parts of a page. -/
def Listed (v : Value) (p : Page Record) : Prop := ∃ values, v = .array values ∧ Lists values p

variable {v : Value} {p q : Page Record} {values : List Value}

theorem integer_ok {name : String} {least greatest i : Int}
    (h : integer name least greatest v = .ok i) :
    v = .number (.integer i) ∧ least ≤ i ∧ i ≤ greatest := by
  unfold integer at h
  split at h
  · split at h
    · next hin =>
      cases h
      exact ⟨rfl, hin⟩
    · cases h
  · cases h

theorem count_ok {n : Nat} (h : count v = .ok n) : v = .number (.integer n) ∧ n < 2 ^ 32 := by
  obtain ⟨i, hi, rfl⟩ := map_ok h
  obtain ⟨rfl, hleast, hgreatest⟩ := integer_ok hi
  obtain ⟨n, rfl⟩ := Int.eq_ofNat_of_zero_le hleast
  exact ⟨rfl, by simp only [Int.toNat_natCast]; omega⟩

theorem total_ok {i : Int} (h : total v = .ok i) :
    v = .number (.integer i) ∧ -2 ^ 63 ≤ i ∧ i < 2 ^ 63 := by
  obtain ⟨rfl, hleast, hgreatest⟩ := integer_ok h
  exact ⟨rfl, hleast, by omega⟩

theorem record_ok {r : Record} (h : record v = .ok r) : v = r.toJson := by
  unfold record at h
  split at h
  · cases h
    rfl
  · cases h

theorem mapM_record_ok {items : List Record} (h : values.mapM record = .ok items) :
    values = items.map Record.toJson := by
  induction values generalizing items with
  | nil =>
    cases h
    rfl
  | cons v rest ih =>
    rw [List.mapM_cons] at h
    obtain ⟨r, hr, h⟩ := bind_ok h
    obtain ⟨others, hothers, h⟩ := bind_ok h
    cases h
    rw [List.map_cons, record_ok hr, ih hothers]

theorem records_ok {items : List Record} (h : records v = .ok items) :
    v = .array (items.map Record.toJson) := by
  unfold records at h
  split at h
  · rw [mapM_record_ok h]
  · cases h

/-- The part with the key of a place is put there. -/
theorem parts_fill {k : Nat} {key : String} (hkey : keys[k]? = some key)
    (h : p.fill key v = .ok q) (hp : p.Fits) : q.parts = p.parts.set k v ∧ q.Fits := by
  match k with
  | 0 =>
    obtain rfl : "page" = key := Option.some.inj hkey
    obtain ⟨n, hn, rfl⟩ := map_ok h
    obtain ⟨rfl, hlt⟩ := count_ok hn
    exact ⟨rfl, { hp with page := hlt }⟩
  | 1 =>
    obtain rfl : "perPage" = key := Option.some.inj hkey
    obtain ⟨n, hn, rfl⟩ := map_ok h
    obtain ⟨rfl, hlt⟩ := count_ok hn
    exact ⟨rfl, { hp with perPage := hlt }⟩
  | 2 =>
    obtain rfl : "totalItems" = key := Option.some.inj hkey
    obtain ⟨i, hi, rfl⟩ := map_ok h
    obtain ⟨rfl, hin⟩ := total_ok hi
    exact ⟨rfl, { hp with totalItems := hin }⟩
  | 3 =>
    obtain rfl : "totalPages" = key := Option.some.inj hkey
    obtain ⟨i, hi, rfl⟩ := map_ok h
    obtain ⟨rfl, hin⟩ := total_ok hi
    exact ⟨rfl, { hp with totalPages := hin }⟩
  | 4 =>
    obtain rfl : "items" = key := Option.some.inj hkey
    obtain ⟨items, hitems, rfl⟩ := map_ok h
    exact ⟨by rw [records_ok hitems]; rfl, { hp with }⟩
  | k + 5 => cases hkey

/-- One more value is one more part. -/
theorem Lists.fill {key : String} (hp : Lists values p) (hkey : keys[values.length]? = some key)
    (h : p.fill key v = .ok q) : Lists (values ++ [v]) q := by
  obtain ⟨hparts, hfits⟩ := parts_fill hkey h hp.fits
  have hlt : values.length < p.parts.length := (List.getElem?_eq_some_iff.mp hkey).1
  refine ⟨hfits, ?_, ?_⟩
  · rw [List.length_append, List.length_singleton, hparts, List.take_add_one, List.take_set_of_le
      (Nat.le_refl _), List.getElem?_set_self hlt, ← hp.first]
    rfl
  · have hothers := congrArg (List.drop 1) hp.others
    rw [List.drop_drop, List.drop_drop] at hothers
    rw [List.length_append, List.length_singleton, hparts, List.drop_set_of_lt (Nat.lt_succ_self _)]
    exact hothers

/-- The values are taken in one by one. The induction is on those that are left. -/
theorem lists_of_foldlM {rest : List Value} (hp : Lists values p)
    (hlength : values.length + rest.length ≤ keys.length)
    (h : ((keys.drop values.length).zip rest).foldlM (fun p (key, v) => p.fill key v) p = .ok q) :
    Lists (values ++ rest) q := by
  induction rest generalizing values p with
  | nil =>
    rw [List.zip_nil_right] at h
    cases h
    rwa [List.append_nil]
  | cons v rest ih =>
    rw [List.length_cons] at hlength
    have hlt : values.length < keys.length := by omega
    rw [List.drop_eq_getElem_cons hlt, List.zip_cons_cons, List.foldlM_cons] at h
    obtain ⟨next, hnext, hrest⟩ := bind_ok h
    have hlists := hp.fill (List.getElem?_eq_getElem hlt) hnext
    have hdone : (values ++ [v]).length = values.length + 1 := List.length_append
    have := ih hlists (by omega) (by rwa [hdone])
    rwa [List.append_assoc] at this

theorem lists_nil : Lists [] {} where
  fits := ⟨by decide, by decide, by decide, by decide⟩
  first := rfl
  others := rfl

theorem lists_of_ofJson (h : ofJson (.array values) = .ok p) : Lists values p := by
  obtain ⟨q, hq, h⟩ := bind_ok h
  split at h
  · cases h
  · next hlength =>
    cases h
    exact lists_of_foldlM lists_nil (by simpa using hlength) hq

/-- The page with its first parts only. -/
def front (p : Page Record) (n : Nat) : Page Record where
  page := if 0 < n then p.page else 0
  perPage := if 1 < n then p.perPage else 0
  totalItems := if 2 < n then p.totalItems else 0
  totalPages := if 3 < n then p.totalPages else 0
  items := if 4 < n then p.items else []

theorem fill_front {k : Nat} {key : String} (hp : p.Fits) (hkey : keys[k]? = some key)
    (hv : p.parts[k]? = some v) : (p.front k).fill key v = .ok (p.front (k + 1)) := by
  match k with
  | 0 =>
    cases hkey
    cases hv
    exact congrArg (Except.map _) (count_ofNat hp.page)
  | 1 =>
    cases hkey
    cases hv
    exact congrArg (Except.map _) (count_ofNat hp.perPage)
  | 2 =>
    cases hkey
    cases hv
    exact congrArg (Except.map _) (total_ofInt hp.totalItems.1 hp.totalItems.2)
  | 3 =>
    cases hkey
    cases hv
    exact congrArg (Except.map _) (total_ofInt hp.totalPages.1 hp.totalPages.2)
  | 4 =>
    cases hkey
    cases hv
    exact congrArg (Except.map _) (mapM_record p.items)
  | k + 5 => cases hkey

theorem foldlM_front {k : Nat} {rest : List Value} (hp : p.Fits) (h : rest <+: p.parts.drop k) :
    ((keys.drop k).zip rest).foldlM (fun p (key, v) => p.fill key v) (p.front k) =
      .ok (p.front (k + rest.length)) := by
  induction rest generalizing k with
  | nil =>
    rw [List.zip_nil_right]
    rfl
  | cons v rest ih =>
    obtain ⟨more, hmore⟩ := h
    have hlt : k < p.parts.length := by
      refine Nat.lt_of_not_le fun hle => ?_
      rw [List.drop_eq_nil_of_le hle] at hmore
      cases hmore
    have hkeys : k < keys.length := hlt
    rw [List.drop_eq_getElem_cons hlt, List.cons_append] at hmore
    obtain ⟨hv, hmore⟩ := List.cons.inj hmore
    have hfill := fill_front hp (List.getElem?_eq_getElem hkeys)
      (hv ▸ List.getElem?_eq_getElem hlt)
    rw [List.drop_eq_getElem_cons hkeys, List.zip_cons_cons, List.foldlM_cons]
    simp only [hfill]
    have := ih ⟨more, hmore⟩
    rw [List.length_cons, Nat.add_comm rest.length, ← Nat.add_assoc]
    exact this

theorem front_of_others {n : Nat} (h : p.parts.drop n = ({} : Page Record).parts.drop n) :
    p.front n = p := by
  obtain ⟨page, perPage, totalItems, totalPages, items⟩ := p
  match n with
  | 0 | 1 | 2 | 3 | 4 => simpa [parts, front, eq_comm] using h
  | n + 5 => simp [front]

theorem ofJson_of_lists (h : Lists values p) : ofJson (.array values) = .ok p := by
  have hfold := foldlM_front (k := 0) h.fits (h.first ▸ List.take_prefix _ _)
  have hlength : ¬ keys.length < values.length := by
    rw [h.first]
    exact Nat.not_lt.mpr (List.length_take_le' _ _)
  rw [Nat.zero_add, front_of_others h.others] at hfold
  exact bind_ok_iff.mpr ⟨p, hfold, if_neg hlength⟩

/-- A list is taken for a page exactly if it gives the first parts of one. -/
theorem ofJson_array_iff : ofJson (.array values) = .ok p ↔ Lists values p :=
  ⟨lists_of_ofJson, ofJson_of_lists⟩

/-- A page is read from an answer that is no object exactly if it is such a list. -/
theorem ofJson_of_nonObject (hv : ∀ members, v ≠ .object members) :
    ofJson v = .ok p ↔ Listed v p := by
  cases v with
  | object members => exact absurd rfl (hv members)
  | array values =>
    rw [ofJson_array_iff]
    constructor
    · exact fun h => ⟨values, rfl, h⟩
    · rintro ⟨_, heq, h⟩
      cases heq
      exact h
  | null | boolean | number | string =>
    constructor
    · exact fun h => nomatch h
    · rintro ⟨_, heq, -⟩
      cases heq

end Page

namespace Service

variable {α : Type} [Model α]

/-- The answer that a call ends with is refused. -/
def Refused {β : Type} (result : Except ClientError β × Session) : Prop :=
  ∃ why, result.1 = .error (.decode why)

/-- The request for a page that the caller numbers. -/
def listRequest (collection : String) (options : Option ListOptions) : Request where
  method := .get
  path := Request.recordsPath collection
  query := (options.map ListOptions.query).getD []

section Answer

variable {collection : String} {v : Value} {s : Session}

theorem decodeModel_of_nonObject (hv : ∀ members, v ≠ .object members) :
    decodeModel (α := α) v = .error (.decode ("expected a record object, got " ++ kindOf v)) := by
  cases v with
  | object members => exact absurd rfl (hv members)
  | _ => rfl

theorem refused_call (hv : ∀ members, v ≠ .object members) {r : Request}
    (h : s.reply r = .ok v) : Refused (call (β := α) r decodeModel s) := by
  rw [call_eq, h]
  exact ⟨_, decodeModel_of_nonObject hv⟩

theorem refused_getOne (hv : ∀ members, v ≠ .object members) {id : String}
    {options : Option RecordOptions}
    (h : s.reply (recordRequest .get (Request.recordPath collection id) options) = .ok v) :
    Refused (getOne (α := α) collection id options s) := by
  obtain ⟨why, hwhy⟩ := refused_call (α := α) hv h
  unfold getOne
  dsimp only
  split
  · next heq =>
    cases (congrArg Prod.fst heq).symm.trans hwhy
  · exact ⟨why, hwhy⟩

theorem getList_eq {options : Option ListOptions}
    (h : s.reply (listRequest collection options) = .ok v) :
    (getList (α := α) collection options s).1 = decodePage v := by
  have hcall := call_eq (listRequest collection options) (decodePage (α := α)) s
  rw [h] at hcall
  exact congrArg Prod.fst hcall

theorem decodePage_of_listed (hv : ∀ members, v ≠ .object members) {p : Page Record}
    (h : Page.Listed v p) : decodePage (α := α) v = .ok (p.map Model.ofRecord) := by
  rw [decodePage, (Page.ofJson_of_nonObject hv).mpr h]

theorem decodePage_of_not_listed (hv : ∀ members, v ≠ .object members)
    (h : ∀ p, ¬ Page.Listed v p) : ∃ why, decodePage (α := α) v = .error (.decode why) := by
  unfold decodePage
  cases hp : Page.ofJson v with
  | ok p => exact absurd ((Page.ofJson_of_nonObject hv).mp hp) (h p)
  | error why => exact ⟨why.message, rfl⟩

end Answer

section Pages

variable {collection : String} {options : Option ListOptions} {s : Session}
  {pages : List (List Record)}

/-- The page is asked for and answered with this. -/
structure IsAnswered (collection : String) (options : Option ListOptions) (s : Session) (page : Nat)
    (v : Value) : Prop where
  wanted : (before collection options s page).cancelled = false
  reply : (before collection options s page).reply (allRequest collection options page) = .ok v

theorem IsAnswered.getList {page : Nat} {v : Value} (hpage : 1 ≤ page)
    (h : IsAnswered collection options s page v) :
    getList (α := α) collection (some { allOptions options with page })
        (before collection options s page) =
      (decodePage v, before collection options s (page + 1)) := by
  rw [getList_before collection options s α hpage, h.reply]

/-- A list of the first parts of a page ends the call, or goes to what is found. -/
theorem getAll_of_listed {v : Value} (hv : ∀ members, v ≠ .object members)
    (hfull : ∀ j items, pages[j]? = some items → IsFull collection options s (j + 1) items)
    (h : IsAnswered collection options s (pages.length + 1) v) {p : Page Record}
    (hlisted : Page.Listed v p) :
    (p.items.length < pageSize (options.getD {}).perPage →
      (getAll (α := α) collection options s).1 =
        .ok ((pages.flatten ++ p.items).map Model.ofRecord)) ∧
    (pageSize (options.getD {}).perPage ≤ p.items.length →
      IsFull collection options s (pages.length + 1) p.items) := by
  constructor
  · intro hshort
    rw [getAll_of_isFull α hfull, getPages_of_page α (Nat.le_add_left 1 _) h.wanted h.reply
      ((Page.ofJson_of_nonObject hv).mpr hlisted), if_pos hshort]
  · exact fun hle =>
      ⟨h.wanted, ⟨v, p, h.reply, (Page.ofJson_of_nonObject hv).mpr hlisted, rfl⟩, hle⟩

theorem refused_getAll {v : Value} (hv : ∀ members, v ≠ .object members)
    (hfull : ∀ j items, pages[j]? = some items → IsFull collection options s (j + 1) items)
    (h : IsAnswered collection options s (pages.length + 1) v)
    (hlisted : ∀ p, ¬ Page.Listed v p) : Refused (getAll (α := α) collection options s) := by
  obtain ⟨why, hwhy⟩ := decodePage_of_not_listed (α := α) hv hlisted
  have hlist := h.getList (α := α) (Nat.le_add_left 1 _)
  rw [hwhy] at hlist
  rw [getAll_of_isFull α hfull, getPages_of_error h.wanted hlist]
  exact ⟨why, rfl⟩

end Pages

/-- An answer that is no object is refused where a record is expected. Where a page is expected it
is refused unless it is a list of the first parts of a page. If it is one, it is taken for the page,
and a page of all records that is not full ends the call with success. -/
theorem nonObject_answers (collection : String) {v : Value} (hv : ∀ members, v ≠ .object members)
    (s : Session) :
    (∀ id options,
      s.reply (recordRequest .get (Request.recordPath collection id) options) = .ok v →
        Refused (getOne (α := α) collection id options s)) ∧
    (∀ (m : α) options,
      s.reply (recordRequest .post (Request.recordsPath collection) options
        (.json (newRecord m).toJson)) = .ok v → Refused (create collection m options s)) ∧
    (∀ id (m : α) options,
      s.reply (recordRequest .patch (Request.recordPath collection id) options
        (.json (Model.toRecord m).toJson)) = .ok v → Refused (update collection id m options s)) ∧
    (∀ options, s.reply (listRequest collection options) = .ok v →
      ((∀ p, ¬ Page.Listed v p) → Refused (getList (α := α) collection options s)) ∧
      ∀ p, Page.Listed v p →
        (getList (α := α) collection options s).1 = .ok (p.map Model.ofRecord)) ∧
    ∀ (options : Option ListOptions) (pages : List (List Record)),
      (∀ j items, pages[j]? = some items → IsFull collection options s (j + 1) items) →
      IsAnswered collection options s (pages.length + 1) v →
      ((∀ p, ¬ Page.Listed v p) → Refused (getAll (α := α) collection options s)) ∧
      ∀ p, Page.Listed v p →
        (p.items.length < pageSize (options.getD {}).perPage →
          (getAll (α := α) collection options s).1 =
            .ok ((pages.flatten ++ p.items).map Model.ofRecord)) ∧
        (pageSize (options.getD {}).perPage ≤ p.items.length →
          IsFull collection options s (pages.length + 1) p.items) := by
  refine ⟨fun _ _ => refused_getOne hv, fun _ _ => refused_call hv, fun _ _ _ => refused_call hv,
    fun options hreply => ?_, fun options pages hfull h =>
      ⟨refused_getAll hv hfull h, fun p => getAll_of_listed hv hfull h⟩⟩
  have hlist := getList_eq (α := α) hreply
  constructor
  · intro hlisted
    obtain ⟨why, hwhy⟩ := decodePage_of_not_listed (α := α) hv hlisted
    exact ⟨why, hlist.trans hwhy⟩
  · exact fun p hlisted => hlist.trans (decodePage_of_listed hv hlisted)

def note : Record := ⟨[("id", .string "a")]⟩

/-- A store with one full page, whose next answer is given. -/
def noteStore (v : Value) : Session where
  pending := [{ answer := fun _ => .ok (.object [("items", .array [note.toJson])]) },
    { answer := fun _ => .ok v }]
  exhausted := ⟨599, ""⟩

theorem isFull_noteStore (v : Value) (j : Nat) (items : List Record)
    (h : [[note]][j]? = some items) :
    IsFull "notes" (some { perPage := 1 }) (noteStore v) (j + 1) items := by
  match j with
  | 0 =>
    cases h
    exact ⟨rfl, ⟨_, { items := [note] }, rfl, rfl, rfl⟩, Nat.le_refl 1⟩
  | j + 1 => cases h

theorem isAnswered_noteStore (v : Value) :
    IsAnswered "notes" (some { perPage := 1 }) (noteStore v) 2 v := ⟨rfl, rfl⟩

/-- No page can be read from null, so fetching all records fails on the second page. -/
theorem nonObject_answers_null :
    (∀ members, Value.null ≠ .object members) ∧ (∀ p, ¬ Page.Listed .null p) ∧
      Refused (getAll (α := Record) "notes" (some { perPage := 1 }) (noteStore .null)) := by
  have hv : ∀ members, Value.null ≠ .object members := fun _ h => nomatch h
  have hlisted : ∀ p, ¬ Page.Listed .null p := fun _ ⟨_, h, _⟩ => nomatch h
  obtain ⟨-, -, -, -, hpages⟩ := nonObject_answers (α := Record) "notes" hv (noteStore .null)
  exact ⟨hv, hlisted, (hpages (some { perPage := 1 }) [[note]] (isFull_noteStore .null)
    (isAnswered_noteStore .null)).1 hlisted⟩

/-- The empty list is taken for a page without records: alone, and as the second page, where it
ends the call with success. -/
theorem getAll_emptyList :
    (∀ members, Value.array [] ≠ .object members) ∧
      (getList (α := Record) "notes" none
        { pending := [{ answer := fun _ => .ok (.array []) }], exhausted := ⟨599, ""⟩ }).1 =
          .ok {} ∧
      IsAnswered "notes" (some { perPage := 1 }) (noteStore (.array [])) 2 (.array []) ∧
      (getAll (α := Record) "notes" (some { perPage := 1 }) (noteStore (.array []))).1 =
        .ok [note] := by
  have hv : ∀ members, Value.array [] ≠ .object members := fun _ h => nomatch h
  refine ⟨hv, rfl, isAnswered_noteStore _, ?_⟩
  exact (getAll_of_listed hv (isFull_noteStore _) (isAnswered_noteStore _)
    ⟨[], rfl, Page.lists_nil⟩).1 Nat.one_pos

end Service
end TypedCollections
