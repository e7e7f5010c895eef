import TypedCollections.Proofs.Service.Ending

/-!
Fetching all records while others are added. A store that serves each page from the list it has by
then, where each list only goes on from the one before, hands out each record of the last list once
and in order: what was found on full pages is the front of every later list.
-/

namespace TypedCollections

open Json (Value)

/-! ## Answers -/

namespace Page

/-- What a part of an answer must be for the answer to hold the records, whatever else is counted in
it. -/
def IsPart (items : List Record) (key : String) (v : Value) : Prop :=
  (key ∈ ["page", "perPage"] → ∃ n : Nat, n < 2 ^ 32 ∧ v = .number (.integer n)) ∧
    (key ∈ ["totalItems", "totalPages"] →
      ∃ i : Int, -2 ^ 63 ≤ i ∧ i < 2 ^ 63 ∧ v = .number (.integer i)) ∧
    (key = "items" → v = .array (items.map Record.toJson))

/-- An answer that holds the records: an object, or the list of its parts. -/
inductive Holds (items : List Record) : Value → Prop
  | object {members : List (String × Value)} (items_mem : "items" ∈ members.map Prod.fst)
      (parts : ∀ entry ∈ members, IsPart items entry.1 entry.2) : Holds items (.object members)
  | list {values : List Value} (length : values.length = keys.length)
      (parts : ∀ entry ∈ keys.zip values, IsPart items entry.1 entry.2) :
    Holds items (.array values)

theorem mapM_record (items : List Record) : (items.map Record.toJson).mapM record = .ok items := by
  induction items with
  | nil => rfl
  | cons r rest ih =>
    rw [List.map_cons, List.mapM_cons, ih]
    rfl

theorem count_ofNat {n : Nat} (h : n < 2 ^ 32) : count (.number (.integer n)) = .ok n := by
  have hin : (0 : Int) ≤ n ∧ (n : Int) ≤ 2 ^ 32 - 1 := by omega
  simp only [count, integer]
  rw [if_pos hin]
  rfl

theorem total_ofInt {i : Int} (h : -2 ^ 63 ≤ i) (h' : i < 2 ^ 63) :
    total (.number (.integer i)) = .ok i := by
  have hin : -2 ^ 63 ≤ i ∧ i ≤ 2 ^ 63 - 1 := by omega
  simp only [total, integer]
  rw [if_pos hin]

/-- Only one of the parts changes the records of a page. -/
theorem fill_part {items : List Record} {key : String} {v : Value} (h : IsPart items key v)
    (p : Page Record) :
    ∃ q, p.fill key v = .ok q ∧ q.items = if key = "items" then items else p.items := by
  obtain ⟨hcount, htotal, hitems⟩ := h
  unfold fill
  split
  · next heq =>
    obtain ⟨n, hn, rfl⟩ := hcount (by simp [heq])
    exact ⟨_, by rw [count_ofNat hn]; rfl, by simp [heq]⟩
  split
  · next heq =>
    obtain ⟨n, hn, rfl⟩ := hcount (by simp [heq])
    exact ⟨_, by rw [count_ofNat hn]; rfl, by simp [heq]⟩
  split
  · next heq =>
    obtain ⟨i, hi, hi', rfl⟩ := htotal (by simp [heq])
    exact ⟨_, by rw [total_ofInt hi hi']; rfl, by simp [heq]⟩
  split
  · next heq =>
    obtain ⟨i, hi, hi', rfl⟩ := htotal (by simp [heq])
    exact ⟨_, by rw [total_ofInt hi hi']; rfl, by simp [heq]⟩
  split
  · next heq =>
    rw [hitems heq]
    exact ⟨_, by rw [records, mapM_record]; rfl, rfl⟩
  · exact ⟨p, rfl, rfl⟩

theorem foldlM_fill {items : List Record} {entries : List (String × Value)}
    (h : ∀ entry ∈ entries, IsPart items entry.1 entry.2) (p : Page Record) :
    ∃ q, entries.foldlM (fun p (key, v) => p.fill key v) p = .ok q ∧
      q.items = if "items" ∈ entries.map Prod.fst then items else p.items := by
  induction entries generalizing p with
  | nil => exact ⟨p, rfl, rfl⟩
  | cons entry rest ih =>
    obtain ⟨key, v⟩ := entry
    obtain ⟨q, hq, hitems⟩ := fill_part (h (key, v) List.mem_cons_self) p
    obtain ⟨q', hq', hitems'⟩ := ih (fun entry he => h entry (List.mem_cons_of_mem _ he)) q
    refine ⟨q', ?_, ?_⟩
    · rw [List.foldlM_cons]
      simp only [hq]
      exact hq'
    · rw [hitems', hitems]
      by_cases hkey : key = "items"
      · simp [hkey]
      · simp only [List.map_cons, List.mem_cons, hkey, Ne.symm hkey, false_or, if_false]

theorem ofJson_of_holds {items : List Record} {v : Value} (h : Holds items v) :
    ∃ p, ofJson v = .ok p ∧ p.items = items := by
  cases h with
  | object hmem hparts =>
    obtain ⟨p, hp, hitems⟩ := foldlM_fill hparts {}
    exact ⟨p, hp, by rw [hitems, if_pos hmem]⟩
  | @list values hlength hparts =>
    obtain ⟨p, hp, hitems⟩ := foldlM_fill hparts {}
    refine ⟨p, ?_, ?_⟩
    · rw [ofJson, hp]
      simp [hlength, bind, Except.bind, pure, Except.pure]
    · have hkeys : (keys.zip values).map Prod.fst = keys :=
        List.map_fst_zip (Nat.le_of_eq hlength.symm)
      rw [hitems, hkeys, if_pos (by decide)]

end Page

/-! ## The store -/

/-- The records of a page of a list: those behind the pages before it, as many as fit. -/
def slice (list : List Record) (page size : Nat) : List Record :=
  (list.drop ((page - 1) * size)).take size

/-- The answer to one request does not end the call, and gives whoever asks for the page of that
size the records of the list that lie there. -/
structure Response.Serves (response : Response) (list : List Record) (page size : Nat) : Prop where
  lasts : response.cancels = false
  answers : ∀ r : Request, r.parameter? "page" = some (toString page) →
    r.parameter? "perPage" = some (toString size) →
      ∃ v, response.answer r = .ok v ∧ Page.Holds (slice list page size) v

/-- The first `n` answers serve the first `n` pages, each from a list of its own. -/
def Session.Serves (s : Session) (lists : Nat → List Record) (size n : Nat) : Prop :=
  ∀ i, 1 ≤ i → i ≤ n → ∃ response, s.pending[i - 1]? = some response ∧
    response.Serves (lists i) i size

section Growing

variable {lists : Nat → List Record} {k size : Nat}

theorem le_of_growing (hgrow : ∀ i, 1 ≤ i → lists i <+: lists (i + 1)) {i j : Nat}
    (hi : 1 ≤ i) (hij : i ≤ j) : lists i <+: lists j := by
  obtain ⟨d, rfl⟩ := Nat.exists_eq_add_of_le hij
  clear hij
  induction d with
  | zero => exact List.prefix_rfl
  | succ d ih => exact ih.trans (hgrow (i + d) (by omega))

/-- A full page adds the next records of every later list. -/
theorem take_append_slice {list later : List Record} (hlater : list <+: later) {page : Nat}
    (hpage : 1 ≤ page) (hfull : page * size ≤ list.length) :
    later.take ((page - 1) * size) ++ slice list page size = later.take (page * size) ∧
      (slice list page size).length = size := by
  obtain ⟨rest, rfl⟩ := hlater
  have hmul : page * size = (page - 1) * size + size := by
    rw [← Nat.succ_mul, Nat.succ_eq_add_one, Nat.sub_add_cancel hpage]
  constructor
  · rw [List.take_append_of_le_length (by omega), List.take_append_of_le_length hfull, slice, hmul,
      List.take_add]
  · rw [slice, List.length_take, List.length_drop]
    omega

/-- The first page that is not full adds all that is left. -/
theorem take_append_slice_of_short {list : List Record} {page : Nat} (hpage : 1 ≤ page)
    (hfront : (page - 1) * size ≤ list.length) (hshort : list.length < page * size) :
    list.take ((page - 1) * size) ++ slice list page size = list ∧
      (slice list page size).length < size := by
  have hmul : page * size = (page - 1) * size + size := by
    rw [← Nat.succ_mul, Nat.succ_eq_add_one, Nat.sub_add_cancel hpage]
  have hlength : (list.drop ((page - 1) * size)).length < size := by
    rw [List.length_drop]
    omega
  rw [slice, List.take_of_length_le (Nat.le_of_lt hlength)]
  exact ⟨List.take_append_drop _ _, hlength⟩

/-- Full pages of lists that only go on are the front of every later list. -/
theorem flatten_slices {later : List Record} {n : Nat}
    (hlater : ∀ i, 1 ≤ i → i ≤ n → lists i <+: later)
    (hfull : ∀ i, 1 ≤ i → i ≤ n → i * size ≤ (lists i).length) :
    ((List.range' 1 n).map fun i => slice (lists i) i size).flatten = later.take (n * size) := by
  induction n with
  | zero => simp
  | succ n ih =>
    have hbefore := ih (fun i hi hn => hlater i hi (Nat.le_succ_of_le hn))
      (fun i hi hn => hfull i hi (Nat.le_succ_of_le hn))
    obtain ⟨hnext, -⟩ := take_append_slice (hlater (n + 1) (by omega) (Nat.le_refl _)) (by omega)
      (hfull (n + 1) (by omega) (Nat.le_refl _))
    rw [Nat.add_sub_cancel] at hnext
    rw [List.range'_1_concat, List.map_append, List.flatten_append, hbefore, List.map_singleton,
      List.flatten_singleton, Nat.add_comm 1 n, hnext]

end Growing

namespace Service

variable {collection : String} {options : Option ListOptions} {s : Session}
  {lists : Nat → List Record} {n page : Nat}

/-- The answer to a page is the one of its place in the script. -/
theorem reply_before {response : Response} (h : s.pending[page - 1]? = some response)
    (r : Request) : (before collection options s page).reply r = response.answer r := by
  obtain ⟨hlt, rfl⟩ := List.getElem?_eq_some_iff.mp h
  simp only [before, Session.later, Session.reply, List.length_map, List.length_range']
  rw [List.drop_eq_getElem_cons hlt]

theorem parameter?_page :
    (allRequest collection options page).parameter? "page" = some (toString page) := by
  simp [allRequest, Request.parameter?, NamedOptions.asked_cons, Nat.repr_ne_empty]

theorem parameter?_perPage :
    (allRequest collection options page).parameter? "perPage" =
      some (toString (pageSize (options.getD {}).perPage)) := by
  simp [allRequest, Request.parameter?, NamedOptions.asked_cons, Nat.repr_ne_empty]

variable (collection options) in
/-- Serving a page does not cancel the token, so the page behind it is due. -/
theorem wanted_of_serves {size : Nat} (hs : s.cancelled = false) (hserved : s.Serves lists size n)
    (hn : page ≤ n + 1) : (before collection options s page).cancelled = false := by
  simp only [before, Session.later, hs, Bool.false_or, List.any_eq_false, List.length_map,
    List.length_range']
  intro response hmem
  obtain ⟨j, hj, rfl⟩ := List.mem_take_iff_getElem.mp hmem
  obtain ⟨response, hresponse, hserves⟩ := hserved (j + 1) (by omega) (by omega)
  obtain ⟨_, rfl⟩ := List.getElem?_eq_some_iff.mp hresponse
  simpa using hserves.lasts

section Pages

variable (hserved : s.Serves lists (pageSize (options.getD {}).perPage) n)

include hserved

variable (collection) in
theorem reply_of_serves (hpage : 1 ≤ page) (hn : page ≤ n) :
    ∃ v p, (before collection options s page).reply (allRequest collection options page) = .ok v ∧
      Page.ofJson v = .ok p ∧
      p.items = slice (lists page) page (pageSize (options.getD {}).perPage) := by
  obtain ⟨response, hresponse, hserves⟩ := hserved page hpage hn
  obtain ⟨v, hv, hholds⟩ := hserves.answers (allRequest collection options page)
    parameter?_page parameter?_perPage
  obtain ⟨p, hp, hitems⟩ := Page.ofJson_of_holds hholds
  exact ⟨v, p, (reply_before hresponse _).trans hv, hp, hitems⟩

variable (hs : s.cancelled = false)

include hs

theorem isFull_of_serves (hpage : 1 ≤ page) (hn : page ≤ n)
    (hfull : page * pageSize (options.getD {}).perPage ≤ (lists page).length) :
    IsFull collection options s page
      (slice (lists page) page (pageSize (options.getD {}).perPage)) := by
  obtain ⟨v, p, hreply, hp, hitems⟩ := reply_of_serves collection hserved hpage hn
  obtain ⟨-, hlength⟩ := take_append_slice List.prefix_rfl hpage hfull
  exact ⟨wanted_of_serves _ _ hs hserved (by omega), ⟨v, p, hreply, hp, hitems⟩, hlength.ge⟩

variable (α : Type) [Model α]

/-- What is found on full pages is the front of every later list. -/
theorem getAll_of_full {later : List Record} (hlater : ∀ i, 1 ≤ i → i ≤ n → lists i <+: later)
    (hfull : ∀ i, 1 ≤ i → i ≤ n → i * pageSize (options.getD {}).perPage ≤ (lists i).length) :
    getAll (α := α) collection options s =
      getPages collection (allOptions options) (n + 1)
        ((later.take (n * pageSize (options.getD {}).perPage)).map Model.ofRecord)
        (before collection options s (n + 1)) := by
  let pages := (List.range' 1 n).map fun i =>
    slice (lists i) i (pageSize (options.getD {}).perPage)
  have hlength : pages.length = n := by simp [pages]
  have hpages : ∀ j items, pages[j]? = some items →
      IsFull collection options s (j + 1) items := by
    intro j items hj
    obtain ⟨hlt, rfl⟩ := List.getElem?_eq_some_iff.mp hj
    have hslice : pages[j] =
        slice (lists (j + 1)) (j + 1) (pageSize (options.getD {}).perPage) := by
      simp [pages, Nat.add_comm]
    rw [hslice]
    exact isFull_of_serves hserved hs (by omega) (by omega) (hfull (j + 1) (by omega) (by omega))
  rw [getAll_of_isFull α hpages, hlength, flatten_slices hlater hfull]

end Pages

/-- All records are fetched while others are added: if each page is served from a list that only
goes on from the one before, `k` requests are sent, up to the first list that ends before its page
does, and the answer is that list, whatever totals are reported. -/
theorem getAll_of_growing {α : Type} [Model α] (collection : String) (options : Option ListOptions)
    {lists : Nat → List Record} {k : Nat} {s : Session}
    (hgrow : ∀ i, 1 ≤ i → lists i <+: lists (i + 1)) (hs : s.cancelled = false)
    (hserved : s.Serves lists (pageSize (options.getD {}).perPage) k)
    (hshort : (lists k).length < k * pageSize (options.getD {}).perPage)
    (hleast : ∀ i, 1 ≤ i → i < k →
      i * pageSize (options.getD {}).perPage ≤ (lists i).length) :
    ∃ t, getAll (α := α) collection options s = (.ok ((lists k).map Model.ofRecord), t) ∧
      t.sent = s.sent ++ (List.range' 1 k).map (allRequest collection options) := by
  obtain ⟨n, rfl⟩ : ∃ n, k = n + 1 := by
    refine Nat.exists_eq_succ_of_ne_zero ?_
    rintro rfl
    simp at hshort
  have hlater : ∀ i, 1 ≤ i → i ≤ n → lists i <+: lists (n + 1) :=
    fun i hi hn => le_of_growing hgrow hi (Nat.le_succ_of_le hn)
  have hfront : n * pageSize (options.getD {}).perPage ≤ (lists (n + 1)).length := by
    by_cases hzero : n = 0
    · simp [hzero]
    · exact (hleast n (by omega) (by omega)).trans (hlater n (by omega) (Nat.le_refl n)).length_le
  obtain ⟨hall, hlast⟩ := take_append_slice_of_short (Nat.le_add_left 1 n) hfront hshort
  rw [Nat.add_sub_cancel] at hall
  obtain ⟨v, p, hreply, hp, hitems⟩ :=
    reply_of_serves collection hserved (Nat.le_add_left 1 n) (Nat.le_refl _)
  have hbefore : s.Serves lists (pageSize (options.getD {}).perPage) n :=
    fun i hi hn => hserved i hi (Nat.le_succ_of_le hn)
  have hwanted := wanted_of_serves collection options hs hbefore (Nat.le_refl (n + 1))
  refine ⟨before collection options s (n + 1 + 1), ?_, rfl⟩
  rw [getAll_of_full hbefore hs α hlater fun i hi hn => hleast i hi (Nat.lt_succ_of_le hn),
    getPages_of_page α (Nat.le_add_left 1 n) hwanted hreply hp, hitems, if_pos hlast, hall]

/-- An answer with the records of a page and a total. -/
def pageAnswer (list : List Record) (page size total : Nat) : Value :=
  .object [("items", .array ((slice list page size).map Record.toJson)),
    ("totalItems", .number (.integer total))]

theorem serves_pageAnswer (list : List Record) (page size : Nat) {total : Nat}
    (h : total < 2 ^ 63) :
    ({ answer := fun _ => .ok (pageAnswer list page size total) } : Response).Serves list page
      size := by
  refine ⟨rfl, fun _ _ _ => ⟨_, rfl, .object (by simp) ?_⟩⟩
  intro entry hentry
  simp only [List.mem_cons, List.not_mem_nil, or_false] at hentry
  rcases hentry with rfl | rfl
  · exact ⟨by simp, by simp, fun _ => rfl⟩
  · exact ⟨by simp, fun _ => ⟨total, by omega, by omega, rfl⟩, by simp⟩

/-- Two records, and two more once the first page is served. -/
def growingLists (i : Nat) : List Record :=
  (["a", "b"] ++ if i = 1 then [] else ["c", "d"]).map fun id => ⟨[(idKey, .string id)]⟩

def growingStore : Session where
  pending := [1, 2, 3].map fun i => { answer := fun _ => .ok (pageAnswer (growingLists i) i 2 i) }
  exhausted := ⟨500, ""⟩

/-- The request for a page of two notes. -/
def noteRequest (page : Nat) : Request where
  method := .get
  path := "/api/collections/notes/records"
  query := [("page", toString page), ("perPage", "2"), ("skipTotal", "true")]

/-- The last list ends where its second page does, so an empty third page is fetched. -/
theorem getAll_of_growingLists :
    (∀ i, 1 ≤ i → growingLists i <+: growingLists (i + 1)) ∧
      growingStore.Serves growingLists (pageSize 2) 3 ∧
      (growingLists 3).length < 3 * pageSize 2 ∧
      (∀ i, 1 ≤ i → i < 3 → i * pageSize 2 ≤ (growingLists i).length) ∧
      ∃ t, getAll (α := Record) "notes" (some { perPage := 2 }) growingStore =
          (.ok (growingLists 3), t) ∧ t.sent = [noteRequest 1, noteRequest 2, noteRequest 3] := by
  have hgrow : ∀ i, 1 ≤ i → growingLists i <+: growingLists (i + 1) := by
    intro i hi
    by_cases hone : i = 1
    · subst hone
      exact ⟨_, rfl⟩
    · have hzero : i ≠ 0 := by omega
      simp [growingLists, hone, hzero]
  have hserved : growingStore.Serves growingLists 2 3 := by
    intro i hi hi3
    obtain rfl | rfl | rfl : i = 1 ∨ i = 2 ∨ i = 3 := by omega
    all_goals exact ⟨_, rfl, serves_pageAnswer _ _ _ (by decide)⟩
  have hleast : ∀ i, 1 ≤ i → i < 3 → i * 2 ≤ (growingLists i).length := by
    intro i hi hi3
    obtain rfl | rfl : i = 1 ∨ i = 2 := by omega
    all_goals decide
  have hshort : (growingLists 3).length < 3 * 2 := by decide
  have hrequest : ∀ page, 1 ≤ page →
      allRequest "notes" (some { perPage := 2 }) page = noteRequest page := by
    intro page hpage
    have hpath : "/api/collections/" ++ Text.Percent.encode "notes" ++ "/records" =
        "/api/collections/notes/records" := by decide +kernel
    have hsize : Nat.repr 2 = "2" := by decide
    simp [allRequest, noteRequest, hpath, hsize, NamedOptions.asked_cons, pageSize,
      Nat.repr_ne_empty]
  obtain ⟨t, hfound, hsent⟩ := getAll_of_growing (α := Record) "notes" (some { perPage := 2 })
    hgrow rfl hserved hshort hleast
  refine ⟨hgrow, hserved, hshort, hleast, t, hfound, hsent.trans ?_⟩
  simp [List.range', growingStore, hrequest]

end Service
end TypedCollections
