import Mathlib.Data.List.Induction
import TypedCollections.Proofs.Service.Options
import TypedCollections.Service.Client

/-!
Where fetching all records ends, whatever the store answers. The pages are asked for one after the
other, from the first on. The call goes on as long as pages are full; the first one that is not
asked for, not answered, not decoded or not full ends it. `before` is the conversation at the time
when a page is due, told from the script of the answers alone. What the requests should be is told
by `allRequest`, from the names of the options.
-/

namespace TypedCollections

open Json (Value)

namespace Session

/-- The answer to the next request. -/
def reply (s : Session) (r : Request) : Except TransportError Value :=
  match s.pending with
  | [] => .error s.exhausted
  | response :: _ => response.answer r

/-- The session when some requests have been answered. -/
def later (s : Session) (requests : List Request) : Session where
  pending := s.pending.drop requests.length
  exhausted := s.exhausted
  cancelled := s.cancelled || (s.pending.take requests.length).any Response.cancels
  sent := s.sent ++ requests

@[simp] theorem later_nil (s : Session) : s.later [] = s := by simp [later]

theorem later_append (s : Session) (rs : List Request) (r : Request) :
    s.later (rs ++ [r]) = (s.later rs).later [r] := by
  simp [later, List.take_add, Bool.or_assoc, List.append_assoc]

theorem send_eq (s : Session) (r : Request) : s.send r = (s.reply r, s.later [r]) := by
  unfold send reply later
  cases s.pending with
  | nil => simp
  | cons response pending => simp

theorem pending_ne_nil_of_reply {s : Session} {r : Request} {v : Value}
    (h : s.reply r = .ok v) : s.pending ≠ [] := by
  intro hp
  simp [reply, hp] at h

end Session

namespace Service

/-- A call sends one request, whatever the answer is. -/
theorem call_eq {β : Type} (r : Request) (decode : Value → Except ClientError β) (s : Session) :
    call r decode s =
      (match s.reply r with
        | .ok v => decode v
        | .error e => .error (.ofTransport e), s.later [r]) := by
  rw [call, Session.send_eq]
  cases s.reply r <;> rfl

/-- How many records a full page has. -/
def pageSize (perPage : Nat) : Nat := if perPage = 0 then 500 else min perPage 500

theorem pageSize_pos (perPage : Nat) : 0 < pageSize perPage := by
  unfold pageSize
  split <;> omega

section Pages

variable (collection : String) (options : Option ListOptions) (s : Session)

/-- The request for a page of all records: what the caller asks for, but for the page, its size and
the total. -/
def allRequest (page : Nat) : Request :=
  let o := options.getD {}
  { method := .get
    path := "/api/collections/" ++ Text.Percent.encode collection ++ "/records"
    query := NamedOptions.asked
      [("page", toString page), ("perPage", toString (pageSize o.perPage)), ("sort", o.sort),
        ("filter", o.filter), ("expand", o.expand), ("fields", o.fields), ("skipTotal", "true")] }

/-- The session when a page is due: all pages before it were asked for, and nothing else. -/
def before (page : Nat) : Session :=
  s.later ((List.range' 1 (page - 1)).map (allRequest collection options))

/-- The page is asked for and holds these records, as many as fit. -/
structure IsFull (page : Nat) (items : List Record) : Prop where
  wanted : (before collection options s page).cancelled = false
  answered : ∃ v p, (before collection options s page).reply (allRequest collection options page) =
    .ok v ∧ Page.ofJson v = .ok p ∧ p.items = items
  full : pageSize (options.getD {}).perPage ≤ items.length

/-- How the call ends at a page, after the records found on the pages before it: with what, and in
which state of the conversation. -/
inductive Ends {α : Type} [Model α] (page : Nat) (found : List Record) :
    Except ClientError (List α) × Session → Prop
  | cancelled (unwanted : (before collection options s page).cancelled) :
    Ends page found (.error .cancelled, before collection options s page)
  | transport (wanted : (before collection options s page).cancelled = false) {e : TransportError}
      (failed : (before collection options s page).reply (allRequest collection options page) =
        .error e) :
    Ends page found (.error (.transport e.status e.message), before collection options s (page + 1))
  | undecodable (wanted : (before collection options s page).cancelled = false) {v : Value}
      (answered : (before collection options s page).reply (allRequest collection options page) =
        .ok v) {why : Json.Rejection} (rejected : Page.ofJson v = .error why) :
    Ends page found (.error (.decode why.message), before collection options s (page + 1))
  | short (wanted : (before collection options s page).cancelled = false) {v : Value}
      (answered : (before collection options s page).reply (allRequest collection options page) =
        .ok v) {p : Page Record} (decoded : Page.ofJson v = .ok p)
      (notFull : p.items.length < pageSize (options.getD {}).perPage) :
    Ends page found (.ok ((found ++ p.items).map Model.ofRecord),
      before collection options s (page + 1))

variable {collection options s}

theorem before_one : before collection options s 1 = s := Session.later_nil s

theorem before_succ {page : Nat} (h : 1 ≤ page) :
    before collection options s (page + 1) =
      (before collection options s page).later [allRequest collection options page] := by
  have hrange : List.range' 1 (page + 1 - 1) = List.range' 1 (page - 1) ++ [page] := by
    have hpage : page + 1 - 1 = page - 1 + 1 := by omega
    have hlast : 1 + (page - 1) = page := by omega
    rw [hpage, List.range'_1_concat, hlast]
  rw [before, hrange, List.map_append, List.map_cons, List.map_nil, Session.later_append]
  rfl

theorem length_pending_before (page : Nat) :
    (before collection options s page).pending.length = s.pending.length - (page - 1) := by
  simp [before, Session.later]

/-- The script has an answer for every full page. -/
theorem IsFull.lt_length {page : Nat} {items : List Record}
    (h : IsFull collection options s page items) : page - 1 < s.pending.length := by
  obtain ⟨v, p, hreply, -, -⟩ := h.answered
  have hlength := List.length_pos_iff.mpr (Session.pending_ne_nil_of_reply hreply)
  rw [length_pending_before] at hlength
  omega

theorem perPage_allOptions : (allOptions options).perPage = pageSize (options.getD {}).perPage :=
  rfl

theorem query_allOptions {page : Nat} (h : 1 ≤ page) :
    ({ allOptions options with page } : ListOptions).query =
      (allRequest collection options page).query := by
  have hpage : numberText page = toString page := if_neg (Nat.ne_of_gt h)
  have hsize : numberText (allOptions options).perPage =
      toString (pageSize (options.getD {}).perPage) := if_neg (Nat.ne_of_gt (pageSize_pos _))
  rw [ListOptions.query_eq, ListOptions.named]
  simp only [hpage, hsize]
  rfl

variable {α : Type} [Model α]

variable (collection options s α) in
/-- One page is one request. -/
theorem getList_before {page : Nat} (h : 1 ≤ page) :
    getList (α := α) collection (some { allOptions options with page })
        (before collection options s page) =
      (match (before collection options s page).reply (allRequest collection options page) with
        | .ok v => decodePage v
        | .error e => .error (.ofTransport e), before collection options s (page + 1)) := by
  have hquery : ((some { allOptions options with page }).map ListOptions.query).getD [] =
      (allRequest collection options page).query := query_allOptions h
  rw [getList, hquery]
  change call (allRequest collection options page) decodePage _ = _
  rw [call_eq, ← before_succ h]

/-- A request that fails ends the loop. -/
theorem getPages_of_error {o : ListOptions} {page : Nat} {t : Session} {e : ClientError}
    (hs : s.cancelled = false)
    (h : getList (α := α) collection (some { o with page }) s = (.error e, t)) (found : List α) :
    getPages collection o page found s = (.error e, t) := by
  rw [getPages]
  simp only [hs, Bool.false_eq_true, if_false]
  split
  · next hlist =>
    rw [h] at hlist
    cases hlist
    rfl
  · next hlist =>
    rw [h] at hlist
    cases hlist

/-- A page that comes ends the loop if it is not full. -/
theorem getPages_of_ok {o : ListOptions} {page : Nat} {t : Session} {result : Page α}
    (hs : s.cancelled = false)
    (h : getList (α := α) collection (some { o with page }) s = (.ok result, t))
    (found : List α) :
    getPages collection o page found s =
      if result.items.length < o.perPage then (.ok (found ++ result.items), t)
      else getPages collection o (page + 1) (found ++ result.items) t := by
  rw [getPages]
  simp only [hs, Bool.false_eq_true, if_false]
  split
  · next hlist =>
    rw [h] at hlist
    cases hlist
  · next hlist =>
    rw [h] at hlist
    cases hlist
    rfl

variable (α) in
/-- The records of a page go to what is found. If there are fewer than fit on it, the call ends, and
else the next page is due. -/
theorem getPages_of_page {page : Nat} {v : Value} {p : Page Record} (hpage : 1 ≤ page)
    (hwanted : (before collection options s page).cancelled = false)
    (hreply : (before collection options s page).reply (allRequest collection options page) = .ok v)
    (hp : Page.ofJson v = .ok p) (found : List Record) :
    getPages (α := α) collection (allOptions options) page (found.map Model.ofRecord)
        (before collection options s page) =
      if p.items.length < pageSize (options.getD {}).perPage then
        (.ok ((found ++ p.items).map Model.ofRecord), before collection options s (page + 1))
      else getPages collection (allOptions options) (page + 1)
        ((found ++ p.items).map Model.ofRecord) (before collection options s (page + 1)) := by
  have hlist := getList_before collection options s α hpage
  rw [hreply] at hlist
  simp only [decodePage, hp] at hlist
  rw [getPages_of_ok hwanted hlist]
  simp only [Page.map, List.length_map, ← List.map_append, perPage_allOptions]

variable (collection options s α) in
/-- A page ends the call, or it is full and the next one is due. -/
theorem getPages_step {page : Nat} (h : 1 ≤ page) (found : List Record) :
    Ends collection options s page found
        (getPages (α := α) collection (allOptions options) page (found.map Model.ofRecord)
          (before collection options s page)) ∨
      ∃ items, IsFull collection options s page items ∧
        getPages (α := α) collection (allOptions options) page (found.map Model.ofRecord)
            (before collection options s page) =
          getPages collection (allOptions options) (page + 1)
            ((found ++ items).map Model.ofRecord) (before collection options s (page + 1)) := by
  cases hcancelled : (before collection options s page).cancelled with
  | true =>
    left
    rw [getPages]
    simp only [hcancelled, if_true]
    exact .cancelled hcancelled
  | false =>
    have hlist := getList_before collection options s α h
    cases hreply :
      (before collection options s page).reply (allRequest collection options page) with
    | error e =>
      rw [hreply] at hlist
      rw [getPages_of_error hcancelled hlist]
      exact .inl (.transport hcancelled hreply)
    | ok v =>
      cases hpage : Page.ofJson v with
      | error why =>
        rw [hreply] at hlist
        simp only [decodePage, hpage] at hlist
        rw [getPages_of_error hcancelled hlist]
        exact .inl (.undecodable hcancelled hreply hpage)
      | ok p =>
        rw [getPages_of_page α h hcancelled hreply hpage]
        split
        · next hshort => exact .inl (.short hcancelled hreply hpage hshort)
        · next hfull =>
          exact .inr ⟨p.items, ⟨hcancelled, ⟨v, p, hreply, hpage, rfl⟩, Nat.le_of_not_lt hfull⟩,
            rfl⟩

variable (α) in
/-- After some full pages the next one is due. The induction is on the last of them. -/
theorem getAll_of_isFull {pages : List (List Record)}
    (h : ∀ j items, pages[j]? = some items → IsFull collection options s (j + 1) items) :
    getAll (α := α) collection options s =
      getPages collection (allOptions options) (pages.length + 1)
        (pages.flatten.map Model.ofRecord)
        (before collection options s (pages.length + 1)) := by
  induction pages using List.reverseRecOn with
  | nil =>
    rw [List.length_nil, Nat.zero_add, before_one]
    rfl
  | append_singleton pages items ih =>
    have hlast := h pages.length items List.getElem?_concat_length
    obtain ⟨v, p, hreply, hp, rfl⟩ := hlast.answered
    rw [ih fun j more hj => h j more (List.getElem?_append_left
        (List.getElem?_eq_some_iff.mp hj).1 ▸ hj),
      getPages_of_page α (Nat.le_add_left 1 _) hlast.wanted hreply hp,
      if_neg (Nat.not_lt.mpr hlast.full), List.length_append, List.flatten_append]
    simp

variable (collection options s α) in
/-- What was found on full pages stays, until a page ends the call. The induction is on the answers
that are still to come. -/
theorem getPages_ends {page : Nat} (h : 1 ≤ page) (pages : List (List Record))
    (hlength : pages.length = page - 1)
    (hfull : ∀ j items, pages[j]? = some items → IsFull collection options s (j + 1) items)
    {left : Nat} (hleft : s.pending.length - (page - 1) = left) :
    ∃ (last : Nat) (pages' : List (List Record)), page ≤ last ∧ pages'.length = last - 1 ∧
      (∀ j items, pages'[j]? = some items → IsFull collection options s (j + 1) items) ∧
      Ends collection options s last pages'.flatten
        (getPages (α := α) collection (allOptions options) page
          (pages.flatten.map Model.ofRecord) (before collection options s page)) := by
  induction left using Nat.strongRecOn generalizing page pages with
  | ind left ih =>
    obtain hends | ⟨items, hitems, heq⟩ :=
      getPages_step collection options s α h pages.flatten
    · exact ⟨page, pages, Nat.le_refl page, hlength, hfull, hends⟩
    · have hlt := hitems.lt_length
      have hmore : ∀ j more, (pages ++ [items])[j]? = some more →
          IsFull collection options s (j + 1) more := by
        intro j more hj
        by_cases hlast : j < pages.length
        · exact hfull j more (by rwa [List.getElem?_append_left hlast] at hj)
        · rw [List.getElem?_append_right (by omega)] at hj
          have hzero : j - pages.length = 0 := by
            have := (List.getElem?_eq_some_iff.mp hj).1
            simpa using this
          have hpage : j + 1 = page := by omega
          rw [hzero] at hj
          obtain rfl : items = more := by simpa using hj
          rwa [hpage]
      obtain ⟨last, pages', hle, hlength', hfull', hends⟩ :=
        ih (s.pending.length - page) (by omega) (Nat.le_add_left 1 page) (pages ++ [items])
          (by rw [List.length_append, hlength]; simp; omega) hmore rfl
      refine ⟨last, pages', by omega, hlength', hfull', ?_⟩
      rw [heq]
      simpa using hends

end Pages
end Service
end TypedCollections
