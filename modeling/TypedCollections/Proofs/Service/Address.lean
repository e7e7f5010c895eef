import TypedCollections.Proofs.Service.Ending
import TypedCollections.Proofs.Text.Percent

/-!
Addresses read back. An address is cut at its first question mark, its path at the slashes, its
query at the ampersands and each parameter at its first equals sign; then every piece is decoded.
What a call sends is read back as the names that it was given, so no name can be taken for a part
of the address, and calls that differ in what they ask for differ in their addresses.
-/

namespace TypedCollections

/-- What an address says: the segments of its path and the parameters of its query. -/
structure Address where
  segments : List String
  query : List (String × String)
  deriving DecidableEq, Repr

namespace Address

/-- A text before and behind the first of a character, if it has one. -/
def cut (c : Char) : List Char → List Char × Option (List Char)
  | [] => ([], none)
  | b :: rest => if b = c then ([], some rest) else (cut c rest).map (b :: ·) id

def readPiece? (text : List Char) : Option String := Text.Percent.decode? (String.ofList text)

/-- A parameter without an equals sign has the empty value. -/
def readParameter? (text : List Char) : Option (String × String) := do
  let (name, value) := cut '=' text
  return (← readPiece? name, ← readPiece? (value.getD []))

def read? (address : String) : Option Address := do
  let (path, query) := cut '?' address.toList
  let segments ← (path.splitOn '/').mapM readPiece?
  match query with
  | none => return ⟨segments, []⟩
  | some query => return ⟨segments, ← (query.splitOn '&').mapM readParameter?⟩

/-! ## Reading -/

theorem cut_of_notMem {c : Char} {text : List Char} (h : c ∉ text) : cut c text = (text, none) := by
  induction text with
  | nil => rfl
  | cons b rest ih =>
    rw [List.mem_cons, not_or] at h
    obtain ⟨hb, hrest⟩ := h
    rw [cut, if_neg (Ne.symm hb), ih hrest]
    rfl

theorem cut_append {c : Char} {before : List Char} (h : c ∉ before) (after : List Char) :
    cut c (before ++ c :: after) = (before, some after) := by
  induction before with
  | nil => simp [cut]
  | cons b rest ih =>
    rw [List.mem_cons, not_or] at h
    obtain ⟨hb, hrest⟩ := h
    rw [List.cons_append, cut, if_neg (Ne.symm hb), ih hrest]
    rfl

open Text.Percent (encode encode_notMem separators)

theorem readPiece?_encode (s : String) : readPiece? (encode s).toList = some s := by
  rw [readPiece?, String.ofList_toList, Text.Percent.decode?_encode]

theorem readParameter?_pairText (p : String × String) :
    readParameter? (Request.pairText p).toList = some p := by
  have htext : (Request.pairText p).toList = (encode p.1).toList ++ '=' :: (encode p.2).toList := by
    simp [Request.pairText, String.toList_append]
  rw [readParameter?, htext, cut_append (encode_notMem (by decide) p.1)]
  simp [readPiece?_encode]

/-- Pieces that are read one by one. -/
theorem mapM_read {α : Type} {read : List Char → Option α} {text : α → List Char}
    (h : ∀ a, read (text a) = some a) (l : List α) : (l.map text).mapM read = some l := by
  induction l with
  | nil => rfl
  | cons a l ih => simp [h, ih]

/-- A path of encoded segments. -/
def ofSegments (segments : List String) : String := "/".intercalate (segments.map encode)

theorem notMem_pairText {c : Char} (hc : c ∈ separators) (hne : c ≠ '=') (p : String × String) :
    c ∉ (Request.pairText p).toList := by
  simp [Request.pairText, String.toList_append, encode_notMem hc, hne]

theorem notMem_intercalate {c b : Char} (hne : c ≠ b) {pieces : List (List Char)}
    (h : ∀ piece ∈ pieces, c ∉ piece) : c ∉ [b].intercalate pieces := by
  induction pieces with
  | nil => simp
  | cons first rest ih =>
    obtain ⟨hfirst, hrest⟩ := List.forall_mem_cons.mp h
    cases rest with
    | nil => simpa using hfirst
    | cons second rest => simp [hfirst, hne, ih hrest]

/-- The address of a request whose path has encoded segments. -/
theorem read?_address {r : Request} {segments : List String} (hsegments : segments ≠ [])
    (hpath : r.path = ofSegments segments) : read? r.address = some ⟨segments, r.query⟩ := by
  have htext : r.path.toList = ['/'].intercalate (segments.map fun s => (encode s).toList) := by
    simp [hpath, ofSegments, String.toList_intercalate, Function.comp_def]
  have hsplit : (r.path.toList.splitOn '/').mapM readPiece? = some segments := by
    rw [htext, List.splitOn_intercalate]
    · exact mapM_read readPiece?_encode segments
    · intro piece hpiece
      obtain ⟨s, -, rfl⟩ := List.mem_map.mp hpiece
      exact encode_notMem (by decide) s
    · simpa using hsegments
  have hquestion : '?' ∉ r.path.toList := by
    rw [htext]
    refine notMem_intercalate (by decide) fun piece hpiece => ?_
    obtain ⟨s, -, rfl⟩ := List.mem_map.mp hpiece
    exact encode_notMem (by decide) s
  unfold Request.address
  split
  · next hempty =>
    rw [read?, cut_of_notMem hquestion]
    simp [hsplit, hempty]
  · next hquery =>
    have haddress : (r.path ++ "?" ++ r.queryText).toList =
        r.path.toList ++
          '?' :: ['&'].intercalate (r.query.map fun p => (Request.pairText p).toList) := by
      simp [Request.queryText, String.toList_append, String.toList_intercalate, Function.comp_def]
    have hparameters : (List.splitOn '&'
        (['&'].intercalate (r.query.map fun p => (Request.pairText p).toList))).mapM
          readParameter? = some r.query := by
      rw [List.splitOn_intercalate]
      · exact mapM_read readParameter?_pairText r.query
      · intro piece hpiece
        obtain ⟨p, -, rfl⟩ := List.mem_map.mp hpiece
        exact notMem_pairText (by decide) (by decide) p
      · simpa using hquery
    rw [read?, haddress, cut_append hquestion]
    simp [hsplit, hparameters]

end Address

/-! ## Calls -/

namespace Request

open Text.Percent (encode)

theorem recordsPath_eq (collection : String) :
    recordsPath collection =
      Address.ofSegments ["", "api", "collections", collection, "records"] := by
  have hplain : encode "" = "" ∧ encode "api" = "api" ∧ encode "collections" = "collections" ∧
      encode "records" = "records" := by decide +kernel
  have hbefore : "/api/collections/" = "" ++ "/" ++ "api" ++ "/" ++ "collections" ++ "/" := by
    decide +kernel
  have hbehind : "/records" = "/" ++ "records" := by decide +kernel
  unfold recordsPath Address.ofSegments
  rw [hbefore, hbehind]
  simp only [List.map_cons, List.map_nil, hplain, String.intercalate_cons_cons,
    String.intercalate_singleton, String.append_assoc]

theorem recordPath_eq (collection id : String) :
    recordPath collection id =
      Address.ofSegments ["", "api", "collections", collection, "records", id] := by
  apply String.toList_injective
  simp [recordPath, recordsPath_eq, Address.ofSegments, String.toList_append]

end Request

namespace Service

variable {α : Type} [Model α]

theorem sent_call {β : Type} (r : Request) (decode : Json.Value → Except ClientError β)
    (s : Session) : (call r decode s).2.sent = s.sent ++ [r] := by
  rw [call_eq]
  rfl

/-- A call of the client. -/
inductive Call (α : Type) where
  | getOne (id : String) (options : Option RecordOptions)
  | getList (options : Option ListOptions)
  | getAll (options : Option ListOptions)
  | create (m : α) (options : Option RecordOptions)
  | update (id : String) (m : α) (options : Option RecordOptions)
  | delete (id : String)

namespace Call

/-- The conversation after a call about a collection. -/
def after (collection : String) (s : Session) : Call α → Session
  | getOne id options => (Service.getOne (α := α) collection id options s).2
  | getList options => (Service.getList (α := α) collection options s).2
  | getAll options => (Service.getAll (α := α) collection options s).2
  | create m options => (Service.create collection m options s).2
  | update id m options => (Service.update collection id m options s).2
  | delete id => (Service.delete collection id s).2

/-- The record that a call is about. -/
def id? : Call α → Option String
  | getOne id _ | update id _ _ | delete id => some id
  | getList _ | getAll _ | create _ _ => none

/-- All options of a request of a call. Only where all records are fetched is there more than one
request; the options are those of a list, but for the page, its size and the total. -/
def options (page : Nat) : Call α → NamedOptions
  | getOne _ options | create _ options | update _ _ options => (options.getD {}).named
  | getList options => (options.getD {}).named
  | getAll options =>
    let o := options.getD {}
    ListOptions.named { o with page, perPage := pageSize o.perPage, skipTotal := true }
  | delete _ => []

/-- What the address of a request of a call should say. -/
def address (collection : String) (page : Nat) (call : Call α) : Address where
  segments := ["", "api", "collections", collection, "records"] ++ call.id?.toList
  query := (call.options page).asked

end Call

theorem query_record (options : Option RecordOptions) :
    (options.map RecordOptions.query).getD [] = (options.getD {}).named.asked := by
  cases options with
  | none => rfl
  | some o => exact o.query_eq

theorem query_list (options : Option ListOptions) :
    (options.map ListOptions.query).getD [] = (options.getD {}).named.asked := by
  cases options with
  | none => rfl
  | some o => exact o.query_eq

variable (α) in
theorem sent_getOne (collection id : String) (options : Option RecordOptions) (s : Session) :
    (getOne (α := α) collection id options s).2.sent =
      s.sent ++ [{ method := .get, path := Request.recordPath collection id,
                   query := (options.map RecordOptions.query).getD [] }] := by
  have hcall := sent_call (β := α)
    { method := .get, path := Request.recordPath collection id,
      query := (options.map RecordOptions.query).getD [] } decodeModel s
  unfold getOne
  dsimp only
  split
  · next heq =>
    rw [heq] at hcall
    exact hcall
  · exact hcall

variable (α) in
/-- Pages are asked for one after the other. -/
theorem sent_getAll (collection : String) (options : Option ListOptions) (s : Session) :
    ∃ pages, (getAll (α := α) collection options s).2.sent =
      s.sent ++ (List.range' 1 pages).map (allRequest collection options) := by
  obtain ⟨last, pages, hle, -, -, hends⟩ :=
    getPages_ends collection options s α (Nat.le_refl 1) [] rfl (by simp) rfl
  rw [before_one] at hends
  change Ends collection options s last _ (getAll (α := α) collection options s) at hends
  generalize getAll (α := α) collection options s = result at hends
  cases hends with
  | cancelled => exact ⟨last - 1, rfl⟩
  | transport | undecodable | short => exact ⟨last, rfl⟩

theorem read?_records {r : Request} {collection : String}
    (hpath : r.path = Request.recordsPath collection) : Address.read? r.address =
      some ⟨["", "api", "collections", collection, "records"], r.query⟩ :=
  Address.read?_address (by simp) (hpath.trans (Request.recordsPath_eq collection))

theorem read?_record {r : Request} {collection id : String}
    (hpath : r.path = Request.recordPath collection id) : Address.read? r.address =
      some ⟨["", "api", "collections", collection, "records", id], r.query⟩ :=
  Address.read?_address (by simp) (hpath.trans (Request.recordPath_eq collection id))

omit [Model α] in
/-- A call that sends one request. -/
theorem read_sent_single {collection : String} {call : Call α} {s t : Session} {r : Request}
    (hsent : t.sent = s.sent ++ [r])
    (hread : ∀ page, Address.read? r.address = some (call.address collection page)) :
    ∃ requests, t.sent = s.sent ++ requests ∧
      ((∀ options, call ≠ .getAll options) → requests.length = 1) ∧ ∀ i r, requests[i]? = some r →
        Address.read? r.address = some (call.address collection (i + 1)) := by
  refine ⟨[r], hsent, fun _ => rfl, fun i r' hr' => ?_⟩
  obtain ⟨hi, rfl⟩ := List.getElem?_eq_some_iff.mp hr'
  simpa using hread (i + 1)

theorem read_sent (collection : String) (call : Call α) (s : Session) :
    ∃ requests, (call.after collection s).sent = s.sent ++ requests ∧
      ((∀ options, call ≠ .getAll options) → requests.length = 1) ∧ ∀ i r, requests[i]? = some r →
        Address.read? r.address = some (call.address collection (i + 1)) := by
  cases call with
  | getOne id options =>
    refine read_sent_single (sent_getOne α collection id options s) fun _ => ?_
    rw [read?_record rfl, query_record]
    rfl
  | getList options =>
    refine read_sent_single (sent_call _ _ s) fun _ => ?_
    rw [read?_records rfl, query_list]
    rfl
  | getAll options =>
    obtain ⟨pages, hsent⟩ := sent_getAll α collection options s
    refine ⟨_, hsent, fun hsingle => absurd rfl (hsingle options), fun i r hr => ?_⟩
    obtain ⟨page, hpage, rfl⟩ := Option.map_eq_some_iff.mp ((List.getElem?_map ..).symm.trans hr)
    obtain ⟨hi, rfl⟩ := List.getElem?_eq_some_iff.mp hpage
    have hnumber : (List.range' 1 pages)[i] = i + 1 := by
      rw [List.getElem_range']
      omega
    rw [hnumber, read?_records rfl, ← query_allOptions (Nat.le_add_left 1 i), ListOptions.query_eq]
    rfl
  | create m options =>
    refine read_sent_single (sent_call _ _ s) fun _ => ?_
    rw [read?_records rfl, query_record]
    rfl
  | update id m options =>
    refine read_sent_single (sent_call _ _ s) fun _ => ?_
    rw [read?_record rfl, query_record]
    rfl
  | delete id =>
    refine read_sent_single (sent_call _ _ s) fun _ => ?_
    rw [read?_record rfl]
    rfl

omit [Model α] in
theorem Call.address_injective {collection collection' : String} {page page' : Nat}
    {call call' : Call α} (h : call.address collection page = call'.address collection' page') :
    collection = collection' ∧ call.id? = call'.id? ∧
      (call.options page).asked = (call'.options page').asked := by
  obtain ⟨hsegments, hquery⟩ := Address.mk.injEq .. ▸ h
  obtain ⟨hpath, hid⟩ := List.append_inj hsegments rfl
  simp only [List.cons.injEq, true_and, and_true] at hpath
  exact ⟨hpath, by simpa using congrArg List.head? hid, hquery⟩

/-- A call sends one request, unless it asks for all records. The address of every request is read
back as the collection and the record that the call is about, with the options that are asked for in
their order. These tell all options, so requests that differ in any of it have different
addresses. -/
theorem sent_addresses :
    (∀ (collection : String) (call : Call α) (s : Session),
      ∃ requests, (call.after collection s).sent = s.sent ++ requests ∧
        ((∀ options, call ≠ .getAll options) → requests.length = 1) ∧ ∀ i r, requests[i]? = some r →
          Address.read? r.address = some (call.address collection (i + 1))) ∧
    (∀ (collection collection' : String) (page page' : Nat) (call call' : Call α),
      call.address collection page = call'.address collection' page' →
        collection = collection' ∧ call.id? = call'.id? ∧
          (call.options page).asked = (call'.options page').asked) ∧
    (∀ o o' : RecordOptions, o.named.asked = o'.named.asked → o = o') ∧
    ∀ o o' : ListOptions, o.named.asked = o'.named.asked → o = o' :=
  ⟨read_sent, fun _ _ _ _ _ _ => Call.address_injective, fun _ _ => RecordOptions.eq_of_asked,
    fun _ _ => ListOptions.eq_of_asked⟩

def oddCall : Call Record := .getOne "a/b?c=d&e" (some { expand := "x&y=z" })

def oddRequest : Request where
  method := .get
  path := Request.recordPath "\u00e9/?%2F" "a/b?c=d&e"
  query := [("expand", "x&y=z")]

/-- Names that hold separators, percent signs and letters outside ASCII. -/
theorem sent_addresses_odd :
    (oddCall.after "\u00e9/?%2F" ⟨[], ⟨500, ""⟩, false, []⟩).sent = [oddRequest] ∧
      oddRequest.address =
        "/api/collections/%C3%A9%2F%3F%252F/records/a%2Fb%3Fc%3Dd%26e?expand=x%26y%3Dz" ∧
      Address.read? oddRequest.address = some
        ⟨["", "api", "collections", "\u00e9/?%2F", "records", "a/b?c=d&e"],
          [("expand", "x&y=z")]⟩ := by
  have hone : (oddCall.after "\u00e9/?%2F" ⟨[], ⟨500, ""⟩, false, []⟩).sent = [oddRequest] := rfl
  obtain ⟨requests, hsent, -, hread⟩ :=
    (sent_addresses (α := Record)).1 "\u00e9/?%2F" oddCall ⟨[], ⟨500, ""⟩, false, []⟩
  obtain rfl : requests = [oddRequest] := by
    rw [hone] at hsent
    exact hsent.symm
  exact ⟨hone, by decide +kernel, hread 0 oddRequest rfl⟩

end Service
end TypedCollections
