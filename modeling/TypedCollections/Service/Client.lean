import TypedCollections.Record.Model
import TypedCollections.Service.Options
import TypedCollections.Service.Page
import TypedCollections.Service.Transport

/-!
Typed access to the records of one collection. Each call sends a request, or several, and decodes
the answers as models. Nothing is sent twice, and the first thing that fails ends a call.
-/

namespace TypedCollections

inductive ClientError where
  | transport (status : Nat) (message : String)
  | notFound (collection id : String)
  | decode (message : String)
  | cancelled
  deriving DecidableEq, Repr

namespace ClientError

def message : ClientError → String
  | transport status message => (TransportError.mk status message).describe
  | notFound collection id => "record '" ++ id ++ "' not found in collection '" ++ collection ++ "'"
  | decode message => "failed to decode response: " ++ message
  | cancelled => "operation cancelled"

/-- The status that the store gave, if it answered at all. -/
def status? : ClientError → Option Nat
  | transport status _ => some status
  | notFound _ _ => some 404
  | decode _ | cancelled => none

def isNotFound : ClientError → Bool
  | notFound _ _ => true
  | _ => false

def ofTransport (e : TransportError) : ClientError := transport e.status e.message

end ClientError

namespace Service

/-- The most records that the store puts on a page. -/
def mostPerPage : Nat := 500

/-- What stands in the place of a record. -/
def kindOf : Json.Value → String
  | .null => "null"
  | .boolean _ => "a boolean"
  | .number _ => "a number"
  | .string _ => "a string"
  | .array _ => "an array"
  | .object _ => "an object"

variable {α : Type} [Model α]

def decodeModel (v : Json.Value) : Except ClientError α :=
  match v with
  | .object members => .ok (Model.ofRecord ⟨members⟩)
  | other => .error (.decode ("expected a record object, got " ++ kindOf other))

/-- Sends a request and decodes the answer. -/
def call {β : Type} (r : Request) (decode : Json.Value → Except ClientError β) (s : Session) :
    Except ClientError β × Session :=
  match s.send r with
  | (.ok v, s) => (decode v, s)
  | (.error e, s) => (.error (.ofTransport e), s)

theorem pending_call_lt {β : Type} {r : Request} {decode : Json.Value → Except ClientError β}
    {s t : Session} {x : β} (h : call r decode s = (.ok x, t)) :
    t.pending.length < s.pending.length := by
  unfold call at h
  split at h
  · next hs =>
    rw [← (Prod.mk.inj h).2]
    exact Session.pending_send_lt hs
  · cases h

/-- Fetches a record. That there is none is an error of its own. -/
def getOne (collection id : String) (options : Option RecordOptions) (s : Session) :
    Except ClientError α × Session :=
  let r : Request :=
    { method := .get, path := Request.recordPath collection id,
      query := (options.map RecordOptions.query).getD [] }
  match call r decodeModel s with
  | (.error (.transport 404 _), s) => (.error (.notFound collection id), s)
  | answer => answer

def decodePage (v : Json.Value) : Except ClientError (Page α) :=
  match Page.ofJson v with
  | .ok p => .ok (p.map Model.ofRecord)
  | .error e => .error (.decode e.message)

/-- Fetches a page. -/
def getList (collection : String) (options : Option ListOptions) (s : Session) :
    Except ClientError (Page α) × Session :=
  call { method := .get, path := Request.recordsPath collection,
         query := (options.map ListOptions.query).getD [] } decodePage s

/-- Fetches pages from a given one on, up to the first that is not full. The reported total is not
trusted, as records may be added on the way. The pages are counted without a bound; a counter of
32 bits has the same numbers for the pages below `2 ^ 32`. -/
def getPages (collection : String) (options : ListOptions) (page : Nat) (found : List α)
    (s : Session) : Except ClientError (List α) × Session :=
  if s.cancelled then (.error .cancelled, s)
  else
    match h : getList (α := α) collection (some { options with page }) s with
    | (.error e, t) => (.error e, t)
    | (.ok result, t) =>
      have : t.pending.length < s.pending.length := pending_call_lt h
      let found := found ++ result.items
      if result.items.length < options.perPage then (.ok found, t)
      else getPages collection options (page + 1) found t
termination_by s.pending.length

/-- The options with which all records are fetched: full pages without totals. -/
def allOptions (options : Option ListOptions) : ListOptions :=
  let o := options.getD {}
  { o with perPage := if o.perPage = 0 then mostPerPage else min o.perPage mostPerPage,
           skipTotal := true }

/-- Fetches all records, page after page. -/
def getAll (collection : String) (options : Option ListOptions) (s : Session) :
    Except ClientError (List α) × Session :=
  getPages collection (allOptions options) 1 [] s

/-- The record that a new model is sent as: without an id, if it holds none. -/
def newRecord (m : α) : Record :=
  let r := Model.toRecord m
  if Model.id r = "" then r.erase idKey else r

/-- Creates a record. -/
def create (collection : String) (m : α) (options : Option RecordOptions) (s : Session) :
    Except ClientError α × Session :=
  call { method := .post, path := Request.recordsPath collection,
         query := (options.map RecordOptions.query).getD [],
         body := .json (newRecord m).toJson } decodeModel s

/-- Changes a record to a model. -/
def update (collection id : String) (m : α) (options : Option RecordOptions) (s : Session) :
    Except ClientError α × Session :=
  call { method := .patch, path := Request.recordPath collection id,
         query := (options.map RecordOptions.query).getD [],
         body := .json (Model.toRecord m).toJson } decodeModel s

/-- Deletes a record, whatever the store answers. -/
def delete (collection id : String) (s : Session) : Except ClientError Unit × Session :=
  call { method := .delete, path := Request.recordPath collection id, body := .emptyObject }
    (fun _ => .ok ()) s

end Service
end TypedCollections
