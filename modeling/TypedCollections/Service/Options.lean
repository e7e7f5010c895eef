/-!
What a caller may ask of the store beyond a record or a list of records. Empty and zero options are
not sent.
-/

namespace TypedCollections

/-- The parameter of an option, unless it is empty. -/
def textParameter (name value : String) : List (String × String) :=
  if value = "" then [] else [(name, value)]

def numberParameter (name : String) (value : Nat) : List (String × String) :=
  if value = 0 then [] else [(name, toString value)]

/-- Options of a call about one record. -/
structure RecordOptions where
  /-- Relations to expand, between commas. -/
  expand : String := ""
  /-- Fields to return, between commas. -/
  fields : String := ""
  deriving DecidableEq, Repr

def RecordOptions.query (o : RecordOptions) : List (String × String) :=
  textParameter "expand" o.expand ++ textParameter "fields" o.fields

/-- Options of a call about many records. -/
structure ListOptions where
  page : Nat := 0
  perPage : Nat := 0
  sort : String := ""
  filter : String := ""
  expand : String := ""
  fields : String := ""
  /-- Asks the store not to count all records. -/
  skipTotal : Bool := false
  deriving DecidableEq, Repr

def ListOptions.query (o : ListOptions) : List (String × String) :=
  numberParameter "page" o.page ++ numberParameter "perPage" o.perPage
    ++ textParameter "sort" o.sort ++ textParameter "filter" o.filter
    ++ textParameter "expand" o.expand ++ textParameter "fields" o.fields
    ++ (if o.skipTotal then [("skipTotal", "true")] else [])

end TypedCollections
