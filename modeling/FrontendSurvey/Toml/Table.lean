set_option autoImplicit false

namespace FrontendSurvey.Toml

inductive Origin where
  -- named by a header of its own
  | explicit
  -- on the way to the table of a header
  | implied
  -- on the way to the value of a dotted key, even if it was on the way to a header before
  | dotted
  deriving DecidableEq, Repr

inductive Value where
  | text (s : String)
  | integer (n : Int)
  | float
  | boolean
  | time
  | list (items : List Value)
  -- a table in braces
  | inline (fields : List (String × Value))
  | table (origin : Origin) (fields : List (String × Value))
  -- the tables of headers in double brackets
  | tables (items : List (List (String × Value)))

abbrev Fields := List (String × Value)

def replace (key : String) (value : Value) (fields : Fields) : Fields :=
  fields.map fun field => if field.1 = key then (key, value) else field

def onLast (change : Fields → Option Fields) : List Fields → Option (List Fields)
  | [] => none
  | [fields] => (change fields).map ([·])
  | fields :: rest => (onLast change rest).map (fields :: ·)

def insert : List String → String → Value → Fields → Option Fields
  | [], key, value, fields =>
    if (fields.lookup key).isSome then none else some (fields ++ [(key, value)])
  | step :: path, key, value, fields =>
    match fields.lookup step with
    | none =>
      (insert path key value []).map fun inner => fields ++ [(step, .table .dotted inner)]
    | some (.table .explicit _) => none
    | some (.table _ inner) =>
      (insert path key value inner).map fun inner => replace step (.table .dotted inner) fields
    | some (.tables items) =>
      if path.isEmpty then none
      else (onLast (insert path key value) items).map fun items => replace step (.tables items) fields
    | some _ => none

/-- Changes the table that a header's path leads to, by way of the last of repeated tables. -/
def changeAt : List String → (Fields → Option Fields) → Fields → Option Fields
  | [], change, fields => change fields
  | step :: path, change, fields =>
    match fields.lookup step with
    | none => (changeAt path change []).map fun inner => fields ++ [(step, .table .implied inner)]
    | some (.table origin inner) =>
      (changeAt path change inner).map fun inner => replace step (.table origin inner) fields
    | some (.tables items) =>
      (onLast (changeAt path change) items).map fun items => replace step (.tables items) fields
    | some _ => none

structure Entry where
  path : List String
  key : String
  value : Value

def insertAll (fields : Fields) (entries : List Entry) : Option Fields :=
  entries.foldlM (fun fields entry => insert entry.path entry.key entry.value fields) fields

def addSection (path : List String) (key : String) (entries : List Entry) (root : Fields) :
    Option Fields :=
  -- the section of a header: it completes a table that was only implied, or starts a new one
  changeAt path
    (fun fields =>
      match fields.lookup key with
      | none => (insertAll [] entries).map fun inner => fields ++ [(key, .table .explicit inner)]
      | some (.table .implied inner) =>
        (insertAll inner entries).map fun inner => replace key (.table .explicit inner) fields
      | some _ => none)
    root

def addRepeated (path : List String) (key : String) (entries : List Entry) (root : Fields) :
    Option Fields :=
  changeAt path
    (fun fields =>
      match fields.lookup key with
      | none => (insertAll [] entries).map fun inner => fields ++ [(key, .tables [inner])]
      | some (.tables items) =>
        (insertAll [] entries).map fun inner => replace key (.tables (items ++ [inner])) fields
      | some _ => none)
    root

end FrontendSurvey.Toml
