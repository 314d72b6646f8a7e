import Quarry.Json.Record

namespace Quarry

open Text

inductive Direction where
  | asc
  | desc
deriving DecidableEq, Inhabited

namespace Direction

def sql : Direction → String
  | asc => "ASC"
  | desc => "DESC"

/-- Upper and lower case letters are the same. -/
def ofToken (token : String) : Except Invalid Direction :=
  let letters := token.toList.map Char.toLower
  if letters = "asc".toList then .ok asc
  else if letters = "desc".toList then .ok desc
  else .error (.badDirection token)

end Direction

structure OrderItem where
  field : String
  direction : Direction
deriving DecidableEq

namespace OrderItem

def parse (field token : String) : Except Invalid OrderItem :=
  (Direction.ofToken token).map fun d => ⟨field, d⟩

def sql (item : OrderItem) : String :=
  item.field ++ " " ++ item.direction.sql

def set (item : OrderItem) (name : String) (j : Json) : Except Json.Rejection OrderItem :=
  match name with
  | "orderBy" => (Json.expect j.str?).map fun s => { item with field := s }
  | "ordering" => do
    let token ← Json.expect j.str?
    let d ← (Direction.ofToken token).mapError .invalid
    return { item with direction := d }
  | _ => .ok item

def ofJson (j : Json) : Except Json.Rejection OrderItem :=
  j.record ["orderBy", "ordering"] ["orderBy"] set ⟨"", .asc⟩

/-- Reads one item or, if the document is none, a list of them. -/
def listOfJson (j : Json) : Except Json.Rejection (List OrderItem) :=
  match ofJson j with
  | .ok item => .ok [item]
  | .error _ =>
    match j with
    | .arr items => (items.mapM ofJson).mapError fun _ => .shape
    | _ => .error .shape

end OrderItem

structure Sortable where
  fields : List String
deriving DecidableEq

namespace Sortable

def contains (s : Sortable) (field : String) : Bool :=
  s.fields.contains field

def extend (s : Sortable) (more : List String) : Sortable :=
  ⟨s.fields ++ more⟩

end Sortable

/-- Without an allow-list a field must at least be an identifier. -/
def OrderItem.check (sortable : Option Sortable) (item : OrderItem) : Except Invalid Unit :=
  match sortable with
  | some s => if s.contains item.field then .ok () else .error (.notSortable item.field)
  | none => naming (Name.checkIdent item.field)

def OrderItem.text (sortable : Option Sortable) (item : OrderItem) : Except Invalid String := do
  item.check sortable
  return item.sql

def orderClause (items : List OrderItem) (sortable : Option Sortable) : Except Invalid String := do
  if items = [] then return ""
  else return "ORDER BY " ++ join ", " (← items.mapM (·.text sortable))

end Quarry
