import Quarry.Clause.All
import Quarry.Placeholder
import Quarry.Select.Join
import Quarry.Statement

/-!
SELECT statements under construction. All clauses share one cursor, so that no placeholder number
is given twice, in whatever order the clauses come. The first error is kept and every later one
is dropped.
-/
namespace Quarry

/-- The clauses that bind values, in the order of the text. -/
inductive Slot where
  | source
  | filter
  | having
deriving DecidableEq

structure Bound where
  slot : Slot
  value : Value

/-- A finished SELECT that another one can select from. Its placeholders count from one. -/
structure Subquery where
  sql : String
  values : List Value
  name : String
  dialect : Dialect

inductive Source where
  | table (text : String)
  | subquery (sub : Subquery)

structure Select where
  dialect : Dialect
  config : PageConfig := {}
  columns : List String := []
  source : String := ""
  sourceParams : Nat := 0
  joins : List String := []
  filters : List String := []
  groups : List String := []
  havings : List String := []
  order : Option (List OrderItem) := none
  sortable : Option Sortable := none
  page : Option Page := none
  bound : List Bound := []
  /-- The number of placeholders given out. -/
  cursor : Nat := 0
  error : Option Invalid := none

namespace Select

/-- Keeps the first error. -/
def reject (s : Select) (why : Invalid) : Select :=
  { s with error := s.error.or (some why) }

def addValues (s : Select) (slot : Slot) (values : List Value) : Select :=
  { s with bound := s.bound ++ values.map (Bound.mk slot) }

/-- Takes back the values of the source and their numbers. -/
def dropSource (s : Select) : Select :=
  { s with
    bound := s.bound.filter fun b => b.slot ≠ .source
    cursor := s.cursor - s.sourceParams
    sourceParams := 0 }

def checkSubquery (s : Select) (sub : Subquery) : Except Invalid Unit :=
  if sub.dialect = s.dialect then naming (Name.checkAlias sub.name)
  else .error (.foreignSubquery sub.name sub.dialect s.dialect)

def setSource (s : Select) : Source → Select
  | .table text => { s with source := text }
  | .subquery sub =>
    match s.checkSubquery sub with
    | .error why => s.reject why
    | .ok () =>
      { s.addValues .source sub.values with
        source := "(" ++ Placeholder.shift s.dialect sub.sql s.cursor ++ ") AS " ++ sub.name
        sourceParams := sub.values.length
        cursor := s.cursor + sub.values.length }

/-- Are there values that were numbered after those of the source? -/
def hasOtherValues (s : Select) : Bool :=
  s.bound.any fun b => b.slot ≠ .source

/-- Selects from another source. The numbers of a source that binds values can be given back only
if no other clause has been numbered since. -/
def fromSource (s : Select) (source : Source) : Select :=
  if s.sourceParams = 0 then s.setSource source
  else if s.hasOtherValues ∧ s.dialect = .numbered then s.reject .boundSource
  else s.dropSource.setSource source

def new (dialect : Dialect) (source : Source) : Select :=
  ({ dialect } : Select).fromSource source

def select (s : Select) (columns : List String) : Select :=
  { s with columns }

def join (s : Select) (kind : JoinKind) (j : Join) : Select :=
  match j.text kind with
  | .ok sql => { s with joins := s.joins ++ [sql] }
  | .error why => s.reject why

/-- The text and the values of a group, with its placeholders numbered on from the cursor. -/
def groupText (s : Select) (g : Group) : Except Invalid (String × Nat × List Value) := do
  let compiled ← g.compile
  let (text, next) ← compiled.text s.dialect s.cursor
  return (text, next, compiled.values)

def filter (s : Select) (g : Group) : Select :=
  match s.groupText g with
  | .ok (text, next, values) =>
    { s.addValues .filter values with filters := s.filters ++ [text], cursor := next }
  | .error why => s.reject why

def having (s : Select) (g : Group) : Select :=
  match s.groupText g with
  | .ok (text, next, values) =>
    { s.addValues .having values with havings := s.havings ++ [text], cursor := next }
  | .error why => s.reject why

def groupBy (s : Select) (columns : List String) : Select :=
  { s with groups := s.groups ++ columns }

def orderBy (s : Select) (items : List OrderItem) : Select :=
  { s with order := some items }

def sortableBy (s : Select) (fields : Sortable) : Select :=
  { s with sortable := some fields }

def paginate (s : Select) (p : Page) : Select :=
  { s with page := some p }

def configure (s : Select) (c : PageConfig) : Select :=
  { s with config := c }

end Select

end Quarry
