import Quarry.Clause.Conditions
import Quarry.Clause.Order
import Quarry.Clause.Page

namespace Quarry

open Text

/-- The select list; everything is selected if no column is named. -/
def columnList (columns : List String) : String :=
  if columns = [] then "*" else join ", " columns

structure ClauseRequest where
  columns : List String := []
  page : Option Page := none
  order : Option (List OrderItem) := none
  sortable : Option Sortable := none
  dialect : Dialect := .numbered
  cursor : Nat := 0
  config : PageConfig := {}

/-- Clauses that were not requested are empty. -/
structure Clauses where
  columns : String
  conditions : String
  order : String
  page : String
  cursor : Nat

def Fragments.clauses (g : Fragments) (r : ClauseRequest) : Except Invalid Clauses := do
  let (conditions, cursor) ← g.text r.dialect r.cursor
  let order ← match r.order with
    | some items => orderClause items r.sortable
    | none => pure ""
  return {
    columns := columnList r.columns
    conditions := "WHERE " ++ conditions
    order
    page := match r.page with
      | some p => p.clause r.config
      | none => ""
    cursor }

end Quarry
