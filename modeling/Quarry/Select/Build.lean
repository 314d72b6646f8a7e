import Quarry.Select.Basic

namespace Quarry

namespace Select

/-- Conditions set together; those of empty groups say nothing and are left out. -/
def conjunction (texts : List String) : String :=
  let parts := texts.filter (· ≠ tautology)
  if parts = [] then tautology else Text.join " AND " parts

/-- Numbered placeholders bind in the order of their numbers, others in the order of the text. -/
def orderedValues (s : Select) : List Value :=
  match s.dialect with
  | .numbered => s.bound.map Bound.value
  | .unnumbered =>
    [Slot.source, .filter, .having].flatMap fun slot =>
      (s.bound.filter fun b => b.slot = slot).map Bound.value

def orderText (s : Select) : Except Invalid String :=
  match s.order with
  | some items => orderClause items s.sortable
  | none => .ok ""

/-- A clause of the text, left out if it is empty. -/
def clauseIf (present : Bool) (text : String) : List String :=
  if present then [text] else []

def clauseTexts (s : Select) (order : String) : List String :=
  ["SELECT " ++ columnList s.columns ++ " FROM " ++ s.source] ++ s.joins ++
    clauseIf (s.filters ≠ []) ("WHERE " ++ conjunction s.filters) ++
    clauseIf (s.groups ≠ []) ("GROUP BY " ++ Text.join ", " s.groups) ++
    clauseIf (s.havings ≠ []) ("HAVING " ++ conjunction s.havings) ++
    clauseIf (order ≠ "") order ++
    match s.page with
    | some p => [p.clause s.config]
    | none => []

def build (s : Select) : Except Invalid Statement :=
  match s.error with
  | some why => .error why
  | none => do
    let order ← s.orderText
    return ⟨Text.join " " (s.clauseTexts order), s.orderedValues⟩

def toSubquery (s : Select) (name : String) : Except Invalid Subquery := do
  naming (Name.checkAlias name)
  let q ← s.build
  return ⟨q.sql, q.values, name, s.dialect⟩

def countColumns : List String := ["COUNT(*)"]

def unpaged (s : Select) : Select :=
  { s with order := none, page := none }

/-- Counts the rows of a SELECT, without its order and its page. Groups are counted by selecting
from the grouped query. -/
def count (s : Select) : Select :=
  let s := s.unpaged
  if s.groups = [] ∧ s.havings = [] then s.select countColumns
  else
    match s.toSubquery "t" with
    | .ok sub => ((new s.dialect (.subquery sub)).configure s.config).select countColumns
    | .error why => s.reject why

end Select

end Quarry
