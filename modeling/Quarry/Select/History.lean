import Quarry.Select.Build

namespace Quarry

namespace Select

/-- The steps by which a SELECT comes about. -/
inductive Step where
  | columns (names : List String)
  | source (s : Source)
  | join (kind : JoinKind) (j : Join)
  | filter (g : Group)
  | having (g : Group)
  | groupBy (columns : List String)
  | orderBy (items : List OrderItem)
  | sortable (fields : Sortable)
  | paginate (p : Page)
  | configure (c : PageConfig)
  | count

def apply (s : Select) : Step → Select
  | .columns names => s.select names
  | .source new => s.fromSource new
  | .join kind j => s.join kind j
  | .filter g => s.filter g
  | .having g => s.having g
  | .groupBy columns => s.groupBy columns
  | .orderBy items => s.orderBy items
  | .sortable fields => s.sortableBy fields
  | .paginate p => s.paginate p
  | .configure c => s.configure c
  | .count => s.count

def applyAll (s : Select) (steps : List Step) : Select :=
  steps.foldl apply s

end Select

end Quarry
