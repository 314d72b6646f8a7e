import Quarry.Search.Condition

namespace Quarry

/-- The filter of one field. All conditions of a filter must hold. -/
inductive Filter where
  /-- Equality, or a null check for the null value. -/
  | value (v : Value)
  | object (conditions : List Condition)
  | objects (list : List (List Condition))

/-- A map from fields to filters that keeps the order in which the fields came first. -/
structure Search where
  entries : List (String × Filter)

namespace Search

def empty : Search := ⟨[]⟩

def replace (key : String) (f : Filter) : List (String × Filter) → List (String × Filter)
  | [] => [(key, f)]
  | (k, g) :: rest => if k = key then (k, f) :: rest else (k, g) :: replace key f rest

/-- Sets the filter of a field; a field that has one keeps its place. -/
def insert (s : Search) (key : String) (f : Filter) : Search :=
  ⟨replace key f s.entries⟩

def get? (s : Search) (key : String) : Option Filter :=
  s.entries.lookup key

def size (s : Search) : Nat :=
  s.entries.length

def isEmpty (s : Search) : Bool :=
  s.entries.isEmpty

def keys (s : Search) : List String :=
  s.entries.map Prod.fst

/-- One setting of a field; one that is absent changes nothing. -/
inductive Step where
  | value (key : String) (v : Value)
  | valueIfGiven (key : String) (v : Option Value)
  | isNull (key : String)
  | condition (key : String) (c : Condition)
  | conditionIfGiven (key : String) (c : Option Condition)
  /-- Each condition becomes an operator object of its own. -/
  | conditions (key : String) (cs : List Condition)
  | object (key : String) (cs : List Condition)
  | objects (key : String) (css : List (List Condition))

/-- The field that a step sets, with its filter. -/
def Step.entry? : Step → Option (String × Filter)
  | value key v => some (key, .value v)
  | valueIfGiven key v => v.map fun v => (key, .value v)
  | isNull key => some (key, .value .null)
  | condition key c => some (key, .object [c])
  | conditionIfGiven key c => c.map fun c => (key, .object [c])
  | conditions key cs => some (key, .objects (cs.map fun c => [c]))
  | object key cs => some (key, .object cs)
  | objects key css => some (key, .objects css)

def apply (s : Search) (step : Step) : Search :=
  match step.entry? with
  | some (key, f) => s.insert key f
  | none => s

def ofSteps (steps : List Step) : Search :=
  steps.foldl apply empty

@[simp] theorem entries_empty : empty.entries = [] := rfl

end Search

/-- A search and, if given, alternatives of which at least one must hold as well. -/
structure Group where
  search : Search
  alternatives : Option (List Search)

end Quarry
