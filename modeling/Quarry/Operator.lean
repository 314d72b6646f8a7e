namespace Quarry

inductive Operator where
  | eq
  | ne
  | gt
  | gte
  | lt
  | lte
  | custom
  | between
  | notBetween
  | inList
  | notInList
  | like
  | ilike
  | notLike
  | notIlike
  | isNull
  | isNotNull
  | contains
  | containedBy
  | overlap
  | regex
  | iregex
  | notRegex
  | notIregex
  | jsonPath
  | jsonPathMatch
deriving DecidableEq

namespace Operator

def all : List Operator :=
  [eq, ne, gt, gte, lt, lte, custom, between, notBetween, inList, notInList, like, ilike, notLike,
    notIlike, isNull, isNotNull, contains, containedBy, overlap, regex, iregex, notRegex,
    notIregex, jsonPath, jsonPathMatch]

def tag : Operator → String
  | eq => "$eq"
  | ne => "$ne"
  | gt => "$gt"
  | gte => "$gte"
  | lt => "$lt"
  | lte => "$lte"
  | custom => "$custom"
  | between => "$between"
  | notBetween => "$notBetween"
  | inList => "$in"
  | notInList => "$nin"
  | like => "$like"
  | ilike => "$ilike"
  | notLike => "$notLike"
  | notIlike => "$notIlike"
  | isNull => "$isNull"
  | isNotNull => "$isNotNull"
  | contains => "$contains"
  | containedBy => "$containedBy"
  | overlap => "$overlap"
  | regex => "$regex"
  | iregex => "$iregex"
  | notRegex => "$notRegex"
  | notIregex => "$notIregex"
  | jsonPath => "$jsonPath"
  | jsonPathMatch => "$jsonPathMatch"

/-- The number of values bound: a list is bound as one value. -/
def arity : Operator → Nat
  | isNull | isNotNull => 0
  | between | notBetween => 2
  | _ => 1

def isPostgresOnly : Operator → Bool
  | contains | containedBy | overlap | regex | iregex | notRegex | notIregex | jsonPath
  | jsonPathMatch => true
  | _ => false

def ofTag? (tag : String) : Option Operator :=
  all.find? fun op => op.tag = tag

theorem mem_all (op : Operator) : op ∈ all := by
  cases op <;> decide

theorem ofTag?_tag (op : Operator) : ofTag? op.tag = some op := by
  cases op <;> decide

theorem tag_of_ofTag? {tag : String} {op : Operator} (h : ofTag? tag = some op) : op.tag = tag := by
  simpa using List.find?_some h

end Operator

end Quarry
