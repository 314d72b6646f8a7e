import Quarry.Number.Binary
import Quarry.Number.Word

namespace Quarry

open Number

/-- JSON documents. An object keeps its fields in document order. -/
inductive Json where
  | null
  | bool (b : Bool)
  | int (n : Int)
  | float (x : Double)
  | str (s : String)
  | arr (items : List Json)
  | obj (fields : List (String × Json))
deriving Inhabited

namespace Json

def isNull : Json → Bool
  | null => true
  | _ => false

def field? (name : String) : Json → Option Json
  | obj fields => fields.lookup name
  | _ => none

def str? : Json → Option String
  | str s => some s
  | _ => none

def bool? : Json → Option Bool
  | bool b => some b
  | _ => none

def arr? : Json → Option (List Json)
  | arr items => some items
  | _ => none

/-- A number written without fraction and exponent that fits a word. -/
def word? : Json → Option Int64
  | int n => Number.word? n
  | _ => none

end Json

end Quarry
