import Quarry.Json.Basic

namespace Quarry

open Number

/-- A point in time: seconds since 1970 in UTC, and nanoseconds after that second. -/
structure Instant where
  seconds : Int
  nanos : Fin 1000000000
deriving DecidableEq

inductive Value where
  | null
  | bool (b : Bool)
  | int (n : Int64)
  | float (x : Double)
  | text (s : String)
  | bytes (bs : List UInt8)
  | uuid (id : BitVec 128)
  | timestamp (t : Instant)
  | json (doc : Json)
  | array (items : List Value)
deriving Inhabited

namespace Value

def isNull : Value → Bool
  | null => true
  | _ => false

def typeName : Value → String
  | null => "null"
  | bool _ => "bool"
  | int _ => "int"
  | float _ => "float"
  | text _ => "text"
  | bytes _ => "bytes"
  | uuid _ => "uuid"
  | timestamp _ => "timestamp"
  | json _ => "json"
  | array _ => "array"

mutual

/-- The closest value: a number that fits a word is an integer, any other one is a float, arrays go
member by member, and an object stays a document. -/
def ofJson : Json → Value
  | .null => null
  | .bool b => bool b
  | .int n =>
    match word? n with
    | some w => int w
    | none => float (Double.ofInt n)
  | .float x => float x
  | .str s => text s
  | .arr items => array (ofJsonList items)
  | .obj fields => json (.obj fields)

def ofJsonList : List Json → List Value
  | [] => []
  | j :: js => ofJson j :: ofJsonList js

end

theorem ofJsonList_eq_map (js : List Json) : ofJsonList js = js.map ofJson := by
  induction js with
  | nil => rfl
  | cons j js ih => rw [ofJsonList, ih, List.map_cons]

end Value

end Quarry
