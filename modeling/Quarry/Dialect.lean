import Quarry.Text.Decimal
import Quarry.Json.Basic

namespace Quarry

open Text

/-- How a client wants its placeholders: `$1`, `$2`, … or `?` each time. -/
inductive Dialect where
  | numbered
  | unnumbered
deriving DecidableEq, Inhabited

namespace Dialect

def name : Dialect → String
  | numbered => "numbered"
  | unnumbered => "unnumbered"

def ofName? : String → Option Dialect
  | "numbered" => some numbered
  | "unnumbered" => some unnumbered
  | _ => none

/-- The placeholder of the parameter with the given number, counted from one. -/
def placeholder : Dialect → Nat → String
  | numbered, n => "$" ++ Decimal.write n
  | unnumbered, _ => "?"

/-- A dialect is written as its name, or as an object with its name as the only key and null. -/
def ofJson? : Json → Option Dialect
  | .str s => ofName? s
  | .obj [(s, .null)] => ofName? s
  | _ => none

theorem ofName?_name (d : Dialect) : ofName? d.name = some d := by
  cases d <;> rfl

end Dialect

end Quarry
