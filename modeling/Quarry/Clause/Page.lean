import Quarry.Json.Record
import Quarry.Text.Blank
import Quarry.Text.Decimal

namespace Quarry

open Text

structure PageConfig where
  defaultLimit : Int64 := 20
  defaultOffset : Int64 := 0
  /-- Limits above it are cut down to it. -/
  maxLimit : Option Int64 := none
deriving DecidableEq, Inhabited

def PageConfig.clamp (c : PageConfig) (limit : Int64) : Int64 :=
  match c.maxLimit with
  | some m => min limit m
  | none => limit

namespace PageConfig

def set (c : PageConfig) (name : String) (j : Json) : Except Json.Rejection PageConfig :=
  match name with
  | "default_limit" => (Json.expect j.word?).map fun w => { c with defaultLimit := w }
  | "default_offset" => (Json.expect j.word?).map fun w => { c with defaultOffset := w }
  | "max_limit" =>
    (Json.optional (fun j => Json.expect j.word?) j).map fun w => { c with maxLimit := w }
  | _ => .ok c

def ofJson (j : Json) : Except Json.Rejection PageConfig :=
  j.record ["default_limit", "default_offset", "max_limit"] [] set {}

end PageConfig

structure Page where
  limit : Option Int64 := none
  offset : Option Int64 := none
deriving DecidableEq, Inhabited

namespace Page

/-- A number as an integer, or as a text of an integer with blanks around it. -/
def number? : Json → Option Int64
  | .int n => Number.word? n
  | .str s => (Decimal.readInt? (trim s.toList)).bind Number.word?
  | _ => none

def nonNegative? (w : Int64) : Option Int64 :=
  if 0 ≤ w then some w else none

/-- What is not a non-negative integer counts as not requested. -/
def ofJson (j : Json) : Page where
  limit := ((j.field? "limit").bind number?).bind nonNegative?
  offset := ((j.field? "offset").bind number?).bind nonNegative?

def limitUnder (p : Page) (c : PageConfig) : Int64 :=
  c.clamp ((p.limit.bind nonNegative?).getD c.defaultLimit)

def offsetUnder (p : Page) (c : PageConfig) : Int64 :=
  (p.offset.bind nonNegative?).getD c.defaultOffset

def clause (p : Page) (c : PageConfig) : String :=
  "LIMIT " ++ Decimal.writeInt (p.limitUnder c).toInt ++ " OFFSET " ++
    Decimal.writeInt (p.offsetUnder c).toInt

end Page

end Quarry
