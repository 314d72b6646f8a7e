import Quarry.Json.Basic
import Quarry.Number.Shortest
import Quarry.Text.Decimal
import Quarry.Text.Hex
import Quarry.Text.Join

namespace Quarry.Json

open Quarry.Number Quarry.Text

/-- Decimal exponents from `least` to `greatest` are written without an exponent part. -/
structure NumberStyle where
  least : Int
  greatest : Int

def numberStyle : NumberStyle := ⟨-5, 15⟩

/-- Digits with a point after the first `whole` of them. -/
def pointed (ds : List Char) (whole : Nat) : List Char :=
  let front := ds.take whole ++ List.replicate (whole - ds.length) '0'
  let back := ds.drop whole
  front ++ '.' :: (if back = [] then ['0'] else back)

def exponentText (e : Int) : List Char :=
  'e' :: (if e < 0 then '-' else '+') :: Decimal.digits e.natAbs

def scientificText (s : Scientific) : List Char :=
  let ds := Decimal.digits s.digits
  let e := s.exponent + (ds.length - 1 : Nat)
  if e < numberStyle.least ∨ numberStyle.greatest < e then
    (if ds.length = 1 then ds else pointed ds 1) ++ exponentText e
  else if e < 0 then
    '0' :: '.' :: (List.replicate (e.natAbs - 1) '0' ++ ds)
  else pointed ds (e.toNat + 1)

/-- The shortest text that reads back; what is not finite is written as null. -/
def floatText (x : Double) : String :=
  if x.isFinite then
    let body := if x.magnitude = 0 then ['0', '.', '0'] else scientificText x.shortest
    String.ofList (if x.isNegative then '-' :: body else body)
  else "null"

def escape (c : Char) : List Char :=
  match c with
  | '"' => ['\\', '"']
  | '\\' => ['\\', '\\']
  | '\x08' => ['\\', 'b']
  | '\x0c' => ['\\', 'f']
  | '\n' => ['\\', 'n']
  | '\r' => ['\\', 'r']
  | '\t' => ['\\', 't']
  | c =>
    if c.toNat < 0x20 then
      ['\\', 'u', '0', '0', Hex.digit (c.toNat / 16), Hex.digit (c.toNat % 16)]
    else [c]

def quote (s : String) : String :=
  String.ofList ('"' :: (s.toList.flatMap escape ++ ['"']))

mutual

def text : Json → String
  | null => "null"
  | bool b => if b then "true" else "false"
  | int n => Decimal.writeInt n
  | float x => floatText x
  | str s => quote s
  | arr items => "[" ++ Text.join "," (itemTexts items) ++ "]"
  | obj fields => "\x7b" ++ Text.join "," (fieldTexts fields) ++ "\x7d"

def itemTexts : List Json → List String
  | [] => []
  | x :: xs => text x :: itemTexts xs

def fieldTexts : List (String × Json) → List String
  | [] => []
  | (k, x) :: xs => (quote k ++ ":" ++ text x) :: fieldTexts xs

end

end Quarry.Json
