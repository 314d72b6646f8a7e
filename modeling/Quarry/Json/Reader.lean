import Quarry.Json.Numeral
import Quarry.Text.Hex

namespace Quarry.Json

open Numeral Quarry.Text

def isSpace (c : Char) : Bool :=
  c = ' ' || c = '\t' || c = '\n' || c = '\r'

def skipSpace (cs : List Char) : List Char :=
  cs.dropWhile isSpace

/-- The value of four hexadecimal digits, and what follows them. -/
def fourHex? : List Char → Option (Nat × List Char)
  | a :: b :: c :: d :: cs => do
    let a ← Hex.value? a
    let b ← Hex.value? b
    let c ← Hex.value? c
    let d ← Hex.value? d
    some (((a * 16 + b) * 16 + c) * 16 + d, cs)
  | _ => none

def scalar? (n : Nat) : Option Char :=
  if n.isValidChar then some (Char.ofNat n) else none

/-- The character that an escape stands for: a pair of surrogates is one character. -/
def unescape? : List Char → Option (Char × List Char)
  | '"' :: cs => some ('"', cs)
  | '\\' :: cs => some ('\\', cs)
  | '/' :: cs => some ('/', cs)
  | 'b' :: cs => some ('\x08', cs)
  | 'f' :: cs => some ('\x0c', cs)
  | 'n' :: cs => some ('\n', cs)
  | 'r' :: cs => some ('\r', cs)
  | 't' :: cs => some ('\t', cs)
  | 'u' :: cs => do
    let (n, cs) ← fourHex? cs
    if 0xd800 ≤ n ∧ n < 0xdc00 then
      match cs with
      | '\\' :: 'u' :: cs => do
        let (m, cs) ← fourHex? cs
        if 0xdc00 ≤ m ∧ m < 0xe000 then
          let c ← scalar? (0x10000 + (n - 0xd800) * 0x400 + (m - 0xdc00))
          some (c, cs)
        else none
      | _ => none
    else
      let c ← scalar? n
      some (c, cs)
  | _ => none

/-- The rest of a string after its opening quote; `done` holds what was read, backwards. -/
def readString : Nat → List Char → List Char → Option (String × List Char)
  | 0, _, _ => none
  | fuel + 1, done, cs =>
    match cs with
    | '"' :: cs => some (String.ofList done.reverse, cs)
    | '\\' :: cs => do
      let (c, cs) ← unescape? cs
      readString fuel (c :: done) cs
    | c :: cs => if c.toNat < 0x20 then none else readString fuel (c :: done) cs
    | [] => none

def digits? (cs : List Char) : Option (List Char × List Char) :=
  let ds := cs.takeWhile Char.isDigit
  if ds = [] then none else some (ds, cs.dropWhile Char.isDigit)

def readFraction? : List Char → Option (Option (List Char) × List Char)
  | '.' :: cs => do
    let (ds, cs) ← digits? cs
    some (some ds, cs)
  | cs => some (none, cs)

def readExponent? (cs : List Char) : Option (Option Int × List Char) :=
  match cs with
  | e :: cs' =>
    if e = 'e' ∨ e = 'E' then do
      let (negative, cs') := match cs' with
        | '-' :: r => (true, r)
        | '+' :: r => (false, r)
        | r => (false, r)
      let (ds, cs') ← digits? cs'
      let n : Int := Decimal.value ds
      some (some (if negative then -n else n), cs')
    else some (none, cs)
  | [] => some (none, [])

def readNumber? (cs : List Char) : Option (Json × List Char) := do
  let (negative, cs) := match cs with
    | '-' :: r => (true, r)
    | r => (false, r)
  let (whole, cs) ← digits? cs
  if 1 < whole.length ∧ whole.head? = some '0' then none else
    let (fraction, cs) ← readFraction? cs
    let (exponent, cs) ← readExponent? cs
    let j ← Literal.json? ⟨negative, whole, fraction, exponent⟩
    some (j, cs)

def dropWord? (word : String) (cs : List Char) : Option (List Char) :=
  if word.toList.isPrefixOf cs then some (cs.drop word.length) else none

mutual

def readValue : Nat → List Char → Option (Json × List Char)
  | 0, _ => none
  | fuel + 1, cs =>
    match skipSpace cs with
    | '"' :: cs => do
      let (s, cs) ← readString (cs.length + 1) [] cs
      some (str s, cs)
    | '[' :: cs =>
      match skipSpace cs with
      | ']' :: cs => some (arr [], cs)
      | cs => do
        let (items, cs) ← readItems fuel cs
        some (arr items, cs)
    | '\x7b' :: cs =>
      match skipSpace cs with
      | '\x7d' :: cs => some (obj [], cs)
      | cs => do
        let (fields, cs) ← readFields fuel cs
        some (obj fields, cs)
    | 't' :: cs => (dropWord? "rue" cs).map fun cs => (bool true, cs)
    | 'f' :: cs => (dropWord? "alse" cs).map fun cs => (bool false, cs)
    | 'n' :: cs => (dropWord? "ull" cs).map fun cs => (null, cs)
    | cs => readNumber? cs

def readItems : Nat → List Char → Option (List Json × List Char)
  | 0, _ => none
  | fuel + 1, cs => do
    let (x, cs) ← readValue fuel cs
    match skipSpace cs with
    | ',' :: cs =>
      let (xs, cs) ← readItems fuel cs
      some (x :: xs, cs)
    | ']' :: cs => some ([x], cs)
    | _ => none

def readFields : Nat → List Char → Option (List (String × Json) × List Char)
  | 0, _ => none
  | fuel + 1, cs => do
    match skipSpace cs with
    | '"' :: cs =>
      let (k, cs) ← readString (cs.length + 1) [] cs
      match skipSpace cs with
      | ':' :: cs =>
        let (x, cs) ← readValue fuel cs
        match skipSpace cs with
        | ',' :: cs =>
          let (xs, cs) ← readFields fuel cs
          some ((k, x) :: xs, cs)
        | '\x7d' :: cs => some ([(k, x)], cs)
        | _ => none
      | _ => none
    | _ => none

end

/-- Each call reads a character or is the first one on its place, so twice the length is enough. -/
def read? (s : String) : Option Json := do
  let cs := s.toList
  let (j, rest) ← readValue (2 * cs.length + 2) cs
  if skipSpace rest = [] then some j else none

end Quarry.Json
