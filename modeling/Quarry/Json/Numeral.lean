import Quarry.Json.Basic
import Quarry.Text.Decimal

/-!
The value of a JSON number. Without fraction and exponent it is an integer while it fits 64 bits,
signed or not. Any other number is a double: as many digits as fit 64 bits make a significand,
which is multiplied or divided by a power of ten, with a rounding at each step.
-/
namespace Quarry.Json.Numeral

open Quarry.Number Quarry.Text

/-- A number as it is spelled. -/
structure Literal where
  negative : Bool
  whole : List Char
  fraction : Option (List Char)
  exponent : Option Int

/-- Digits join the significand `n` until it would outgrow 64 bits. -/
def takeDigits (n : Nat) : List Char → Nat × List Char
  | [] => (n, [])
  | c :: cs =>
    let m := n * 10 + (c.toNat - '0'.toNat)
    if m < UInt64.size then takeDigits m cs else (n, c :: cs)

/-- The greatest power of ten that one step multiplies or divides by. -/
def maxPower : Nat := 308

def power (k : Nat) : Double :=
  Double.ofNat (Nat.pow 10 k)

/-- The rounded product of two non-negative numbers. -/
def mul (x y : Double) : Double :=
  let f := Format.double
  Double.ofParts false <| f.nearest (f.significand x.magnitude * f.significand y.magnitude) 1
    (f.exponent x.magnitude + f.exponent y.magnitude)

/-- The rounded quotient of two non-negative numbers, the second one positive. -/
def div (x y : Double) : Double :=
  let f := Format.double
  Double.ofParts false <| f.nearest (f.significand x.magnitude) (f.significand y.magnitude)
    (f.exponent x.magnitude - f.exponent y.magnitude)

/-- `x / 10 ^ k` for a large `k`, by steps; the steps end when nothing is left of `x`. -/
def divPower (x : Double) : Nat → Nat → Double
  | 0, _ => x
  | fuel + 1, k =>
    if k ≤ maxPower then div x (power k)
    else if x.magnitude = 0 then x
    else divPower (div x (power maxPower)) fuel (k - maxPower)

/-- `n * 10 ^ k`, or nothing if that is too large. -/
def scale? (n : Nat) (k : Int) : Option Double :=
  let x := Double.ofNat n
  if k < 0 then some (divPower x 8 k.natAbs)
  else if x.magnitude = 0 then some x
  else if maxPower < k.toNat then none
  else
    let y := mul x (power k.toNat)
    if y.isFinite then some y else none

def Literal.float? (l : Literal) : Option Double :=
  let (n, skipped) := takeDigits 0 l.whole
  let (m, dropped) := takeDigits n (l.fraction.getD [])
  let places := (l.fraction.getD []).length - dropped.length
  let x? := scale? m (skipped.length - places + l.exponent.getD 0)
  x?.map fun x => if l.negative then x.neg else x

/-- Minus zero is a double. -/
def Literal.json? (l : Literal) : Option Json :=
  let n := Decimal.value l.whole
  match l.fraction, l.exponent with
  | none, none =>
    if l.negative then
      if n ≠ 0 ∧ (Number.word? (-n)).isSome then some (.int (-n)) else l.float?.map .float
    else if n < UInt64.size then some (.int n) else l.float?.map .float
  | _, _ => l.float?.map .float

end Quarry.Json.Numeral
