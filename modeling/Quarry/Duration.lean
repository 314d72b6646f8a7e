import Quarry.Text.Decimal

/-!
Lengths of time, in nanoseconds, and their text: the largest unit that gives a whole part, with a
fraction that has no trailing zeros.
-/
namespace Quarry

open Text

structure Duration where
  nanos : Nat
deriving DecidableEq

namespace Duration

def ofMillis (n : Nat) : Duration :=
  ⟨n * 1000000⟩

/-- The units, largest first: the exponent of ten that makes one of nanoseconds, and the symbol. -/
def units : List (Nat × String) :=
  [(9, "s"), (6, "ms"), (3, "µs"), (0, "ns")]

/-- The last `width` digits of `n` without the zeros at the end. -/
def fractionDigits (width n : Nat) : List Char :=
  let ds := Decimal.digits (Nat.pow 10 width + n % Nat.pow 10 width)
  (ds.tail.reverse.dropWhile (· = '0')).reverse

def textIn (places : Nat) (symbol : String) (n : Nat) : String :=
  let fraction := fractionDigits places n
  Decimal.write (n / Nat.pow 10 places) ++
    (if fraction = [] then "" else "." ++ String.ofList fraction) ++ symbol

def text (d : Duration) : String :=
  match units.find? fun u => Nat.pow 10 u.1 ≤ d.nanos with
  | some (places, symbol) => textIn places symbol d.nanos
  | none => textIn 0 "ns" d.nanos

end Duration

end Quarry
