import Quarry.Number.Binary

/-!
The shortest decimal that reads back as a given double. Of the grids `10 ^ k`, the coarsest one
with a point among the reals that round to the number gives the digits; of two points the nearer
one is taken, and the even one if both are as near.
-/
namespace Quarry.Number

/-- The number `digits * 10 ^ exponent`. -/
structure Scientific where
  digits : Nat
  exponent : Int
deriving DecidableEq

/-- The reals that round to `value / den`: those between `low / den` and `high / den`, ends
included if `closed`. -/
structure Rounding where
  low : Nat
  value : Nat
  high : Nat
  den : Nat
  closed : Bool

/-- The gap below the least significand of a binade is half the gap above it. -/
def Double.rounding (x : Double) : Rounding :=
  let m := Format.double.significand x.magnitude
  let q := Format.double.exponent x.magnitude - 2
  let below := if m = Format.double.leading ∧ Format.double.lowest < q + 2 then 1 else 2
  let unit := 1 <<< q.toNat
  { low := (4 * m - below) * unit, value := 4 * m * unit, high := (4 * m + 2) * unit,
    den := 1 <<< (-q).toNat, closed := m % 2 = 0 }

namespace Rounding

/-- Does `d * 10 ^ k` round to the number? -/
def contains (r : Rounding) (k : Int) (d : Nat) : Bool :=
  let point := d * r.den * Nat.pow 10 k.toNat
  let low := r.low * Nat.pow 10 (-k).toNat
  let high := r.high * Nat.pow 10 (-k).toNat
  decide (0 < d) &&
    (decide (low < point ∧ point < high) || (r.closed && decide (low = point ∨ point = high)))

/-- The best point of the grid `10 ^ k`, if one of the two next to the value serves. -/
def point? (r : Rounding) (k : Int) : Option Nat :=
  let num := r.value * Nat.pow 10 (-k).toNat
  let den := r.den * Nat.pow 10 k.toNat
  let d := num / den
  match r.contains k d, r.contains k (d + 1) with
  | true, true => some (roundDiv num den)
  | true, false => some d
  | false, true => some (d + 1)
  | false, false => none

/-- Tries the grids from `10 ^ k` downwards. -/
def search (r : Rounding) : Nat → Int → Option Scientific
  | 0, _ => none
  | fuel + 1, k =>
    match r.point? k with
    | some d => some ⟨d, k⟩
    | none => r.search fuel (k - 1)

end Rounding

/-- Seventeen digits always serve; the first grid tried is one or two places above the number. -/
def Double.shortest (x : Double) : Scientific :=
  let r := x.rounding
  let top := ((r.value.log2 : Int) - r.den.log2) * 30103 / 100000 + 2
  (r.search 21 top).getD ⟨0, 0⟩

end Quarry.Number
