namespace Quarry.Number

/-- The quotient of `n` and `d`, rounded to the nearest integer, a half to the even one. -/
def roundDiv (n d : Nat) : Nat :=
  let q := n / d
  let r := n % d
  if d < 2 * r ∨ (2 * r = d ∧ q % 2 = 1) then q + 1 else q

/-- An interchange format: the bits of a stored fraction and the bias of the exponent. -/
structure Format where
  fraction : Nat
  bias : Nat

namespace Format

def double : Format := ⟨52, 1023⟩

def single : Format := ⟨23, 127⟩

/-- The exponent of the last place of a subnormal. -/
def lowest (f : Format) : Int :=
  1 - f.bias - f.fraction

/-- The first bit of a significand, which is not stored. -/
def leading (f : Format) : Nat :=
  1 <<< f.fraction

/-- The magnitude bits of infinity; above it are the NaNs. -/
def infinity (f : Format) : Nat :=
  (2 * f.bias + 1) <<< f.fraction

/-- The fraction bit that tells a quiet NaN. -/
def quiet (f : Format) : Nat :=
  f.leading / 2

/-- The value of a word's magnitude is `significand * 2 ^ exponent`. -/
def significand (f : Format) (magnitude : Nat) : Nat :=
  if magnitude < f.leading then magnitude else magnitude % f.leading + f.leading

def exponent (f : Format) (magnitude : Nat) : Int :=
  f.lowest + ((magnitude >>> f.fraction - 1 : Nat) : Int)

/-- The magnitude bits nearest to `n / d * 2 ^ q`; what is too large becomes infinity. -/
def nearest (f : Format) (n d : Nat) (q : Int) : Nat :=
  let num := n <<< q.toNat
  let den := d <<< (-q).toNat
  if num = 0 then 0 else
    let guess : Int := (num.log2 : Int) - den.log2
    let top := if den <<< guess.toNat ≤ num <<< (-guess).toNat then guess else guess - 1
    let place := max (top - f.fraction) f.lowest
    let m := roundDiv (num <<< (-place).toNat) (den <<< place.toNat)
    min ((place - f.lowest).toNat <<< f.fraction + m) f.infinity

end Format

/-- A double precision number, told from the others by its bits. -/
structure Double where
  bits : UInt64
deriving DecidableEq, Inhabited

/-- A single precision number, told from the others by its bits. -/
structure Single where
  bits : UInt32
deriving DecidableEq, Inhabited

namespace Double

def signBit : Nat := 1 <<< 63

def ofParts (negative : Bool) (magnitude : Nat) : Double :=
  ⟨UInt64.ofNat (magnitude + if negative then signBit else 0)⟩

def isNegative (x : Double) : Bool :=
  decide (signBit ≤ x.bits.toNat)

def magnitude (x : Double) : Nat :=
  x.bits.toNat % signBit

def isFinite (x : Double) : Bool :=
  decide (x.magnitude < Format.double.infinity)

def neg (x : Double) : Double :=
  ofParts (!x.isNegative) x.magnitude

def ofNat (n : Nat) : Double :=
  ofParts false (Format.double.nearest n 1 0)

def ofInt (n : Int) : Double :=
  ofParts (decide (n < 0)) (Format.double.nearest n.natAbs 1 0)

end Double

namespace Single

def signBit : Nat := 1 <<< 31

def ofParts (negative : Bool) (magnitude : Nat) : Single :=
  ⟨UInt32.ofNat (magnitude + if negative then signBit else 0)⟩

def isNegative (x : Single) : Bool :=
  decide (signBit ≤ x.bits.toNat)

def magnitude (x : Single) : Nat :=
  x.bits.toNat % signBit

def ofInt (n : Int) : Single :=
  ofParts (decide (n < 0)) (Format.single.nearest n.natAbs 1 0)

/-- The fraction bits that a double has and a single lacks. -/
def lost : Nat := Format.double.fraction - Format.single.fraction

/-- A NaN stays one: quiet, with the leading bits of its payload. -/
def widen (x : Single) : Double :=
  let m := x.magnitude
  let wide :=
    if m < Format.single.infinity then
      Format.double.nearest (Format.single.significand m) 1 (Format.single.exponent m)
    else if m = Format.single.infinity then Format.double.infinity
    else Format.double.infinity + Format.double.quiet + (m % Format.single.quiet) <<< lost
  Double.ofParts x.isNegative wide

end Single

/-- The nearest single; a NaN stays one: quiet, with the leading bits of its payload. -/
def Double.narrow (x : Double) : Single :=
  let m := x.magnitude
  let small :=
    if m < Format.double.infinity then
      Format.single.nearest (Format.double.significand m) 1 (Format.double.exponent m)
    else if m = Format.double.infinity then Format.single.infinity
    else Format.single.infinity + Format.single.quiet + (m % Format.double.quiet) >>> Single.lost
  Single.ofParts x.isNegative small

end Quarry.Number
