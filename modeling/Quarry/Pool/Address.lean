import Quarry.Text.Decimal

/-!
Numeric network addresses: four decimal octets, or eight groups of hexadecimal digits of which a run
of zeros may be left out and the last two may be written as octets.
-/
namespace Quarry.Address

open Text

def isHex (c : Char) : Bool :=
  c.isDigit || (decide ('a' ≤ c.toLower) && decide (c.toLower ≤ 'f'))

/-- What follows an octet: one to three digits, no needless zero in front, at most 255. -/
def octet? (cs : List Char) : Option (List Char) :=
  let ds := cs.takeWhile Char.isDigit
  if ds ≠ [] ∧ ds.length ≤ 3 ∧ (ds.head? = some '0' → ds.length = 1) ∧ Decimal.value ds ≤ 255 then
    some (cs.dropWhile Char.isDigit)
  else none

def char? (c : Char) : List Char → Option (List Char)
  | d :: cs => if d = c then some cs else none
  | [] => none

def octets? (cs : List Char) : Option (List Char) := do
  let cs ← octet? cs
  let cs ← char? '.' cs
  let cs ← octet? cs
  let cs ← char? '.' cs
  let cs ← octet? cs
  let cs ← char? '.' cs
  octet? cs

def group? (cs : List Char) : Option (List Char) :=
  let ds := cs.takeWhile isHex
  if ds ≠ [] ∧ ds.length ≤ 4 then some (cs.dropWhile isHex) else none

/-- Groups that could be read, with `room` for so many more of them: their number, whether octets
end them, and what follows. -/
def groups : Nat → Nat → List Char → Nat × Bool × List Char
  | 0, done, cs => (done, false, cs)
  | room + 1, done, cs =>
    match if done = 0 then some cs else char? ':' cs with
    | none => (done, false, cs)
    | some inner =>
      match if 0 < room then octets? inner else none with
      | some rest => (done + 2, true, rest)
      | none =>
        match group? inner with
        | some rest => groups room (done + 1) rest
        | none => (done, false, cs)

def isLong (cs : List Char) : Bool :=
  match groups 8 0 cs with
  | (8, _, rest) => rest.isEmpty
  | (_, true, _) => false
  | (n, false, ':' :: ':' :: rest) => (groups (7 - n) 0 rest).2.2.isEmpty
  | _ => false

def isAddress (s : String) : Bool :=
  octets? s.toList = some [] || isLong s.toList

end Quarry.Address
