import Quarry.Search.Compiled

namespace Quarry

open Text

def tautology : String := "1=1"

namespace Fragment

def text (f : Fragment) (cursor : Nat) (d : Dialect) : Except Invalid (String × Nat) :=
  f.operator.text f.key f.sign cursor d

/-- The texts of fragments one after another, and the cursor after the last one. -/
def texts (d : Dialect) : Nat → List Fragment → Except Invalid (List String × Nat)
  | cursor, [] => .ok ([], cursor)
  | cursor, f :: fs => do
    let (t, next) ← f.text cursor d
    let (ts, last) ← texts d next fs
    return (t :: ts, last)

def conjunction (d : Dialect) (cursor : Nat) (fs : List Fragment) :
    Except Invalid (String × Nat) := do
  let (ts, last) ← texts d cursor fs
  return (join " AND " ts, last)

/-- The texts of alternatives, each in parentheses. -/
def alternatives (d : Dialect) : Nat → List (List Fragment) → Except Invalid (List String × Nat)
  | cursor, [] => .ok ([], cursor)
  | cursor, fs :: rest => do
    let (t, next) ← conjunction d cursor fs
    let (ts, last) ← alternatives d next rest
    return (("(" ++ t ++ ")") :: ts, last)

end Fragment

namespace Fragments

def text (g : Fragments) (d : Dialect) (cursor : Nat) : Except Invalid (String × Nat) := do
  if g.isEmpty then return (tautology, cursor)
  else
    let (main, next) ← Fragment.conjunction d cursor g.main
    let main := if main = "" then tautology else main
    if g.alternatives = [] then return (main, next)
    else
      let (ts, last) ← Fragment.alternatives d next g.alternatives
      return (main ++ " AND (" ++ join " OR " ts ++ ")", last)

end Fragments

end Quarry
