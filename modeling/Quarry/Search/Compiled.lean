import Quarry.Search.Spec
import Quarry.Operator.Text

namespace Quarry

structure Fragment where
  key : String
  operator : Operator
  sign : Option String
deriving DecidableEq

def Fragment.paramCount : List Fragment → Nat
  | [] => 0
  | f :: fs => f.operator.arity + paramCount fs

structure Term where
  fragment : Fragment
  values : List Value

/-- The fragments of a group: the main ones, and those of each alternative. -/
structure Fragments where
  main : List Fragment
  alternatives : List (List Fragment)
deriving DecidableEq

namespace Fragments

def isEmpty (g : Fragments) : Bool :=
  g.main.isEmpty && g.alternatives.isEmpty

def all (g : Fragments) : List Fragment :=
  g.main ++ g.alternatives.flatten

def placeholderCount (g : Fragments) : Nat :=
  Fragment.paramCount g.all

end Fragments

/-- A compiled group: main values first, then those of the alternatives in their order. -/
structure Compiled extends Fragments where
  values : List Value

def Compiled.ofTerms (main : List Term) (alternatives : List (List Term)) : Compiled where
  main := main.map Term.fragment
  alternatives := alternatives.map (·.map Term.fragment)
  values := (main ++ alternatives.flatten).flatMap Term.values

namespace Condition

/-- A null operand turns equality into a null check, and no other operator takes one. -/
def compile (key : String) (c : Condition) : Except Invalid Term :=
  match c.operands with
  | .none => .ok ⟨⟨key, c.operator, none⟩, []⟩
  | .one .null =>
    match c.operator with
    | .eq => .ok ⟨⟨key, .isNull, none⟩, []⟩
    | .ne => .ok ⟨⟨key, .isNotNull, none⟩, []⟩
    | op => .error (.inField key (.nullOperand op))
  | .one v =>
    match c.operator, c.sign with
    | .custom, none => .error (.inField key .signRequired)
    | .custom, some sign => do
      Operator.checkSign key sign
      .ok ⟨⟨key, .custom, some sign⟩, [v]⟩
    | op, _ => .ok ⟨⟨key, op, none⟩, [v]⟩
  | .two v w =>
    if v.isNull ∨ w.isNull then .error (.inField key (.nullBound c.operator))
    else .ok ⟨⟨key, c.operator, none⟩, [v, w]⟩

end Condition

namespace Filter

def compileObject (key : String) (cs : List Condition) : Except Invalid (List Term) :=
  if cs = [] then .error (.inField key .noOperators) else cs.mapM (·.compile key)

def compile (key : String) : Filter → Except Invalid (List Term)
  | value .null => .ok [⟨⟨key, .isNull, none⟩, []⟩]
  | value v => .ok [⟨⟨key, .eq, none⟩, [v]⟩]
  | object cs => compileObject key cs
  | objects css => do
    if css = [] then .error (.inField key .noOperatorObjects)
    else return (← css.mapM (compileObject key)).flatten

end Filter

namespace Search

def compileEntry (e : String × Filter) : Except Invalid (List Term) := do
  naming (Name.checkField e.1)
  e.2.compile e.1

def compile (s : Search) : Except Invalid (List Term) := do
  return (← s.entries.mapM compileEntry).flatten

end Search

namespace Group

/-- Compiles the alternatives, the first of which has number `index`. -/
def compileAlternatives : Nat → List Search → Except Invalid (List (List Term))
  | _, [] => .ok []
  | index, s :: rest => do
    let terms ← s.compile
    if terms = [] then .error (.emptyAlternative index)
    else return terms :: (← compileAlternatives (index + 1) rest)

/-- Alternatives, if there are any, must be two or more, each with a condition. -/
def compile (g : Group) : Except Invalid Compiled := do
  let main ← g.search.compile
  match g.alternatives with
  | none => return .ofTerms main []
  | some list =>
    if list.length < 2 then .error (.fewAlternatives list.length)
    else return .ofTerms main (← compileAlternatives 0 list)

end Group

end Quarry
