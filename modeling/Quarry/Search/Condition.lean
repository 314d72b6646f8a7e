import Quarry.Invalid
import Quarry.Value

namespace Quarry

inductive Operands where
  | none
  | one (v : Value)
  | two (v w : Value)

namespace Operands

def toList : Operands → List Value
  | none => []
  | one v => [v]
  | two v w => [v, w]

def count : Operands → Nat
  | none => 0
  | one _ => 1
  | two _ _ => 2

theorem length_toList (o : Operands) : o.toList.length = o.count := by
  cases o <;> rfl

end Operands

structure Condition where
  operator : Operator
  sign : Option String
  operands : Operands
  count_operands : operands.count = operator.arity

namespace Condition

def compare (op : Operator) (v : Value) (h : op.arity = 1) : Condition :=
  ⟨op, none, .one v, h.symm⟩

/-- An operator outside the table, by its sign. -/
def custom (sign : String) (v : Value) : Condition :=
  ⟨.custom, some sign, .one v, rfl⟩

def between (low high : Value) : Condition :=
  ⟨.between, none, .two low high, rfl⟩

def notBetween (low high : Value) : Condition :=
  ⟨.notBetween, none, .two low high, rfl⟩

/-- The list is bound as one array. -/
def inList (vs : List Value) : Condition :=
  compare .inList (.array vs) rfl

def notInList (vs : List Value) : Condition :=
  compare .notInList (.array vs) rfl

def isNull : Condition :=
  ⟨.isNull, none, .none, rfl⟩

def isNotNull : Condition :=
  ⟨.isNotNull, none, .none, rfl⟩

/-- The condition with the given operands, which must be as many as the operator binds. -/
def ofOperands (op : Operator) : List Value → Except Invalid Condition
  | [] =>
    if h : op.arity = 0 then .ok ⟨op, none, .none, h.symm⟩ else .error (.operandCount op 0)
  | [v] =>
    if h : op.arity = 1 then .ok ⟨op, none, .one v, h.symm⟩ else .error (.operandCount op 1)
  | [v, w] =>
    if h : op.arity = 2 then .ok ⟨op, none, .two v w, h.symm⟩ else .error (.operandCount op 2)
  | vs => .error (.operandCount op vs.length)

end Condition

end Quarry
