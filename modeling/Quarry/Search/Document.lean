import Quarry.Search.Spec

/-!
Searches as JSON documents: an object from field names to a plain value, an object of operators, or
an array of such objects. The first place that does not fit, in document order, is the error.
-/
namespace Quarry

namespace Condition

/-- The sign and the value of a custom operator, as an object or as a pair. -/
def signAndValue? : Json → Option (String × Json)
  | .obj fields => do
    let sign ← (Json.obj fields).field? "sign"
    let value ← (Json.obj fields).field? "value"
    some (← sign.str?, value)
  | .arr [sign, value] => sign.str?.map fun s => (s, value)
  | _ => none

/-- Reads the operand of an operator. A null check that is denied is the opposite check. -/
def ofOperand (op : Operator) (operand : Json) : Except Invalid Condition :=
  match op with
  | .between | .notBetween =>
    match operand with
    | .arr [low, high] => ofOperands op [Value.ofJson low, Value.ofJson high]
    | _ => .error (.pairExpected op)
  | .inList | .notInList =>
    match operand with
    | .arr _ => ofOperands op [Value.ofJson operand]
    | _ => .error (.listExpected op)
  | .custom =>
    match signAndValue? operand with
    | some (sign, value) => .ok (custom sign (Value.ofJson value))
    | none => .error .signAndValueExpected
  | .isNull =>
    match operand with
    | .bool b => .ok (if b then isNull else isNotNull)
    | _ => .error (.flagExpected op)
  | .isNotNull =>
    match operand with
    | .bool b => .ok (if b then isNotNull else isNull)
    | _ => .error (.flagExpected op)
  | _ => ofOperands op [Value.ofJson operand]

def ofJson (tag : String) (operand : Json) : Except Invalid Condition := do
  ofOperand (← Operator.ofTag tag) operand

end Condition

namespace Filter

/-- Reads the fields of an operator object that filters `field`. -/
def conditionsOfJson (field : String) (ops : List (String × Json)) :
    Except Invalid (List Condition) :=
  ops.mapM fun (tag, operand) => (Condition.ofJson tag operand).mapError (.inField field)

def memberOfJson (field : String) : Json → Except Invalid (List Condition)
  | .obj ops => conditionsOfJson field ops
  | _ => .error (.inField field .operatorObjectExpected)

def ofJson (field : String) : Json → Except Invalid Filter
  | .obj ops => (conditionsOfJson field ops).map object
  | .arr items => (items.mapM (memberOfJson field)).map objects
  | scalar => .ok (value (Value.ofJson scalar))

end Filter

namespace Search

def addFields (s : Search) : List (String × Json) → Except Invalid Search
  | [] => .ok s
  | (field, raw) :: rest => do
    let f ← Filter.ofJson field raw
    (s.insert field f).addFields rest

def ofJson : Json → Except Invalid Search
  | .obj fields => empty.addFields fields
  | _ => .error .objectExpected

def listOfJson : Json → Except Invalid (List Search)
  | .arr items => items.mapM ofJson
  | _ => .error .alternativesExpected

end Search

end Quarry
