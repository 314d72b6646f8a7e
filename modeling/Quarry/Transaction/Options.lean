import Quarry.Duration
import Quarry.Transaction.Isolation

namespace Quarry

structure TransactionOptions where
  isolation : Option IsolationLevel := none
  timeout : Option Duration := none
  /-- The name in events and in the failure of a timeout. -/
  label : String := "transaction"
deriving DecidableEq

namespace TransactionOptions

def millis? : Json → Option Duration
  | .int n => if 0 ≤ n ∧ n.toNat < UInt64.size then some (.ofMillis n.toNat) else none
  | _ => none

def set (o : TransactionOptions) (name : String) (j : Json) :
    Except Json.Rejection TransactionOptions :=
  match name with
  | "isolation_level" =>
    (Json.optional IsolationLevel.ofJson j).map fun level => { o with isolation := level }
  | "timeout_ms" =>
    (Json.optional (fun j => Json.expect (millis? j)) j).map fun t => { o with timeout := t }
  | "label" => (Json.expect j.str?).map fun s => { o with label := s }
  | _ => .ok o

def ofJson (j : Json) : Except Json.Rejection TransactionOptions :=
  j.record ["isolation_level", "timeout_ms", "label"] [] set {}

end TransactionOptions

end Quarry
