import Quarry.Invalid
import Quarry.Duration

namespace Quarry

open Text

inductive ConstraintKind where
  | notNull
  | foreignKey
  | unique
  | check
deriving DecidableEq

namespace ConstraintKind

def name : ConstraintKind → String
  | notNull => "not-null"
  | foreignKey => "foreign key"
  | unique => "unique"
  | check => "check"

/-- The kind that a five character state code of the server stands for. -/
def ofState? : String → Option ConstraintKind
  | "23502" => some notNull
  | "23503" => some foreignKey
  | "23505" => some unique
  | "23514" => some check
  | _ => none

end ConstraintKind

/-- What keeps a statement from being run, other than a constraint. -/
inductive Obstacle where
  | refused
  | unsendable
  | unencodable (param : Nat)
  | paramCount (expected got : Nat)
deriving DecidableEq

def Obstacle.message : Obstacle → String
  | refused => "db error"
  | unsendable => "error encoding message to server"
  | unencodable param => "error serializing parameter " ++ Decimal.write param
  | paramCount expected got =>
    "expected " ++ Decimal.write expected ++ " parameters but got " ++ Decimal.write got

inductive Failure where
  | invalid (why : Invalid)
  | connection (text : String)
  | pool (text : String)
  | constraint (kind : ConstraintKind) (name text : String)
  | execution (why : Obstacle)
  | timeout (label : String) (after : Duration)
  | other (text : String)
deriving DecidableEq

namespace Failure

def message : Failure → String
  | invalid why => "invalid query: " ++ why.message
  | connection text => "connection error: " ++ text
  | pool text => "pool error: " ++ text
  | constraint kind name text => kind.name ++ " constraint `" ++ name ++ "` violated: " ++ text
  | execution why => "statement failed: " ++ why.message
  | timeout label after => "transaction '" ++ label ++ "' timed out after " ++ after.text
  | other text => text

def isInvalid : Failure → Bool
  | invalid _ => true
  | _ => false

def isTimeout : Failure → Bool
  | timeout _ _ => true
  | _ => false

def constraintKind? : Failure → Option ConstraintKind
  | constraint kind _ _ => some kind
  | _ => none

/-- The failure for an error report of the server: a violated constraint that has no name is
called unknown. -/
def ofReport (state text : String) (constraintName : Option String) : Failure :=
  match ConstraintKind.ofState? state with
  | some kind => constraint kind (constraintName.getD "unknown") text
  | none => execution .refused

/-- The failure where violated constraints are not told apart. -/
def unclassified : Failure → Failure
  | constraint .. => execution .refused
  | f => f

end Failure

end Quarry
