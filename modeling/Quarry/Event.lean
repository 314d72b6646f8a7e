import Quarry.Failure
import Quarry.Transaction.Options

namespace Quarry

inductive Phase where
  | created
  | begun
  | committed
  | rolledBack
  | released
deriving DecidableEq

def Phase.title : Phase → String
  | created => "Created"
  | begun => "Begun"
  | committed => "Committed"
  | rolledBack => "RolledBack"
  | released => "Released"

inductive Event where
  | executing (dialect : Dialect) (params : Nat) (sql : String)
  | begun (options : TransactionOptions)
  | committed (label : String)
  | timedOut (label : String) (after : Duration)
  | rolledBack (label : String)
  | rollbackFailed (label : String) (why : Failure)
  | abandoned
  | released (phase : Phase)
deriving DecidableEq

inductive Level where
  | trace
  | debug
  | warn
deriving DecidableEq

def Level.title : Level → String
  | trace => "TRACE"
  | debug => "DEBUG"
  | warn => "WARN"

inductive Event.Field where
  | count (n : Nat)
  | text (s : String)

namespace Event

def level : Event → Level
  | executing .. | begun _ | committed _ | rolledBack _ => .debug
  | timedOut .. | rollbackFailed .. | abandoned => .warn
  | released _ => .trace

def target : Event → String
  | executing .. => "querykit.sql"
  | _ => "querykit.tx"

def message : Event → String
  | executing .. => "executing query"
  | begun _ => "transaction begun"
  | committed _ => "transaction committed"
  | timedOut .. => "transaction timed out"
  | rolledBack _ => "transaction rolled back"
  | rollbackFailed .. => "rollback failed; returning the original error"
  | abandoned => "transaction abandoned before it settled; releasing connection"
  | released _ => "connection released"

def settingText : Option String → String
  | some s => "Some(" ++ s ++ ")"
  | none => "None"

def fields : Event → List (String × Field)
  | executing dialect params sql =>
    [("dialect", .text dialect.name), ("param_count", .count params), ("sql", .text sql)]
  | begun o =>
    [("label", .text o.label),
      ("isolation_level", .text (settingText (o.isolation.map IsolationLevel.title))),
      ("timeout", .text (settingText (o.timeout.map Duration.text)))]
  | committed label => [("label", .text label)]
  | timedOut label after => [("label", .text label), ("timeout", .text after.text)]
  | rolledBack label => [("label", .text label)]
  | rollbackFailed label why => [("label", .text label), ("error", .text why.message)]
  | abandoned => []
  | released phase => [("from", .text phase.title)]

end Event

end Quarry
