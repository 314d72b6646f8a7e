import Quarry.Name
import Quarry.Dialect
import Quarry.Operator
import Quarry.Text.Join

namespace Quarry

open Text

/-- What a query is refused for before anything is sent. -/
inductive Invalid where
  /-- Refused by a caller, in words of its own. -/
  | given (text : String)
  | badName (why : Name.Fault)
  | unknownOperator (tag : String)
  | operandCount (op : Operator) (got : Nat)
  | pairExpected (op : Operator)
  | listExpected (op : Operator)
  | flagExpected (op : Operator)
  | signAndValueExpected
  | objectExpected
  | alternativesExpected
  | operatorObjectExpected
  | inField (field : String) (why : Invalid)
  | noOperators
  | noOperatorObjects
  | nullOperand (op : Operator)
  | nullBound (op : Operator)
  | signRequired
  | badSign (key sign : String)
  | fewAlternatives (count : Nat)
  | emptyAlternative (index : Nat)
  | unsupported (op : Operator) (key : String) (dialect : Dialect)
  | signMissing (key : String)
  | signClash (key sign : String) (dialect : Dialect)
  | badDirection (token : String)
  | notSortable (field : String)
  | badIsolation (token : String)
  | boundSource
  | foreignSubquery (name : String) (inner outer : Dialect)
deriving DecidableEq

namespace Invalid

def signChars : String := "+-*/<>=~!@#%^&|?"

def message : Invalid → String
  | given text => text
  | badName why => why.message
  | unknownOperator tag =>
    "unknown operator `" ++ tag ++ "`; expected one of: " ++
      join ", " (Operator.all.map Operator.tag)
  | operandCount op got =>
    "`" ++ op.tag ++ "` expects " ++ Decimal.write op.arity ++ " operand(s), got " ++
      Decimal.write got
  | pairExpected op => "`" ++ op.tag ++ "` expects a two-element array"
  | listExpected op => "`" ++ op.tag ++ "` expects an array"
  | flagExpected op => "`" ++ op.tag ++ "` expects a boolean"
  | signAndValueExpected =>
    "`$custom` expects \x7b\"sign\": ..., \"value\": ...\x7d or [sign, value]"
  | objectExpected => "search object must be a JSON object"
  | alternativesExpected => "OR alternatives must be a JSON array"
  | operatorObjectExpected => "array entries must be operator objects"
  | inField field why => "field `" ++ field ++ "`: " ++ why.message
  | noOperators => "empty operator object"
  | noOperatorObjects => "empty list of operator objects"
  | nullOperand op => "`" ++ op.tag ++ "` cannot take a null operand"
  | nullBound op => "`" ++ op.tag ++ "` bounds cannot be null"
  | signRequired => "`$custom` requires a sign"
  | badSign key sign =>
    "invalid `$custom` sign `" ++ sign ++ "` on `" ++ key ++ "`; allowed characters: " ++ signChars
  | fewAlternatives count => "OR requires at least 2 alternatives, got " ++ Decimal.write count
  | emptyAlternative index =>
    "OR alternative #" ++ Decimal.write index ++ " has no conditions"
  | unsupported op key dialect =>
    "operator `" ++ op.tag ++ "` on `" ++ key ++ "` is not supported by the " ++ dialect.name ++
      " dialect"
  | signMissing key => "`$custom` on `" ++ key ++ "` requires a sign"
  | signClash key sign dialect =>
    "`$custom` sign `" ++ sign ++ "` on `" ++ key ++ "` contains `?`, which the " ++
      dialect.name ++ " dialect uses as its placeholder"
  | badDirection token => "invalid ordering `" ++ token ++ "`; expected ASC or DESC"
  | notSortable field => "`" ++ field ++ "` is not a sortable field"
  | badIsolation token =>
    "invalid isolation level `" ++ token ++
      "`; expected read-uncommitted, read-committed, repeatable-read or serializable"
  | boundSource =>
    "cannot replace a parameterized FROM after WHERE/HAVING values were bound"
  | foreignSubquery name inner outer =>
    "subquery `" ++ name ++ "` was built for the " ++ inner.name ++
      " dialect, outer query uses " ++ outer.name

end Invalid

/-- Runs a check of a name as part of a query. -/
def naming (r : Except Name.Fault α) : Except Invalid α :=
  r.mapError .badName

namespace Operator

def ofTag (tag : String) : Except Invalid Operator :=
  match ofTag? tag with
  | some op => .ok op
  | none => .error (.unknownOperator tag)

end Operator

end Quarry
