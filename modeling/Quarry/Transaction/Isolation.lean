import Quarry.Json.Record
import Quarry.Text.Blank

namespace Quarry

open Text

inductive IsolationLevel where
  | readUncommitted
  | readCommitted
  | repeatableRead
  | serializable
deriving DecidableEq

namespace IsolationLevel

def all : List IsolationLevel := [readUncommitted, readCommitted, repeatableRead, serializable]

def sql : IsolationLevel → String
  | readUncommitted => "READ UNCOMMITTED"
  | readCommitted => "READ COMMITTED"
  | repeatableRead => "REPEATABLE READ"
  | serializable => "SERIALIZABLE"

def token : IsolationLevel → String
  | readUncommitted => "read-uncommitted"
  | readCommitted => "read-committed"
  | repeatableRead => "repeatable-read"
  | serializable => "serializable"

def title : IsolationLevel → String
  | readUncommitted => "ReadUncommitted"
  | readCommitted => "ReadCommitted"
  | repeatableRead => "RepeatableRead"
  | serializable => "Serializable"

/-- Underscores and spaces are as good as hyphens, and upper case as lower case. -/
def normalChar (c : Char) : Char :=
  if c = '_' ∨ c = ' ' then '-' else c.toLower

def ofToken (s : String) : Except Invalid IsolationLevel :=
  let normal := (trim s.toList).map normalChar
  match all.find? fun level => level.token.toList = normal with
  | some level => .ok level
  | none => .error (.badIsolation s)

def ofJson (j : Json) : Except Json.Rejection IsolationLevel := do
  let s ← Json.expect j.str?
  (ofToken s).mapError .invalid

theorem ofToken_token (level : IsolationLevel) : ofToken level.token = .ok level := by
  cases level <;> rfl

end IsolationLevel

end Quarry
