namespace Quarry.Wire

inductive Scalar where
  | bool
  | bytea
  | int2
  | int4
  | int8
  | float4
  | float8
  | text
  | varchar
  | bpchar
  | name
  | unknown
  | char
  | oid
  | numeric
  | uuid
  | timestamp
  | timestamptz
  | date
  | json
  | jsonb
deriving DecidableEq

namespace Scalar

def all : List Scalar :=
  [bool, bytea, int2, int4, int8, float4, float8, text, varchar, bpchar, name, unknown, char, oid,
    numeric, uuid, timestamp, timestamptz, date, json, jsonb]

def title : Scalar → String
  | bool => "bool"
  | bytea => "bytea"
  | int2 => "int2"
  | int4 => "int4"
  | int8 => "int8"
  | float4 => "float4"
  | float8 => "float8"
  | text => "text"
  | varchar => "varchar"
  | bpchar => "bpchar"
  | name => "name"
  | unknown => "unknown"
  | char => "char"
  | oid => "oid"
  | numeric => "numeric"
  | uuid => "uuid"
  | timestamp => "timestamp"
  | timestamptz => "timestamptz"
  | date => "date"
  | json => "json"
  | jsonb => "jsonb"

def oidNumber : Scalar → Nat
  | bool => 16
  | bytea => 17
  | char => 18
  | name => 19
  | int8 => 20
  | int2 => 21
  | int4 => 23
  | text => 25
  | oid => 26
  | json => 114
  | float4 => 700
  | float8 => 701
  | unknown => 705
  | bpchar => 1042
  | varchar => 1043
  | date => 1082
  | timestamp => 1114
  | timestamptz => 1184
  | numeric => 1700
  | uuid => 2950
  | jsonb => 3802

def isTextual : Scalar → Bool
  | text | varchar | bpchar | name | unknown => true
  | _ => false

end Scalar

inductive SqlType where
  | scalar (s : Scalar)
  | array (member : Scalar)
  /-- An array of `int2` that counts its members from zero. -/
  | int2vector
deriving DecidableEq

namespace SqlType

def title : SqlType → String
  | scalar s => s.title
  | array s => s.title ++ "[]"
  | int2vector => "int2vector"

def all : List SqlType :=
  Scalar.all.map scalar ++ Scalar.all.map array ++ [int2vector]

def ofTitle? (title : String) : Option SqlType :=
  all.find? fun t => t.title = title

/-- The member type of an array type, and the index of the first member. -/
def member? : SqlType → Option (Scalar × Nat)
  | scalar _ => none
  | array s => some (s, 1)
  | int2vector => some (.int2, 0)

end SqlType

end Quarry.Wire
