import Quarry.Transaction.Connection

namespace Quarry

namespace Server

/-- Statements that start with `start` fail. -/
structure Rule where
  start : String
  failure : Failure

def check (rules : List Rule) (sql : String) : Except Failure Unit :=
  match rules.find? fun r => r.start.toList.isPrefixOf sql.toList with
  | some r => .error r.failure
  | none => .ok ()

/-- A connection without a wire: all is immediate, and the rows are the bound values. -/
def immediate (rules : List Rule) : Connection Value where
  run _ sql := ⟨[(.simple sql, 0)], check rules sql⟩
  query _ q := ⟨[(.simple q.sql, 0)], (check rules q.sql).map fun _ => q.values⟩
  timer := .millis
  run_control _ _ := ⟨0, rfl⟩

/-- The encoded parameters; the first one that does not fit its type, from `index` on, is named. -/
def encodeAll : Nat → List (Value × Wire.SqlType) → Except Failure (List Wire.Cell)
  | _, [] => .ok []
  | index, (v, t) :: rest =>
    match v.encode t with
    | .error _ => .error (.execution (.unencodable index))
    | .ok cell => (encodeAll (index + 1) rest).map fun cells => cell :: cells

/-- The parameters of a prepared statement with the given parameter types. -/
def parameters (types : List Wire.SqlType) (values : List Value) :
    Except Failure (List Wire.Cell) :=
  if types.length = values.length then encodeAll 0 (values.zip types)
  else .error (.execution (.paramCount types.length values.length))

def roundTrip : Nat := 1

/-- On the wire NUL ends a text, so a text that contains one cannot be sent. -/
def isSendable (sql : String) : Bool :=
  !sql.toList.contains '\x00'

/-- An exchange that sends `sql`: nothing is sent, and no time passes, if that cannot be done. -/
def sending (sql : String) (x : Exchange α) : Exchange α :=
  if isSendable sql then x else ⟨[], .error (.execution .unsendable)⟩

theorem isSendable_control (k : Control) : isSendable k.sql := by
  cases k with
  | isolate level => cases level <;> decide
  | _ => decide

/-- A statement is parsed, and its parameters are bound if they fit. -/
def prepared (rules : List Rule) (types : List Wire.SqlType) (rows : List ρ) (q : Statement) :
    Exchange (List ρ) :=
  match check rules q.sql with
  | .error why => ⟨[(.parse q.sql, roundTrip)], .error why⟩
  | .ok () =>
    match parameters types q.values with
    | .error why => ⟨[(.parse q.sql, roundTrip)], .error why⟩
    | .ok cells => ⟨[(.parse q.sql, roundTrip), (.bind cells, roundTrip)], .ok rows⟩

/-- A connection over a wire to a server that knows the parameter types and the rows. -/
def remote (rules : List Rule) (types : List Wire.SqlType) (rows : List ρ) : Connection ρ where
  run _ sql := sending sql ⟨[(.simple sql, roundTrip)], check rules sql⟩
  query _ q := sending q.sql (prepared rules types rows q)
  timer := .millis
  run_control _ k := ⟨roundTrip, by rw [sending, if_pos (isSendable_control k)]⟩

/-- A session inside a transaction of the client's own, which is committed whatever comes of the
session. If the transaction itself fails, that is the failure, and it is not classified. -/
def wrapped (c : Connection ρ) (m : Session (Except Failure α)) : Session (Except Failure α) := do
  match ← c.perform "START TRANSACTION" with
  | .error why => return .error why.unclassified
  | .ok () => do
    let r ← m
    match ← c.control .commit with
    | .error why => return .error why.unclassified
    | .ok () => return r

end Server

end Quarry
