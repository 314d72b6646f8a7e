import Quarry.Select.Build
import Quarry.Transaction.Timed

namespace Quarry

/-- Messages sent one after another, each with the time until its reply, and what comes of it. -/
structure Exchange (α : Type) where
  rounds : List (Message × Nat)
  outcome : Except Failure α

namespace Exchange

def course : List (Message × Nat) → α → Course α
  | [], a => ⟨[], 0, a⟩
  | (m, delay) :: rest, a => Course.append ⟨[(0, .sent m)], delay, ()⟩ (course rest a)

end Exchange

inductive Control where
  | start
  | isolate (level : IsolationLevel)
  | commit
  | rollback
deriving DecidableEq

def Control.sql : Control → String
  | start => "BEGIN"
  | isolate level => "SET TRANSACTION ISOLATION LEVEL " ++ level.sql
  | commit => "COMMIT"
  | rollback => "ROLLBACK"

/-- A connection that gives rows of type `ρ`. Its replies can depend on what was sent before. -/
structure Connection (ρ : Type) where
  /-- Runs a text of statements without parameters. -/
  run : List Message → String → Exchange Unit
  query : List Message → Statement → Exchange (List ρ)
  /-- Tells the client when a deadline has passed. -/
  timer : Timer
  /-- A statement that controls a transaction is sent as it is, whatever comes of it. -/
  run_control : ∀ past (k : Control), ∃ delay, (run past k.sql).rounds = [(.simple k.sql, delay)]

def exchange (x : List Message → Exchange α) : Session (Except Failure α) := fun past =>
  let reply := x past.messages
  Exchange.course reply.rounds reply.outcome

def Connection.perform (c : Connection ρ) (sql : String) : Session (Except Failure Unit) :=
  exchange fun past => c.run past sql

/-- Finishes the statement and runs it. One that is refused is neither reported nor sent. -/
def Select.execute (s : Select) (c : Connection ρ) : Session (Except Failure (List ρ)) :=
  match s.build with
  | .error why => pure (.error (.invalid why))
  | .ok q => do
    Session.report (.executing s.dialect q.values.length q.sql)
    exchange fun past => c.query past q

def Connection.control (c : Connection ρ) (k : Control) : Session (Except Failure Unit) :=
  c.perform k.sql

end Quarry
