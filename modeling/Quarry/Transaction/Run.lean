import Quarry.Transaction.Connection

namespace Quarry

namespace Transaction

inductive Action where
  | run (sql : String)
  | wait (d : Duration)
  | raise (why : Failure)
  | query (s : Select)

/-- An action of a unit of work; the work goes on after the failure of one that may fail. -/
structure Step where
  action : Action
  mayFail : Bool

inductive Outcome (ρ : Type) where
  | done
  | waited
  | rows (rs : List ρ)
  | failed (why : Failure)

def perform (c : Connection ρ) : Action → Session (Except Failure (Outcome ρ))
  | .run sql => do
    let r ← c.perform sql
    return r.map fun _ => .done
  | .wait d => do
    Session.wait d.nanos
    return .ok .waited
  | .raise why => return .error why
  | .query s => do
    let r ← s.execute c
    return r.map .rows

/-- The outcome to go on with, or the failure that ends the work. -/
def Step.settle (step : Step) : Except Failure (Outcome ρ) → Except Failure (Outcome ρ)
  | .ok o => .ok o
  | .error why => if step.mayFail then .ok (.failed why) else .error why

def performAll (c : Connection ρ) : List Step → Session (Except Failure (List (Outcome ρ)))
  | [] => return .ok []
  | step :: rest => do
    match step.settle (← perform c step.action) with
    | .error why => return .error why
    | .ok o => do
      let r ← performAll c rest
      return r.map fun os => o :: os

inductive Settled (α : Type) where
  | completed (a : α)
  | failed (why : Failure)
  | timedOut (after : Duration)

def Settled.ofResult : Except Failure α → Settled α
  | .ok a => .completed a
  | .error why => .failed why

def work (c : Connection ρ) (timeout : Option Duration) (steps : List Step) :
    Session (Settled (List (Outcome ρ))) :=
  match timeout with
  | none => do
    let r ← performAll c steps
    return .ofResult r
  | some d => do
    match ← Session.within (c.timer.fires d) (performAll c steps) with
    | some r => return .ofResult r
    | none => return .timedOut d

def isolate (c : Connection ρ) : Option IsolationLevel → Session (Except Failure Unit)
  | none => return .ok ()
  | some level => c.control (.isolate level)

/-- A failed rollback is reported and changes nothing. -/
def rollback (c : Connection ρ) (label : String) : Session Unit := do
  match ← c.control .rollback with
  | .ok () => Session.report (.rolledBack label)
  | .error why => Session.report (.rollbackFailed label why)

def finish (c : Connection ρ) (label : String) : Settled α → Session (Except Failure α)
  | .completed a => do
    match ← c.control .commit with
    | .error why => return .error why
    | .ok () => do
      Session.enter .committed
      Session.report (.committed label)
      return .ok a
  | .failed why => do
    rollback c label
    Session.enter .rolledBack
    return .error why
  | .timedOut after => do
    Session.report (.timedOut label after)
    rollback c label
    Session.enter .rolledBack
    return .error (.timeout label after)

def transact (c : Connection ρ) (o : TransactionOptions) (steps : List Step) :
    Session (Except Failure (List (Outcome ρ))) := do
  match ← c.control .start with
  | .error why => return .error why
  | .ok () => do
    Session.enter .begun
    Session.report (.begun o)
    match ← isolate c o.isolation with
    | .error why => finish c o.label (.failed why)
    | .ok () => do
      let settled ← work c o.timeout steps
      finish c o.label settled

/-- How a connection is released by a transaction in the given phase. -/
def releasing (p : Phase) : Log :=
  [.released, .event (.released p), .entered .released]

/-- What comes of asking a pool for a connection, and how long that takes. -/
structure Acquisition where
  delay : Nat := 0
  outcome : Except Failure Unit := .ok ()

def run (acquisition : Acquisition) (c : Connection ρ) (o : TransactionOptions)
    (steps : List Step) : Session (Except Failure (List (Outcome ρ))) := do
  Session.wait acquisition.delay
  match acquisition.outcome with
  | .error why => return .error why
  | .ok () =>
    Session.note [.acquired, .entered .created]
    let result ← transact c o steps
    Session.note (releasing (← Session.phase))
    return result

/-- What is still done when a run is dropped that went as far as `log`. -/
def farewell (log : Log) : Log :=
  if .acquired ∈ log then
    (if log.phase = .begun then [.event .abandoned] else []) ++ releasing log.phase
  else []

/-- A course that is dropped at `limit`, unless it has ended by then. -/
def abandonAt (limit : Nat) (c : Course α) : Course (Option α) :=
  let kept := c.cut limit
  match kept.result with
  | some _ => kept
  | none => { kept with entries := kept.entries ++ (farewell kept.log).map fun e => (limit, e) }

/-- The course of a run that is dropped at the limit, if there is one; with no result if that
happened before the end. -/
def runUntil (acquisition : Acquisition) (c : Connection ρ) (o : TransactionOptions)
    (steps : List Step) (limit : Option Nat) :
    Course (Option (Except Failure (List (Outcome ρ)))) :=
  let whole := run acquisition c o steps []
  match limit with
  | none => { whole with result := some whole.result }
  | some t => abandonAt t whole

/-- The course of a run that is abandoned by a timer, if at all. -/
def course (acquisition : Acquisition) (c : Connection ρ) (o : TransactionOptions)
    (steps : List Step) (abandoned : Option Duration) :
    Course (Option (Except Failure (List (Outcome ρ)))) :=
  runUntil acquisition c o steps (abandoned.map c.timer.fires)

end Transaction

end Quarry
