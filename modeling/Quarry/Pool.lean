import Quarry.Pool.ConnectionString
import Quarry.Transaction.Run

namespace Quarry

structure Pool where
  capacity : Nat
  /-- Open connections, borrowed ones included. -/
  size : Nat := 0
  idle : Nat := 0
  closed : Bool := false
deriving DecidableEq

namespace Pool

def defaultCapacity : Nat := 16

/-- An empty pool for the server that a connection string names. -/
def create (url : String) (capacity : Nat) : Except Failure Pool :=
  if ConnectionString.isValid url then .ok { capacity }
  else .error (.connection "invalid connection string")

def close (p : Pool) : Pool :=
  { p with closed := true, size := p.size - p.idle, idle := 0 }

def opening : Nat := 1

/-- What a request for a connection gives: an idle connection is at hand, a new one is opened. -/
def acquisition (p : Pool) : Transaction.Acquisition :=
  if p.closed then { outcome := .error (.pool "Pool has been closed") }
  else if 0 < p.idle then {}
  else { delay := opening }

def afterLoan (p : Pool) : Pool :=
  if p.closed ∨ 0 < p.idle then p else { p with size := p.size + 1, idle := p.idle + 1 }

def transact (p : Pool) (c : Connection ρ) (o : TransactionOptions)
    (steps : List Transaction.Step) (abandoned : Option Duration) :
    Course (Option (Except Failure (List (Transaction.Outcome ρ)))) × Pool :=
  let course := Transaction.course p.acquisition c o steps abandoned
  (course, if .acquired ∈ course.log then p.afterLoan else p)

end Pool

end Quarry
