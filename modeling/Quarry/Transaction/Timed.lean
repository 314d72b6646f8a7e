import Quarry.Event
import Quarry.Wire.Encode

namespace Quarry

inductive Message where
  /-- A text of statements without parameters. -/
  | simple (sql : String)
  | parse (sql : String)
  | bind (cells : List Wire.Cell)
deriving DecidableEq

inductive Entry where
  | acquired
  | released
  | entered (p : Phase)
  | sent (m : Message)
  | event (e : Event)
deriving DecidableEq

namespace Entry

def message? : Entry → Option Message
  | sent m => some m
  | _ => none

def event? : Entry → Option Event
  | event e => some e
  | _ => none

def phase? : Entry → Option Phase
  | entered p => some p
  | _ => none

end Entry

/-- What happened, in the order of time. -/
abbrev Log := List Entry

namespace Log

def messages (log : Log) : List Message :=
  log.filterMap Entry.message?

def events (log : Log) : List Event :=
  log.filterMap Entry.event?

def phases (log : Log) : List Phase :=
  log.filterMap Entry.phase?

def phase (log : Log) : Phase :=
  log.phases.getLastD .created

end Log

/-- What is seen of an activity, each thing with the time since its start in nanoseconds, and how
long the activity takes. -/
structure Course (α : Type) where
  entries : List (Nat × Entry)
  length : Nat
  result : α

namespace Course

def log (c : Course α) : Log :=
  c.entries.map Prod.snd

/-- One course after another; the result is that of the second one. -/
def append (a : Course α) (b : Course β) : Course β where
  entries := a.entries ++ b.entries.map fun e => (a.length + e.1, e.2)
  length := a.length + b.length
  result := b.result

theorem log_append (a : Course α) (b : Course β) : (a.append b).log = a.log ++ b.log := by
  simp [append, log, Function.comp_def]

theorem append_assoc (a : Course α) (b : Course β) (c : Course γ) :
    (a.append b).append c = a.append (b.append c) := by
  simp [append, Nat.add_assoc, Function.comp_def]

/-- A course that is dropped at `limit` unless it has ended by then. What falls on the limit itself
still happens. -/
def cut (limit : Nat) (c : Course α) : Course (Option α) :=
  if c.length ≤ limit then { c with result := some c.result }
  else ⟨c.entries.takeWhile fun e => e.1 ≤ limit, limit, none⟩

end Course

/-- An activity on a connection: given what happened so far, what happens next. -/
def Session (α : Type) : Type :=
  Log → Course α

namespace Session

def pure (a : α) : Session α :=
  fun _ => ⟨[], 0, a⟩

def bind (m : Session α) (f : α → Session β) : Session β := fun past =>
  let a := m past
  a.append (f a.result (past ++ a.log))

instance : Monad Session where
  pure := Session.pure
  bind := Session.bind

theorem bind_assoc (m : Session α) (f : α → Session β) (g : β → Session γ) :
    (m.bind f).bind g = m.bind fun a => (f a).bind g := by
  funext past
  simp only [bind, Course.append_assoc, Course.log_append, List.append_assoc]
  rfl

def note (log : Log) : Session Unit :=
  fun _ => ⟨log.map fun e => (0, e), 0, ()⟩

def report (e : Event) : Session Unit :=
  note [.event e]

def enter (p : Phase) : Session Unit :=
  note [.entered p]

def phase : Session Phase :=
  fun past => ⟨[], 0, past.phase⟩

def wait (nanos : Nat) : Session Unit :=
  fun _ => ⟨[], nanos, ()⟩

/-- The session, given up at a time limit. -/
def within (limit : Nat) (m : Session α) : Session (Option α) :=
  fun past => (m past).cut limit

end Session

/-- When a timer fires that is set for a duration: never before that is over, and not sooner for
being set for longer. -/
structure Timer where
  fires : Duration → Nat
  not_early : ∀ d, d.nanos ≤ fires d
  mono : ∀ d d', d.nanos ≤ d'.nanos → fires d ≤ fires d'

/-- The duration up to the next whole millisecond. -/
def Duration.tick (d : Duration) : Nat :=
  (d.nanos + 999999) / 1000000 * 1000000

theorem Duration.nanos_le_tick (d : Duration) : d.nanos ≤ d.tick := by
  rw [tick]
  omega

theorem Duration.tick_mono (d d' : Duration) (h : d.nanos ≤ d'.nanos) : d.tick ≤ d'.tick := by
  have hround : d.nanos + 999999 ≤ d'.nanos + 999999 := by omega
  exact Nat.mul_le_mul_right _ (Nat.div_le_div_right hround)

/-- Fires on whole milliseconds. -/
def Timer.millis : Timer :=
  ⟨Duration.tick, Duration.nanos_le_tick, Duration.tick_mono⟩

end Quarry
