import Quarry.Proofs.Transaction.Tells

namespace Quarry

def Control.message (k : Control) : Message :=
  .simple k.sql

/-- What comes of a statement that controls the transaction. -/
def Connection.reply (c : Connection ρ) (k : Control) (past : Log) : Except Failure Unit :=
  (c.run past.messages k.sql).outcome

def Entry.isTraffic : Entry → Bool
  | acquired => true
  | released => true
  | sent _ => true
  | _ => false

namespace Log

/-- What is seen on the connection. -/
def traffic (log : Log) : Log :=
  log.filter Entry.isTraffic

variable {log rest : Log}

theorem messages_append : messages (log ++ rest) = log.messages ++ rest.messages :=
  List.filterMap_append

theorem phases_append : phases (log ++ rest) = log.phases ++ rest.phases :=
  List.filterMap_append

theorem traffic_append : traffic (log ++ rest) = log.traffic ++ rest.traffic :=
  List.filter_append _ _

theorem messages_traffic : log.traffic.messages = log.messages := by
  induction log with
  | nil => rfl
  | cons e rest ih =>
    cases e with
    | sent m => exact congrArg (fun ms => m :: ms) ih
    | acquired => exact ih
    | released => exact ih
    | entered p => exact ih
    | event e => exact ih

end Log

/-- The time until the reply to such a statement. -/
def Connection.delay (c : Connection ρ) (k : Control) (past : Log) : Nat :=
  (c.control k past).length

theorem control_course (c : Connection ρ) (k : Control) (past : Log) :
    c.control k past = ⟨[(0, .sent k.message)], c.delay k past, c.reply k past⟩ := by
  obtain ⟨delay, hrounds⟩ := c.run_control past.messages k
  have hcourse : c.control k past = ⟨[(0, .sent k.message)], delay, c.reply k past⟩ := by
    change Exchange.course (c.run past.messages k.sql).rounds _ = _
    rw [hrounds]
    rfl
  rw [Connection.delay, hcourse]

theorem control_tells (c : Connection ρ) (k : Control) (past : Log) :
    (c.control k).Tells past fun r log =>
      (∀ a ∈ r, a = c.reply k past) ∧ log = [.sent k.message] := by
  have hcourse : c.control k past =
      ⟨[.sent k.message].map fun e => (0, e), c.delay k past, c.reply k past⟩ :=
    control_course c k past
  apply Session.Tells.atOnce hcourse
  · exact ⟨fun a ha => (Option.some.inj ha).symm, rfl⟩
  · exact fun _ => ⟨fun a ha => absurd ha (Option.not_mem_none a), rfl⟩

namespace Transaction

variable {ρ α : Type} {c : Connection ρ} {o : TransactionOptions} {steps : List Step} {past : Log}

/-- What a unit of work does by itself. -/
inductive Working : Entry → Prop where
  | sent (m : Message) : Working (.sent m)
  | executing (d : Dialect) (params : Nat) (sql : String) :
      Working (.event (.executing d params sql))

def Works (m : Session α) : Prop :=
  ∀ past, m.Tells past fun _ log => ∀ e ∈ log, Working e

theorem Works.pure (a : α) : Works (Pure.pure a : Session α) := by
  intro past
  apply Session.Tells.pure
  intro e he
  cases he

theorem Works.bind {m : Session α} {f : α → Session β} (hm : Works m) (hf : ∀ a, Works (f a)) :
    Works (m >>= f) := by
  intro past
  apply (hm past).bind
  · exact fun _ hlog => hlog
  · intro a log hlog
    apply (hf a _).mono
    intro r rest hrest
    exact List.forall_mem_append.2 ⟨hlog, hrest⟩

theorem Works.wait (nanos : Nat) : Works (Session.wait nanos) := by
  intro past
  apply Session.Tells.wait
  · exact fun e he => absurd he List.not_mem_nil
  · exact fun e he => absurd he List.not_mem_nil

theorem Works.executing (d : Dialect) (params : Nat) (sql : String) :
    Works (Session.report (.executing d params sql)) := by
  intro past
  apply Session.Tells.note
  intro e he
  rw [List.mem_singleton.1 he]
  exact .executing d params sql

theorem works_course (rounds : List (Message × Nat)) (a : α) :
    Works fun _ => Exchange.course rounds a := by
  induction rounds with
  | nil => exact Works.pure a
  | cons round rest ih =>
    have hround : Works fun _ => (⟨[(0, .sent round.1)], round.2, ()⟩ : Course Unit) := by
      intro past
      have hlog : ∀ e ∈ [Entry.sent round.1], Working e := by
        intro e he
        rw [List.mem_singleton.1 he]
        exact .sent round.1
      exact .atOnce rfl hlog fun _ => hlog
    exact hround.bind fun _ => ih

theorem works_exchange (x : List Message → Exchange α) : Works (exchange x) := by
  intro past
  have hcourse := works_course (x past.messages).rounds (x past.messages).outcome past
  exact ⟨hcourse.timely, hcourse.ended, hcourse.dropped⟩

theorem works_execute (s : Select) (c : Connection ρ) : Works (s.execute c) := by
  rw [Select.execute]
  split
  · exact .pure _
  · apply Works.bind (.executing _ _ _)
    exact fun _ => works_exchange _

theorem works_perform (c : Connection ρ) (action : Action) : Works (perform c action) := by
  cases action with
  | run sql => exact (works_exchange _).bind fun _ => .pure _
  | wait d => exact (Works.wait d.nanos).bind fun _ => .pure _
  | raise why => exact .pure _
  | query s => exact (works_execute s c).bind fun _ => .pure _

theorem works_performAll (c : Connection ρ) (steps : List Step) : Works (performAll c steps) := by
  induction steps with
  | nil => exact .pure _
  | cons step rest ih =>
    apply (works_perform c step.action).bind
    intro r
    split
    · exact .pure _
    · exact ih.bind fun _ => .pure _

end Transaction

end Quarry
