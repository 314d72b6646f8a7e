import Quarry.Proofs.Transaction.Works

namespace Quarry

namespace Course

/-- What happens is listed in the order of time. -/
def InOrder (c : Course α) : Prop :=
  c.entries.Pairwise fun e e' => e.1 ≤ e'.1

/-- What happens at the limit or before it. -/
def byTime (limit : Nat) (c : Course α) : Log :=
  (c.entries.filter fun e => e.1 ≤ limit).map Prod.snd

section

variable {α β : Type} {a : Course α} {b : Course β} {limit : Nat}

theorem InOrder.append (htimely : a.Timely) (ha : a.InOrder) (hb : b.InOrder) :
    (a.append b).InOrder := by
  apply List.pairwise_append.2
  refine ⟨ha, ?_, ?_⟩
  · apply List.pairwise_map.2
    apply hb.imp
    intro e e' hle
    exact Nat.add_le_add_left hle _
  · intro e he e' he'
    obtain ⟨e', _, rfl⟩ := List.mem_map.1 he'
    exact Nat.le_add_right_of_le (htimely e he)

theorem takeWhile_eq_filter {entries : List (Nat × Entry)}
    (h : entries.Pairwise fun e e' => e.1 ≤ e'.1) :
    entries.takeWhile (fun e => e.1 ≤ limit) = entries.filter fun e => e.1 ≤ limit := by
  induction h with
  | nil => rfl
  | @cons e rest hrest _ ih =>
    by_cases he : e.1 ≤ limit
    · rw [List.takeWhile_cons_of_pos (by simpa using he),
        List.filter_cons_of_pos (by simpa using he), ih]
    · have hlater : ∀ e' ∈ rest, ¬decide (e'.1 ≤ limit) = true := by
        intro e' he'
        have hle := hrest e' he'
        rw [decide_eq_true_eq]
        omega
      rw [List.takeWhile_cons_of_neg (by simpa using he),
        List.filter_cons_of_neg (by simpa using he), List.filter_eq_nil_iff.2 hlater]

theorem InOrder.upTo_eq (h : a.InOrder) : a.upTo limit = a.byTime limit := by
  rw [upTo, takeWhile_eq_filter h, byTime]

theorem InOrder.cut (h : a.InOrder) (limit : Nat) : (a.cut limit).InOrder := by
  rw [Course.cut]
  split
  · exact h
  · exact h.sublist (List.takeWhile_sublist _)

theorem upTo_isPrefix_upTo {limit' : Nat} (h : limit ≤ limit') :
    a.upTo limit <+: a.upTo limit' := by
  rw [upTo, ← takeWhile_of_le h]
  exact (List.takeWhile_prefix _).map Prod.snd

theorem Timely.byTime_eq (h : a.Timely) (hlimit : a.length ≤ limit) : a.byTime limit = a.log := by
  have hall : ∀ e ∈ a.entries, decide (e.1 ≤ limit) = true := by
    intro e he
    exact decide_eq_true (Nat.le_trans (h e he) hlimit)
  rw [byTime, List.filter_eq_self.2 hall, log]

end

end Course

/-- A session lists what happens in the order of time, and nothing after its end. -/
structure Session.Ordered (m : Session α) : Prop where
  timely : ∀ past, (m past).Timely
  inOrder : ∀ past, (m past).InOrder

/-- Of the past, the session minds only what was sent. -/
structure Session.Steady (m : Session α) : Prop extends Ordered m where
  minds : ∀ {past past' : Log}, past.messages = past'.messages → m past = m past'

namespace Session

variable {α β : Type}

theorem Ordered.atOnce {m : Session α} (h : ∀ past, ∀ e ∈ (m past).entries, e.1 = 0) :
    m.Ordered := by
  constructor
  · intro past e he
    rw [h past e he]
    exact Nat.zero_le _
  · intro past
    apply List.pairwise_of_forall_mem_list
    intro e he e' _
    rw [h past e he]
    exact Nat.zero_le _

theorem Ordered.pure (a : α) : Ordered (Pure.pure a : Session α) :=
  .atOnce fun _ _ he => absurd he List.not_mem_nil

theorem Ordered.phase : Session.phase.Ordered :=
  .atOnce fun _ _ he => absurd he List.not_mem_nil

theorem Ordered.bind {m : Session α} {f : α → Session β} (hm : m.Ordered)
    (hf : ∀ a, (f a).Ordered) : Ordered (m >>= f) := by
  constructor
  · intro past
    exact (hm.timely past).append ((hf _).timely _)
  · intro past
    exact (hm.inOrder past).append (hm.timely past) ((hf _).inOrder _)

theorem Ordered.within {m : Session α} (hm : m.Ordered) (limit : Nat) :
    (Session.within limit m).Ordered := by
  constructor
  · exact fun past => (hm.timely past).cut limit
  · exact fun past => (hm.inOrder past).cut limit

theorem Steady.atOnce {x : Course α} (h : ∀ e ∈ x.entries, e.1 = 0) : Steady fun _ => x where
  toOrdered := .atOnce fun _ => h
  minds _ := rfl

theorem Steady.pure (a : α) : Steady (Pure.pure a : Session α) :=
  .atOnce fun _ he => absurd he List.not_mem_nil

theorem Steady.wait (nanos : Nat) : (Session.wait nanos).Steady :=
  .atOnce fun _ he => absurd he List.not_mem_nil

theorem Steady.note (log : Log) : (Session.note log).Steady := by
  apply Steady.atOnce
  intro e he
  obtain ⟨e', _, rfl⟩ := List.mem_map.1 he
  rfl

theorem Ordered.note (log : Log) : (Session.note log).Ordered :=
  (Steady.note log).toOrdered

theorem Steady.bind {m : Session α} {f : α → Session β} (hm : m.Steady) (hf : ∀ a, (f a).Steady) :
    Steady (m >>= f) where
  toOrdered := hm.toOrdered.bind fun a => (hf a).toOrdered
  minds {past past'} h := by
    change (m past).append _ = (m past').append _
    rw [hm.minds h]
    congr 1
    apply (hf _).minds
    rw [Log.messages_append, Log.messages_append, h]

theorem steady_exchange (x : List Message → Exchange α) : Steady (exchange x) := by
  have hcourse : ∀ (rounds : List (Message × Nat)) (a : Except Failure α),
      Steady fun _ => Exchange.course rounds a := by
    intro rounds a
    induction rounds with
    | nil => exact .pure a
    | cons round rest ih =>
      have hround : Steady fun _ => (⟨[(0, .sent round.1)], round.2, ()⟩ : Course Unit) := by
        apply Steady.atOnce
        intro e he
        rw [List.mem_singleton.1 he]
      exact hround.bind fun _ => ih
  refine ⟨⟨fun past => ?_, fun past => ?_⟩, fun h => ?_⟩
  · exact (hcourse _ _).timely past
  · exact (hcourse _ _).inOrder past
  · rw [exchange, exchange, h]

end Session

namespace Transaction

open Session

variable {ρ : Type}

theorem steady_perform (c : Connection ρ) (action : Action) : (perform c action).Steady := by
  cases action with
  | run sql => exact (steady_exchange _).bind fun _ => .pure _
  | wait d => exact (Steady.wait d.nanos).bind fun _ => .pure _
  | raise why => exact .pure _
  | query s =>
    have hexecute : (s.execute c).Steady := by
      rw [Select.execute]
      split
      · exact .pure _
      · exact (Steady.note _).bind fun _ => steady_exchange _
    exact hexecute.bind fun _ => .pure _

theorem steady_performAll (c : Connection ρ) (steps : List Step) : (performAll c steps).Steady := by
  induction steps with
  | nil => exact .pure _
  | cons step rest ih =>
    apply (steady_perform c step.action).bind
    intro r
    split
    · exact .pure _
    · exact ih.bind fun _ => .pure _

theorem ordered_control (c : Connection ρ) (k : Control) : (c.control k).Ordered := by
  rw [Connection.control, Connection.perform]
  exact (steady_exchange _).toOrdered

theorem ordered_work (c : Connection ρ) (timeout : Option Duration) (steps : List Step) :
    (work c timeout steps).Ordered := by
  have hsteps := (steady_performAll c steps).toOrdered
  cases timeout with
  | none => exact hsteps.bind fun _ => .pure _
  | some d =>
    apply (hsteps.within _).bind
    intro r
    cases r with
    | none => exact .pure _
    | some r => exact .pure _

theorem ordered_rollback (c : Connection ρ) (label : String) : (rollback c label).Ordered := by
  apply (ordered_control c .rollback).bind
  intro r
  cases r with
  | ok => exact .note _
  | error why => exact .note _

theorem ordered_finish {α : Type} (c : Connection ρ) (label : String) (s : Settled α) :
    (finish c label s).Ordered := by
  have hunwind : ∀ why, (do rollback c label; Session.enter .rolledBack; return .error why :
      Session (Except Failure α)).Ordered := by
    intro why
    exact (ordered_rollback c label).bind fun _ => (Ordered.note _).bind fun _ => .pure _
  cases s with
  | completed a =>
    apply (ordered_control c .commit).bind
    intro r
    cases r with
    | error why => exact .pure _
    | ok => exact (Ordered.note _).bind fun _ => (Ordered.note _).bind fun _ => .pure _
  | failed why => exact hunwind why
  | timedOut after => exact (Ordered.note _).bind fun _ => hunwind _

theorem ordered_isolate (c : Connection ρ) (level : Option IsolationLevel) :
    (isolate c level).Ordered := by
  cases level with
  | none => exact .pure _
  | some level => exact ordered_control c _

theorem ordered_transact (c : Connection ρ) (o : TransactionOptions) (steps : List Step) :
    (transact c o steps).Ordered := by
  apply (ordered_control c .start).bind
  intro r
  cases r with
  | error why => exact .pure _
  | ok =>
    apply (Ordered.note _).bind fun _ => (Ordered.note _).bind fun _ => ?_
    apply (ordered_isolate c o.isolation).bind
    intro r
    cases r with
    | error why => exact ordered_finish c o.label _
    | ok => exact (ordered_work c o.timeout steps).bind fun _ => ordered_finish c o.label _

theorem ordered_run (acquisition : Acquisition) (c : Connection ρ) (o : TransactionOptions)
    (steps : List Step) : (run acquisition c o steps).Ordered := by
  apply (Steady.wait _).toOrdered.bind
  intro _
  split
  · exact .pure _
  · apply (Ordered.note _).bind fun _ => ?_
    apply (ordered_transact c o steps).bind fun _ => ?_
    exact Ordered.phase.bind fun _ => (Ordered.note _).bind fun _ => .pure _

end Transaction

end Quarry
