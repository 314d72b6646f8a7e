import Quarry.Proofs.Transaction.Closed
import Quarry.Proofs.Transaction.Timeline

namespace Quarry

namespace Log

/-- The events of transactions. -/
def reports (log : Log) : List Event :=
  log.events.filter fun e => e.target = "querykit.tx"

variable {log rest : Log}

theorem reports_append : reports (log ++ rest) = log.reports ++ rest.reports := by
  rw [reports, events, List.filterMap_append, List.filter_append]
  rfl

end Log

namespace Transaction

/-- `BEGIN` succeeds, and the run is not dropped before that. -/
structure Begins (acquisition : Acquisition) (c : Connection ρ) (limit : Option Nat) : Prop where
  acquired : acquisition.outcome = .ok ()
  reply : c.reply .start opened = .ok ()
  reached : Reached limit (startedAt acquisition c)

/-- The deadline passes before the work is done, and the run is not dropped before that. -/
structure Expires (acquisition : Acquisition) (c : Connection ρ) (o : TransactionOptions)
    (steps : List Step) (limit : Option Nat) (d : Duration) : Prop where
  begins : Begins acquisition c limit
  isolated : Isolated c o
  timeout : d ∈ o.timeout
  late : c.timer.fires d < (alone c o steps).length
  reached : Reached limit (isolatedAt acquisition c o + c.timer.fires d)

/-- The statement that ends a transaction. -/
inductive Due (c : Connection ρ) (o : TransactionOptions) (steps : List Step) : Control → Prop where
  | commit (h : Completes c o steps) : Due c o steps .commit
  | rollback (h : Fails c o steps) : Due c o steps .rollback

/-- The transaction is ended by a statement that gets the given reply. -/
structure Ends (acquisition : Acquisition) (c : Connection ρ) (o : TransactionOptions)
    (steps : List Step) (limit : Option Nat) (k : Control) (reply : Except Failure Unit) :
    Prop where
  begins : Begins acquisition c limit
  due : Due c o steps k
  reply : c.reply k (unended c o steps) = reply
  reached : Reached limit (endedAt acquisition c o steps k)

/-- What is reported of the end of a transaction, if it gets to its end. -/
def conclusion (label : String) : Option (Control × Except Failure Unit) → List Event
  | none => [.abandoned]
  | some (.commit, .ok ()) => [.committed label]
  | some (.commit, .error _) => []
  | some (_, reply) => [rollbackEvent label reply]

def phaseAfter : Option (Control × Except Failure Unit) → Phase
  | none => .begun
  | some (.commit, .ok ()) => .committed
  | some (.commit, .error _) => .begun
  | some (_, _) => .rolledBack

/-- All that is reported of a transaction that is begun. -/
def account (o : TransactionOptions) (late : Option Duration)
    (ended : Option (Control × Except Failure Unit)) : List Event :=
  [.begun o] ++ late.toList.map (.timedOut o.label) ++ conclusion o.label ended ++
    [.released (phaseAfter ended)]

/-- What is reported of a run, by what happens in it. -/
inductive Accounted (acquisition : Acquisition) (c : Connection ρ) (o : TransactionOptions)
    (steps : List Step) (limit : Option Nat) : Option α → List Event → Prop where
  | unacquired {r : Option α} (h : ¬acquisition.Succeeds limit) :
      Accounted acquisition c o steps limit r []
  | unbegun {r : Option α} (h : acquisition.Succeeds limit)
      (hbegins : ¬Begins acquisition c limit) :
      Accounted acquisition c o steps limit r [.released .created]
  | begun {r : Option α} {late : Option Duration}
      {ended : Option (Control × Except Failure Unit)} (h : Begins acquisition c limit)
      (hlate : ∀ d, Expires acquisition c o steps limit d ↔ late = some d)
      (hended : ∀ k reply, Ends acquisition c o steps limit k reply ↔ ended = some (k, reply))
      (hr : r = none ↔ ended = none) :
      Accounted acquisition c o steps limit r (account o late ended)

def Settled.late? : Settled α → Option Duration
  | .timedOut d => some d
  | _ => none

section

variable {ρ α : Type} {acquisition : Acquisition} {c : Connection ρ} {o : TransactionOptions}
  {steps : List Step} {past log : Log} {label : String} {limit : Option Nat} {s : Settled α}
  {r : Option (Except Failure (List (Outcome ρ)))}

theorem reports_of_working (h : ∀ e ∈ log, Working e) : log.reports = [] := by
  induction log with
  | nil => rfl
  | cons e rest ih =>
    have hrest := ih fun e he => h e (List.mem_cons_of_mem _ he)
    cases h e List.mem_cons_self with
    | sent => exact hrest
    | executing => exact hrest

theorem reports_notice (s : Settled α) (label : String) :
    (s.notice label).reports = s.late?.toList.map (.timedOut label) := by
  cases s <;> rfl

theorem FinishTold.reports_of_dropped (h : FinishTold c label past s none log) :
    log.reports = s.late?.toList.map (.timedOut label) := by
  cases h with
  | committing => rfl
  | rollingBack =>
    rw [Log.reports_append, reports_notice]
    exact List.append_nil _

theorem FinishTold.concluded {a : Except Failure α} (h : FinishTold c label past s (some a) log) :
    log.reports = s.late?.toList.map (.timedOut label) ++
        conclusion label (some (s.ending, c.reply s.ending past)) ∧
      log.phases.getLastD .begun = phaseAfter (some (s.ending, c.reply s.ending past)) := by
  cases h with
  | uncommitted hreply =>
    rw [Settled.ending, hreply]
    exact ⟨rfl, rfl⟩
  | committed hreply =>
    rw [Settled.ending, hreply]
    exact ⟨rfl, rfl⟩
  | rolledBack hfailure =>
    have hending : s.ending = .rollback := by
      cases s with
      | completed => cases hfailure
      | failed => rfl
      | timedOut => rfl
    rw [hending, Log.reports_append, reports_notice, Log.phases_append]
    cases s <;> cases c.reply .rollback past <;> exact ⟨rfl, rfl⟩

theorem SettleTold.late {s : Settled (List (Outcome ρ))} (h : SettleTold c o steps (some s) log)
    (d : Duration) : s.late? = some d ↔
      Isolated c o ∧ d ∈ o.timeout ∧ c.timer.fires d < (alone c o steps).length := by
  cases h with
  | unisolated hlevel hreply =>
    refine ⟨fun hlate => absurd hlate.symm (Option.some_ne_none d), ?_⟩
    intro hlate
    rw [hlate.1 _ hlevel] at hreply
    cases hreply
  | working hisolated hwork =>
    cases hwork with
    | completed hintime =>
      refine ⟨fun hlate => absurd hlate.symm (Option.some_ne_none d), ?_⟩
      exact fun hlate => absurd (hintime d hlate.2.1) (Nat.not_le_of_lt hlate.2.2)
    | failed hintime =>
      refine ⟨fun hlate => absurd hlate.symm (Option.some_ne_none d), ?_⟩
      exact fun hlate => absurd (hintime d hlate.2.1) (Nat.not_le_of_lt hlate.2.2)
    | @timedOut d' hd hlate =>
      constructor
      · intro hsame
        cases hsame
        exact ⟨hisolated, hd, hlate⟩
      · intro hsame
        rw [Option.mem_unique hsame.2.1 hd]
        rfl

theorem SettleTold.due_iff {s : Settled (List (Outcome ρ))}
    (h : SettleTold c o steps (some s) log) (k : Control) : Due c o steps k ↔ k = s.ending := by
  rcases h.settled with ⟨hending, hcompletes⟩ | ⟨hending, hfails⟩
  · rw [hending]
    constructor
    · intro hdue
      cases hdue with
      | commit => rfl
      | rollback hfails => exact absurd hfails hcompletes.not_fails
    · rintro rfl
      exact .commit hcompletes
  · rw [hending]
    constructor
    · intro hdue
      cases hdue with
      | commit hcompletes => exact absurd hfails hcompletes.not_fails
      | rollback => rfl
    · rintro rfl
      exact .rollback hfails

theorem reports_around (told : Log) (r : Option α) (p : Phase) :
    (opened ++ told ++ warning r p ++ releasing p).reports =
      told.reports ++ (warning r p).reports ++ [.released p] := by
  rw [Log.reports_append, Log.reports_append, Log.reports_append]
  rfl

theorem reports_begun (hworking : ∀ e ∈ log, Working e) (rest : Log) :
    (begun o ++ log ++ rest).reports = [.begun o] ++ rest.reports := by
  rw [Log.reports_append, Log.reports_append, reports_of_working hworking]
  rfl

theorem phase_begun (hworking : ∀ e ∈ log, Working e) (rest : Log) :
    (opened ++ (begun o ++ log ++ rest)).phase = rest.phases.getLastD .begun := by
  rw [Log.phase, Log.phases_append, Log.phases_append, Log.phases_append,
    phases_of_working hworking]
  change (Phase.created :: Phase.begun :: rest.phases).getLastD .created = _
  rw [List.getLastD_cons, List.getLastD_cons]

theorem expires_iff (hbegins : Begins acquisition c limit)
    (hreached : Reached limit (settledAt acquisition c o steps)) (d : Duration) :
    Expires acquisition c o steps limit d ↔ (settling c o steps).result.late? = some d := by
  rw [(settling_told c o steps).late d]
  constructor
  · exact fun h => ⟨h.isolated, h.timeout, h.late⟩
  · intro h
    obtain ⟨hisolated, hd, hlate⟩ := h
    rw [settledAt_of_late hisolated hd hlate] at hreached
    exact ⟨hbegins, hisolated, hd, hlate, hreached⟩

theorem ends_iff (hbegins : Begins acquisition c limit) {k : Control}
    (hk : k = (settling c o steps).result.ending)
    (hreached : Reached limit (endedAt acquisition c o steps k)) (k' : Control)
    (reply : Except Failure Unit) : Ends acquisition c o steps limit k' reply ↔
      some (k, c.reply k (unended c o steps)) = some (k', reply) := by
  constructor
  · intro h
    have hsame := ((settling_told c o steps).due_iff k').1 h.due
    rw [← hk] at hsame
    rw [← h.reply, hsame]
  · intro h
    cases h
    exact ⟨hbegins, ((settling_told c o steps).due_iff k).2 hk, rfl, hreached⟩

/-- Nothing ends a transaction whose run is dropped before the reply. -/
theorem Ends.reached_ending {k : Control} {reply : Except Failure Unit}
    (h : Ends acquisition c o steps limit k reply) :
    Reached limit (endedAt acquisition c o steps (settling c o steps).result.ending) := by
  rw [← ((settling_told c o steps).due_iff k).1 h.due]
  exact h.reached

theorem Accounted.of_working (hbegins : Begins acquisition c limit)
    (hlate : ¬Reached limit (settledAt acquisition c o steps)) :
    Accounted acquisition c o steps limit (none : Option α) (account o none none) := by
  apply Accounted.begun hbegins
  · intro d
    constructor
    · intro h
      rw [settledAt_of_late h.isolated h.timeout h.late] at hlate
      exact absurd h.reached hlate
    · intro h
      cases h
  · intro k reply
    have hsettled : settledAt acquisition c o steps ≤
        endedAt acquisition c o steps (settling c o steps).result.ending := Nat.le_add_right _ _
    refine ⟨fun h => absurd (h.reached_ending.mono hsettled) hlate, fun h => ?_⟩
    cases h
  · exact iff_of_true rfl rfl

theorem Accounted.of_ending (hbegins : Begins acquisition c limit)
    (hreached : Reached limit (settledAt acquisition c o steps))
    (hlate : ¬Reached limit (endedAt acquisition c o steps (settling c o steps).result.ending)) :
    Accounted acquisition c o steps limit (none : Option α)
      (account o (settling c o steps).result.late? none) := by
  apply Accounted.begun hbegins
  · exact expires_iff hbegins hreached
  · intro k reply
    refine ⟨fun h => absurd h.reached_ending hlate, fun h => ?_⟩
    cases h
  · exact iff_of_true rfl rfl

theorem Accounted.of_ended (hbegins : Begins acquisition c limit) {k : Control}
    (hk : k = (settling c o steps).result.ending)
    (hreached : Reached limit (endedAt acquisition c o steps k)) (a : α) :
    Accounted acquisition c o steps limit (some a)
      (account o (settling c o steps).result.late? (some (k, c.reply k (unended c o steps)))) := by
  have hsettled : settledAt acquisition c o steps ≤ endedAt acquisition c o steps k :=
    Nat.le_add_right _ _
  apply Accounted.begun hbegins
  · exact expires_iff hbegins (hreached.mono hsettled)
  · intro k' reply
    rw [ends_iff hbegins hk hreached]
  · exact iff_of_false (Option.some_ne_none _) (Option.some_ne_none _)

theorem Comes.accounted (hacquired : acquisition.Succeeds limit)
    (h : Comes acquisition c o steps limit r log) : Accounted acquisition c o steps limit r
      (opened ++ log ++ warning r (opened ++ log).phase ++
        releasing (opened ++ log).phase).reports := by
  have hsettled := (settling_told c o steps).entries_working
  cases h with
  | starting hlate => exact .unbegun hacquired fun hbegins => hlate hbegins.reached
  | unstarted hreply =>
    refine .unbegun hacquired fun hbegins => ?_
    rw [hbegins.reply] at hreply
    cases hreply
  | @working log hreply hreached hlate hsettling =>
    have hphase := phase_begun (o := o) hsettling.entries_working []
    have hreports := reports_begun (o := o) hsettling.entries_working []
    rw [List.append_nil] at hphase hreports
    rw [reports_around, hphase, hreports]
    exact .of_working ⟨hacquired.1, hreply, hreached⟩ hlate
  | @ending rest hreply hreached hlate hfinish =>
    have hbegins : Begins acquisition c limit :=
      ⟨hacquired.1, hreply, hreached.mono (Nat.le_add_right _ _)⟩
    have hphase := phase_begun (o := o) hsettled rest
    rw [hfinish.phases_of_dropped] at hphase
    rw [reports_around, hphase, reports_begun hsettled, hfinish.reports_of_dropped]
    exact .of_ending hbegins hreached hlate
  | @ended a rest hreply hreached hfinish =>
    have hbegins : Begins acquisition c limit :=
      ⟨hacquired.1, hreply, hreached.mono (Nat.le_add_right_of_le (Nat.le_add_right _ _))⟩
    obtain ⟨hreports, hphase⟩ := hfinish.concluded
    have hnone : Log.reports [] = [] := rfl
    rw [reports_around, phase_begun hsettled, hphase, reports_begun hsettled, hreports, warning,
      hnone, List.append_nil, ← List.append_assoc]
    exact .of_ended hbegins rfl hreached a

theorem runUntil_accounted (acquisition : Acquisition) (c : Connection ρ) (o : TransactionOptions)
    (steps : List Step) (limit : Option Nat) :
    Accounted acquisition c o steps limit (runUntil acquisition c o steps limit).result
      (runUntil acquisition c o steps limit).log.reports := by
  by_cases hacquired : acquisition.Succeeds limit
  · obtain ⟨told, hcomes, hlog⟩ := runUntil_comes c o steps hacquired
    rw [hlog]
    exact hcomes.accounted hacquired
  · rw [(runUntil_told acquisition c o steps limit).unacquired hacquired]
    exact .unacquired hacquired

/-- A transaction is ended by a commit, by a rollback, or not at all. -/
theorem ended_cases {ended : Option (Control × Except Failure Unit)}
    (h : ∀ k reply, Ends acquisition c o steps limit k reply ↔ ended = some (k, reply)) :
    ended = none ∨ ended = some (.commit, .ok ()) ∨ (∃ why, ended = some (.commit, .error why)) ∨
      ended = some (.rollback, .ok ()) ∨ ∃ why, ended = some (.rollback, .error why) := by
  rcases ended with _ | ⟨k, reply⟩
  · exact .inl rfl
  · have hends := (h k reply).2 rfl
    cases hends.due with
    | commit =>
      cases reply with
      | ok => exact .inr (.inl rfl)
      | error why => exact .inr (.inr (.inl ⟨why, rfl⟩))
    | rollback =>
      cases reply with
      | ok => exact .inr (.inr (.inr (.inl rfl)))
      | error why => exact .inr (.inr (.inr (.inr ⟨why, rfl⟩)))

theorem Begins.succeeds (h : Begins acquisition c limit) : acquisition.Succeeds limit :=
  ⟨h.acquired, h.reached.mono (Nat.le_add_right _ _)⟩

variable {r : Option α} {events : List Event}

theorem Accounted.once (h : Accounted acquisition c o steps limit r events) :
    (events.map Event.message).Nodup := by
  cases h with
  | unacquired => simp
  | unbegun => simp
  | @begun late ended _ _ hended =>
    cases late <;> rcases ended_cases hended with rfl | rfl | ⟨why, rfl⟩ | rfl | ⟨why, rfl⟩ <;>
      simp [account, conclusion, rollbackEvent, Event.message]

end

end Transaction

end Quarry
