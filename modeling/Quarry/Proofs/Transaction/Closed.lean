import Quarry.Proofs.Transaction.Lifecycle
import Quarry.Proofs.Transaction.Steady
import Quarry.Server

namespace Quarry

namespace Transaction

def CommitAcknowledged (c : Connection ρ) (log : Log) : Prop :=
  ∃ past rest, log = past ++ .sent Control.commit.message :: .entered .committed :: rest ∧
    c.reply .commit past = .ok ()

/-- The work is done, but the commit that is then asked for is refused. -/
def CommitRefused (c : Connection ρ) (o : TransactionOptions) (steps : List Step) (log : Log) :
    Prop :=
  Completes c o steps ∧ ∃ past rest why,
    past = opened ++ begun o ++ (isolation o ++ (alone c o steps).log) ∧
      log = past ++ .sent Control.commit.message :: rest ∧ c.reply .commit past = .error why

/-- The transaction has been committed, or its rollback has been asked for. -/
def Closed (c : Connection ρ) (log : Log) : Prop :=
  CommitAcknowledged c log ∨ .sent Control.rollback.message ∈ log

/-- A run that is dropped before its end leaves what it did until then, reports that it was
abandoned if its transaction was begun, and sends nothing more. -/
structure Abandoned (whole : Course α) (t : Nat) (before after : Log) : Prop where
  early : t < whole.length
  before : before = whole.byTime t ++
    if .entered .begun ∈ whole.byTime t then [.event .abandoned] else []
  after : after.messages = []

/-- A transaction that the server began is closed before its connection is released. -/
def ClosesFirst (c : Connection ρ) (log : Log) : Prop :=
  ∀ before after, log = before ++ .released :: after → c.reply .start opened = .ok () →
    Closed c before

section

variable {ρ : Type} {c : Connection ρ} {o : TransactionOptions} {steps : List Step}
  {r : Option (Except Failure (List (Outcome ρ)))} {log : Log}

theorem not_closesFirst {before after : Log} (hlog : log = before ++ .released :: after)
    (hstart : c.reply .start opened = .ok ()) (hcommit : .entered .committed ∉ before)
    (hrollback : .sent Control.rollback.message ∉ before) : ¬ClosesFirst c log := by
  intro h
  rcases h before after hlog hstart with ⟨past, rest, hbefore, _⟩ | hmem
  · apply hcommit
    simp [hbefore]
  · exact hrollback hmem

/-- A run that is abandoned during its work, and one whose commit is refused. -/
theorem not_closesFirst_abandoned :
    ¬ClosesFirst (Server.immediate []) (course {} (Server.immediate []) {}
      [⟨.run "UPDATE a", false⟩, ⟨.wait (.ofMillis 100), false⟩] (some (.ofMillis 20))).log ∧
    ¬ClosesFirst (Server.immediate [⟨"COMMIT", .connection "COMMIT failed"⟩])
      (course {} (Server.immediate [⟨"COMMIT", .connection "COMMIT failed"⟩]) {}
        [⟨.run "UPDATE a", false⟩] none).log := by
  constructor
  · have hlog : (course {} (Server.immediate []) {} [⟨.run "UPDATE a", false⟩,
        ⟨.wait (.ofMillis 100), false⟩] (some (.ofMillis 20))).log =
          [.acquired, .entered .created, .sent (.simple "BEGIN"), .entered .begun,
            .event (.begun {}), .sent (.simple "UPDATE a"), .event .abandoned] ++
              .released :: [.event (.released .begun), .entered .released] := by
      decide
    exact not_closesFirst hlog rfl (by decide) (by decide)
  · have hlog : (course {} (Server.immediate [⟨"COMMIT", .connection "COMMIT failed"⟩]) {}
        [⟨.run "UPDATE a", false⟩] none).log =
          [.acquired, .entered .created, .sent (.simple "BEGIN"), .entered .begun,
            .event (.begun {}), .sent (.simple "UPDATE a"), .sent (.simple "COMMIT")] ++
              .released :: [.event (.released .begun), .entered .released] := by
      decide
    exact not_closesFirst hlog rfl (by decide) (by decide)

theorem FinishTold.closed {α : Type} {label : String} {past : Log} {s : Settled α}
    {a : Except Failure α} (h : FinishTold c label past s (some a) log) :
    Closed c (past ++ log) ∨ ∃ b why, s = .completed b ∧ log = [.sent Control.commit.message] ∧
      c.reply .commit past = .error why := by
  cases h with
  | uncommitted hreply => exact .inr ⟨_, _, rfl, rfl, hreply⟩
  | committed hreply => exact .inl (.inl ⟨past, _, rfl, hreply⟩)
  | rolledBack =>
    refine .inl (.inr ?_)
    simp

theorem SettleTold.completed {a : List (Outcome ρ)}
    (h : SettleTold c o steps (some (.completed a)) log) :
    Completes c o steps ∧ log = isolation o ++ (alone c o steps).log := by
  cases h with
  | working hisolated hwork =>
    cases hwork with
    | completed hintime hresult => exact ⟨⟨hisolated, hintime, a, hresult⟩, rfl⟩

theorem FinishTold.phases_of_dropped {α : Type} {label : String} {past : Log} {s : Settled α}
    (h : FinishTold c label past s none log) : log.phases = [] := by
  cases h with
  | committing => rfl
  | rollingBack => cases s <;> rfl

theorem TransactTold.closed {a : Except Failure (List (Outcome ρ))}
    (h : TransactTold c o steps (some a) log) (hstart : c.reply .start opened = .ok ()) :
    Closed c (opened ++ log) ∨ CommitRefused c o steps (opened ++ log) := by
  cases h with
  | unstarted hreply =>
    rw [hstart] at hreply
    cases hreply
  | settled _ hsettle hfinish =>
    rw [← List.append_assoc, ← List.append_assoc]
    rcases hfinish.closed with hclosed | ⟨b, why, rfl, rfl, hreply⟩
    · exact .inl hclosed
    · obtain ⟨hcompletes, rfl⟩ := hsettle.completed
      exact .inr ⟨hcompletes, _, [], why, rfl, rfl, hreply⟩

/-- A transaction that was begun and then dropped is still in that phase. -/
theorem TransactTold.phase_of_dropped (h : TransactTold c o steps none log) :
    (opened ++ log).phase = .begun ↔ .entered .begun ∈ opened ++ log := by
  have hbegun : ∀ rest, (begun o ++ rest).phases = [.begun] →
      ((opened ++ (begun o ++ rest)).phase = .begun ↔
        .entered .begun ∈ opened ++ (begun o ++ rest)) := by
    intro rest hphases
    apply iff_of_true
    · rw [Log.phase, Log.phases_append, hphases]
      rfl
    · simp [begun]
  cases h with
  | starting => exact iff_of_false (by decide) (by simp [opened])
  | unsettled _ hsettle =>
    apply hbegun
    rw [Log.phases_append, phases_of_working hsettle.entries_working]
    rfl
  | settled _ hsettle hfinish =>
    rw [List.append_assoc]
    apply hbegun
    rw [Log.phases_append, Log.phases_append, phases_of_working hsettle.entries_working,
      hfinish.phases_of_dropped]
    rfl

theorem TransactTold.before_release (h : TransactTold c o steps r log) {p : Phase}
    {before after : Log}
    (hlog : opened ++ log ++ warning r p ++ releasing p = before ++ .released :: after) :
    before = opened ++ log ++ warning r p ∧ after.messages = [] := by
  have hafter : .released ∉ [Entry.event (.released p), .entered .released] := by
    simp
  obtain ⟨rfl, _, rfl⟩ := (List.append_cons_inj_of_notMem (h.not_released_before p) hafter).1 hlog
  exact ⟨rfl, rfl⟩

theorem runUntil_of_ended {acquisition : Acquisition} {limit : Option Nat}
    (h : ∀ t ∈ limit, (run acquisition c o steps []).length ≤ t) :
    runUntil acquisition c o steps limit = { run acquisition c o steps [] with
      result := some (run acquisition c o steps []).result } := by
  cases limit with
  | none => rfl
  | some t => exact abandonAt_of_le (h t rfl)

theorem runUntil_abandoned {acquisition : Acquisition} {t : Nat} {before after : Log}
    (hdelay : acquisition.delay ≤ t) (hlate : t < (run acquisition c o steps []).length)
    (hlog : (runUntil acquisition c o steps (some t)).log = before ++ .released :: after) :
    Abandoned (run acquisition c o steps []) t before after := by
  obtain ⟨_, told, htold, hupTo⟩ := upTo_told hdelay hlate
  have hlog' : (runUntil acquisition c o steps (some t)).log = _ := (abandonAt_of_lt hlate).2
  rw [hlog', hupTo, farewell_opened (α := Except Failure (List (Outcome ρ))), ← List.append_assoc]
    at hlog
  obtain ⟨rfl, hafter⟩ := htold.before_release hlog
  refine ⟨hlate, ?_, hafter⟩
  -- A run comes in the order of time, so all that is later than the limit is what is cut off.
  rw [← ((ordered_run acquisition c o steps).inOrder []).upTo_eq, hupTo, warning]
  simp only [htold.phase_of_dropped]

/-- A transaction is closed before its connection is released, unless its run is abandoned. Nothing
is said of a commit that is refused. -/
theorem runUntil_closed {acquisition : Acquisition} {limit : Option Nat} {before after : Log}
    (hlog : (runUntil acquisition c o steps limit).log = before ++ .released :: after)
    (hstart : c.reply .start opened = .ok ()) :
    ((∀ t ∈ limit, (run acquisition c o steps []).length ≤ t) →
      Closed c before ∨ CommitRefused c o steps before) ∧
    ∀ t ∈ limit, t < (run acquisition c o steps []).length →
      Abandoned (run acquisition c o steps []) t before after := by
  have htold := runUntil_told acquisition c o steps limit
  have hacquired : acquisition.Succeeds limit := by
    by_contra hacquired
    rw [htold.unacquired hacquired] at hlog
    exact List.append_ne_nil_of_right_ne_nil _ (List.cons_ne_nil _ _) hlog.symm
  constructor
  · intro hended
    rw [runUntil_of_ended hended] at htold hlog
    obtain ⟨told, htransact, hrun⟩ := htold.acquired hacquired
    rw [hrun] at hlog
    rw [(htransact.before_release hlog).1, warning, List.append_nil]
    exact htransact.closed hstart
  · intro t ht hlate
    cases ht
    exact runUntil_abandoned (hacquired.2 t rfl) hlate hlog

/-- Work that raises is rolled back. Work that is dropped while it waits is not. -/
theorem runUntil_closed_raised_dropped :
    let c := Server.immediate []
    let raised : List Step := [⟨.raise (.other "no funds"), false⟩]
    let waiting : List Step := [⟨.run "UPDATE a", false⟩, ⟨.wait (.ofMillis 100), false⟩]
    (∃ before after, (runUntil {} c {} raised none).log = before ++ .released :: after ∧
      c.reply .start opened = .ok () ∧ Closed c before ∧
      before.messages = [.simple "BEGIN", .simple "ROLLBACK"]) ∧
    ∃ before after, (runUntil {} c {} waiting (some 20000000)).log = before ++ .released :: after ∧
      Abandoned (run {} c {} waiting []) 20000000 before after ∧
      before = [.acquired, .entered .created, .sent (.simple "BEGIN"), .entered .begun,
        .event (.begun {}), .sent (.simple "UPDATE a"), .event .abandoned] := by
  intro c raised waiting
  constructor
  · have hlog : (runUntil {} c {} raised none).log =
        [.acquired, .entered .created, .sent (.simple "BEGIN"), .entered .begun, .event (.begun {}),
          .sent (.simple "ROLLBACK"), .event (.rolledBack "transaction"), .entered .rolledBack] ++
            .released :: [.event (.released .rolledBack), .entered .released] := by
      decide
    rcases (runUntil_closed hlog rfl).1 (by decide) with hclosed | ⟨⟨_, _, a, hresult⟩, _⟩
    · exact ⟨_, _, hlog, rfl, hclosed, rfl⟩
    · cases hresult
  · have hlog : (runUntil {} c {} waiting (some 20000000)).log =
        [.acquired, .entered .created, .sent (.simple "BEGIN"), .entered .begun, .event (.begun {}),
          .sent (.simple "UPDATE a"), .event .abandoned] ++
            .released :: [.event (.released .begun), .entered .released] := by
      decide
    exact ⟨_, _, hlog, (runUntil_closed hlog rfl).2 20000000 rfl (by decide), rfl⟩

end

end Transaction

end Quarry
