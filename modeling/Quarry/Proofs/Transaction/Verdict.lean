import Quarry.Proofs.Checked
import Quarry.Proofs.Transaction.Closed
import Quarry.Proofs.Transaction.Forks
import Quarry.Proofs.Transaction.Orderly

namespace Quarry

namespace Transaction

def isolationReply (c : Connection ρ) (o : TransactionOptions) : Except Failure Unit :=
  match o.isolation with
  | none => .ok ()
  | some level => c.reply (.isolate level) (opened ++ begun o)

/-- A deadline fails the work that is not done by then. -/
def deadline (c : Connection ρ) (o : TransactionOptions) (steps : List Step) :
    Except Failure Unit :=
  match o.timeout with
  | none => .ok ()
  | some d =>
    if c.timer.fires d < (alone c o steps).length then .error (.timeout o.label d) else .ok ()

/-- What a transaction comes to if it is not dropped. -/
def verdict (acquisition : Acquisition) (c : Connection ρ) (o : TransactionOptions)
    (steps : List Step) : Except Failure (List (Outcome ρ)) := do
  acquisition.outcome
  c.reply .start opened
  isolationReply c o
  deadline c o steps
  let outcomes ← (alone c o steps).result
  c.reply .commit (opened ++ begun o ++ (isolation o ++ (alone c o steps).log))
  return outcomes

/-- What holds of the result of a run that is dropped at the limit, if there is one. -/
structure Judged (acquisition : Acquisition) (c : Connection ρ) (o : TransactionOptions)
    (steps : List Step) (limit : Option Nat)
    (r : Option (Except Failure (List (Outcome ρ)))) : Prop where
  dropped : r = none ↔ ∃ t ∈ limit, t < (run acquisition c o steps []).length
  verdict : ∀ a ∈ r, a = verdict acquisition c o steps
  completed : r ≠ none → ∀ outcomes, r = some (.ok outcomes) ↔
    acquisition.outcome = .ok () ∧ c.reply .start opened = .ok () ∧ Isolated c o ∧
      (alone c o steps).InTime c.timer o.timeout ∧ (alone c o steps).result = .ok outcomes ∧
      c.reply .commit (opened ++ begun o ++ (isolation o ++ (alone c o steps).log)) = .ok ()
  /-- Another answer to the final `ROLLBACK`, whatever it is, changes nothing. -/
  rollback : ∀ past c', (run acquisition c o steps []).log.messages =
    past ++ [Control.rollback.message] → c.AgreesBut c' past .rollback →
      ∀ a ∈ r, (run acquisition c' o steps []).result = a

section

variable {ρ : Type} {acquisition : Acquisition} {c c' : Connection ρ} {o : TransactionOptions}
  {steps : List Step} {log : Log}

theorem isolationReply_eq_ok_iff : isolationReply c o = .ok () ↔ Isolated c o := by
  rw [isolationReply, Isolated]
  cases o.isolation with
  | none => simp
  | some level => simp

theorem isolationReply_of_refused {level : IsolationLevel} {why : Failure} (h : level ∈ o.isolation)
    (hreply : c.reply (.isolate level) (opened ++ begun o) = .error why) :
    isolationReply c o = .error why := by
  rw [isolationReply, h]
  exact hreply

theorem deadline_eq_ok_iff :
    deadline c o steps = .ok () ↔ (alone c o steps).InTime c.timer o.timeout := by
  rw [deadline, Course.InTime]
  cases o.timeout with
  | none => simp
  | some d => simp

/-- Work that takes no longer than it may never fails for its deadline, however late the timer is.
-/
theorem deadline_of_length_le (h : ∀ d ∈ o.timeout, (alone c o steps).length ≤ d.nanos) :
    deadline c o steps = .ok () :=
  deadline_eq_ok_iff.2 (.of_length_le h)

theorem deadline_of_late {d : Duration} (hd : d ∈ o.timeout)
    (hlate : c.timer.fires d < (alone c o steps).length) :
    deadline c o steps = .error (.timeout o.label d) := by
  rw [deadline, hd]
  exact if_pos hlate

theorem TransactTold.verdict {a : Except Failure (List (Outcome ρ))}
    (hacquired : acquisition.outcome = .ok ()) (h : TransactTold c o steps (some a) log) :
    a = verdict acquisition c o steps := by
  cases h with
  | unstarted hreply =>
    rw [Transaction.verdict, hacquired, hreply]
    rfl
  | settled hstart hsettle hfinish =>
    rw [Transaction.verdict, hacquired, hstart]
    cases hsettle with
    | unisolated hlevel hreply =>
      cases hfinish with
      | rolledBack hfailure =>
        cases hfailure
        rw [isolationReply_of_refused hlevel hreply]
        rfl
    | working hisolated hwork =>
      rw [isolationReply_eq_ok_iff.2 hisolated]
      cases hwork with
      | completed hintime hresult =>
        rw [deadline_eq_ok_iff.2 hintime, hresult]
        cases hfinish with
        | uncommitted hreply =>
          rw [hreply]
          rfl
        | committed hreply =>
          rw [hreply]
          rfl
        | rolledBack hfailure => cases hfailure
      | failed hintime hresult =>
        rw [deadline_eq_ok_iff.2 hintime, hresult]
        cases hfinish with
        | rolledBack hfailure =>
          cases hfailure
          rfl
      | timedOut hd hlate =>
        rw [deadline_of_late hd hlate]
        cases hfinish with
        | rolledBack hfailure =>
          cases hfailure
          rfl

theorem RunTold.verdict {limit : Option Nat} {a : Except Failure (List (Outcome ρ))}
    (h : RunTold acquisition c o steps limit (some a) log) : a = verdict acquisition c o steps := by
  cases h with
  | unavailable houtcome =>
    rw [Transaction.verdict, houtcome]
    rfl
  | returned hacquired htold => exact htold.verdict hacquired.1

theorem run_verdict (acquisition : Acquisition) (c : Connection ρ) (o : TransactionOptions)
    (steps : List Step) :
    (run acquisition c o steps []).result = verdict acquisition c o steps := by
  have htold := runUntil_told acquisition c o steps none
  exact htold.verdict

theorem verdict_eq_ok_iff {outcomes : List (Outcome ρ)} :
    verdict acquisition c o steps = .ok outcomes ↔
      acquisition.outcome = .ok () ∧ c.reply .start opened = .ok () ∧ Isolated c o ∧
        (alone c o steps).InTime c.timer o.timeout ∧ (alone c o steps).result = .ok outcomes ∧
        c.reply .commit (opened ++ begun o ++ (isolation o ++ (alone c o steps).log)) = .ok () := by
  constructor
  · intro h
    obtain ⟨_, hacquired, h⟩ := of_bind h
    obtain ⟨_, hstart, h⟩ := of_bind h
    obtain ⟨_, hisolated, h⟩ := of_bind h
    obtain ⟨_, hintime, h⟩ := of_bind h
    obtain ⟨_, hresult, h⟩ := of_bind h
    obtain ⟨_, hcommit, h⟩ := of_bind h
    cases h
    exact ⟨hacquired, hstart, isolationReply_eq_ok_iff.1 hisolated, deadline_eq_ok_iff.1 hintime,
      hresult, hcommit⟩
  · intro h
    obtain ⟨hacquired, hstart, hisolated, hintime, hresult, hcommit⟩ := h
    rw [verdict, hacquired, hstart, isolationReply_eq_ok_iff.2 hisolated,
      deadline_eq_ok_iff.2 hintime, hresult, hcommit]
    rfl

theorem runUntil_eq_none_iff {limit : Option Nat} :
    (runUntil acquisition c o steps limit).result = none ↔
      ∃ t ∈ limit, t < (run acquisition c o steps []).length := by
  cases limit with
  | none => simp [runUntil]
  | some t =>
    rw [runUntil]
    by_cases hended : (run acquisition c o steps []).length ≤ t
    · rw [abandonAt_of_le hended]
      simpa using hended
    · have hlate := Nat.lt_of_not_le hended
      obtain ⟨hresult, _⟩ := abandonAt_of_lt hlate
      simpa [hresult] using hlate

theorem reply_of_agreesBut {past : List Message} {k k' : Control} (h : c.AgreesBut c' past k)
    (hk : k'.sql ≠ k.sql) (sent : Log) : c'.reply k' sent = c.reply k' sent := by
  have hrun : c'.run sent.messages k'.sql = c.run sent.messages k'.sql := by
    apply h.run
    intro hsame
    exact hk hsame.2
  rw [Connection.reply, Connection.reply, hrun]

theorem isolationReply_of_agreesBut {past : List Message} (h : c.AgreesBut c' past .rollback) :
    isolationReply c' o = isolationReply c o := by
  rw [isolationReply, isolationReply]
  cases o.isolation with
  | none => rfl
  | some level =>
    have hlevel : (Control.isolate level).sql ≠ Control.rollback.sql := by
      cases level <;> decide
    exact reply_of_agreesBut h hlevel _

/-- A transaction that ends with a `ROLLBACK` comes to the same, whatever that is answered. -/
theorem TransactTold.verdict_of_agreesBut {past : List Message} (h : c.AgreesBut c' past .rollback)
    {a : Except Failure (List (Outcome ρ))} (htold : TransactTold c o steps (some a) log)
    (hmessages : log.messages = past ++ [Control.rollback.message]) :
    Transaction.verdict acquisition c' o steps = Transaction.verdict acquisition c o steps := by
  have hstart' : c'.reply .start opened = c.reply .start opened :=
    reply_of_agreesBut h (by decide) opened
  have hisolation' := isolationReply_of_agreesBut (o := o) h
  have hforks : (alone c o steps).Forks past .rollback _ (alone c' o steps) :=
    performAll_forks h steps _
  rw [Transaction.verdict, Transaction.verdict, hstart', hisolation']
  cases htold with
  | unstarted hreply =>
    rw [hreply]
    rfl
  | settled hstart hsettle hfinish =>
    rw [Log.messages_append, hfinish.messages] at hmessages
    obtain ⟨hpast, hending⟩ := List.append_inj' hmessages rfl
    cases hsettle with
    | unisolated hlevel hreply =>
      rw [isolationReply_of_refused hlevel hreply]
      rfl
    | @working _ work hisolated hwork =>
      rw [← List.append_assoc, Log.messages_append] at hpast
      have hsent : past = (opened ++ begun o ++ isolation o).messages ++ work.messages := hpast.symm
      cases hwork with
      | completed =>
        have hcommit : Control.commit.sql = Control.rollback.sql := message_injective hending
        exact absurd hcommit (by decide)
      | failed hintime hresult =>
        rw [deadline, h.timer, hforks.eq hsent, hresult]
        rfl
      | @timedOut d hd hlate =>
        have hlate' : c'.timer.fires d < (alone c' o steps).length := by
          rw [h.timer]
          exact hforks.late hsent hlate
        rw [deadline_of_late hd hlate, deadline_of_late hd hlate']
        rfl

theorem run_of_agreesBut {past : List Message} (h : c.AgreesBut c' past .rollback)
    (hmessages : (run acquisition c o steps []).log.messages = past ++ [Control.rollback.message]) :
    (run acquisition c' o steps []).result = (run acquisition c o steps []).result := by
  have htold := runUntil_told acquisition c o steps none
  have hacquired : acquisition.Succeeds none := by
    by_contra hacquired
    have hlog : (run acquisition c o steps []).log = [] := htold.unacquired hacquired
    rw [hlog] at hmessages
    exact List.append_ne_nil_of_right_ne_nil _ (List.cons_ne_nil _ _) hmessages.symm
  obtain ⟨told, htransact, hlog⟩ := htold.acquired hacquired
  change (run acquisition c o steps []).log = _ at hlog
  rw [hlog, messages_around] at hmessages
  rw [run_verdict, run_verdict]
  exact htransact.verdict_of_agreesBut h hmessages

/-- Whatever the pool and the server answer, a run that is not dropped comes to the first failure in
it, or else to the outcomes of its work. A failed rollback is none of these failures. -/
theorem runUntil_judged (acquisition : Acquisition) (c : Connection ρ) (o : TransactionOptions)
    (steps : List Step) (limit : Option Nat) :
    Judged acquisition c o steps limit (runUntil acquisition c o steps limit).result := by
  have hverdict : ∀ a ∈ (runUntil acquisition c o steps limit).result,
      a = verdict acquisition c o steps := by
    intro a ha
    have htold := runUntil_told acquisition c o steps limit
    rw [ha] at htold
    exact htold.verdict
  constructor
  · exact runUntil_eq_none_iff
  · exact hverdict
  · intro hne outcomes
    obtain ⟨a, ha⟩ := Option.ne_none_iff_exists'.1 hne
    rw [ha, hverdict a ha, Option.some_inj]
    exact verdict_eq_ok_iff
  · intro past c' hmessages hagrees a ha
    rw [run_of_agreesBut hagrees hmessages, run_verdict, hverdict a ha]

/-- What the work raised, and that it was late, is the result also when the `ROLLBACK` is refused.
-/
theorem runUntil_judged_raised_timedOut :
    let c := Server.immediate [⟨"ROLLBACK", .connection "gone"⟩]
    let o : TransactionOptions := { timeout := some (.ofMillis 20) }
    let goesOn : List Step := [⟨.run "UPDATE a", false⟩, ⟨.raise (.other "no stock"), true⟩]
    let raised : List Step := goesOn ++ [⟨.raise (.other "no funds"), false⟩]
    let late : List Step := goesOn ++ [⟨.wait (.ofMillis 100), false⟩]
    (runUntil {} c o goesOn none).result = some (.ok [.done, .failed (.other "no stock")]) ∧
      Judged {} c o raised none (runUntil {} c o raised none).result ∧
      (runUntil {} c o raised none).result = some (.error (.other "no funds")) ∧
      Judged {} c o late none (runUntil {} c o late none).result ∧
      (runUntil {} c o late none).result =
        some (.error (.timeout "transaction" (.ofMillis 20))) := by
  intro c o goesOn raised late
  refine ⟨rfl, runUntil_judged _ _ _ _ _, rfl, runUntil_judged _ _ _ _ _, ?_⟩
  have hlate : c.timer.fires (.ofMillis 20) < (alone c o late).length := by decide
  -- Evaluating the run itself goes too deep; its verdict needs the length of the work only.
  change some (run {} c o late []).result = _
  rw [run_verdict, verdict, deadline_of_late rfl hlate]
  rfl

end

end Transaction

end Quarry
