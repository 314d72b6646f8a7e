import Quarry.Proofs.Transaction.Works

namespace Quarry

namespace Course

variable {α : Type}

def InTime (timer : Timer) (timeout : Option Duration) (c : Course α) : Prop :=
  ∀ d ∈ timeout, c.length ≤ timer.fires d

/-- A course that takes no longer than it may is in time, whatever the timer. -/
theorem InTime.of_length_le {timer : Timer} {timeout : Option Duration} {c : Course α}
    (h : ∀ d ∈ timeout, c.length ≤ d.nanos) : c.InTime timer timeout :=
  fun d hd => (h d hd).trans (timer.not_early d)

end Course

namespace Transaction

def opened : Log :=
  [.acquired, .entered .created]

def begun (o : TransactionOptions) : Log :=
  [.sent Control.start.message, .entered .begun, .event (.begun o)]

def isolation (o : TransactionOptions) : Log :=
  o.isolation.toList.map fun level => .sent (Control.isolate level).message

/-- The isolation level, if there is one, is accepted. -/
def Isolated (c : Connection ρ) (o : TransactionOptions) : Prop :=
  ∀ level ∈ o.isolation, c.reply (.isolate level) (opened ++ begun o) = .ok ()

/-- The unit of work, without its deadline. -/
def alone (c : Connection ρ) (o : TransactionOptions) (steps : List Step) :
    Course (Except Failure (List (Outcome ρ))) :=
  performAll c steps (opened ++ begun o ++ isolation o)

/-- The work is done before its deadline. -/
def Completes (c : Connection ρ) (o : TransactionOptions) (steps : List Step) : Prop :=
  Isolated c o ∧ (alone c o steps).InTime c.timer o.timeout ∧ ∃ a, (alone c o steps).result = .ok a

/-- The isolation level is refused, the work fails, or its deadline passes. -/
inductive Fails (c : Connection ρ) (o : TransactionOptions) (steps : List Step) : Prop where
  | isolation {level : IsolationLevel} {why : Failure} (h : level ∈ o.isolation)
      (hreply : c.reply (.isolate level) (opened ++ begun o) = .error why)
  | work {why : Failure} (h : Isolated c o) (hintime : (alone c o steps).InTime c.timer o.timeout)
      (hresult : (alone c o steps).result = .error why)
  | deadline {d : Duration} (h : Isolated c o) (hd : d ∈ o.timeout)
      (hlate : c.timer.fires d < (alone c o steps).length)

def Settled.failure (label : String) : Settled α → Option Failure
  | .completed _ => none
  | .failed why => some why
  | .timedOut after => some (.timeout label after)

def Settled.notice (label : String) : Settled α → Log
  | .completed _ => []
  | .failed _ => []
  | .timedOut after => [.event (.timedOut label after)]

def rollbackEvent (label : String) : Except Failure Unit → Event
  | .ok () => .rolledBack label
  | .error why => .rollbackFailed label why

/-- What is told of a unit of work. -/
inductive WorkTold (timer : Timer) (timeout : Option Duration) (alone : Course (Except Failure α)) :
    Option (Settled α) → Log → Prop where
  | dropped {log : Log} (h : alone.Stops log) : WorkTold timer timeout alone none log
  | completed {a : α} (h : alone.InTime timer timeout) (hresult : alone.result = .ok a) :
      WorkTold timer timeout alone (some (.completed a)) alone.log
  | failed {why : Failure} (h : alone.InTime timer timeout) (hresult : alone.result = .error why) :
      WorkTold timer timeout alone (some (.failed why)) alone.log
  | timedOut {d : Duration} (h : d ∈ timeout) (hlate : timer.fires d < alone.length) :
      WorkTold timer timeout alone (some (.timedOut d)) (alone.upTo (timer.fires d))

/-- What is told of the isolation level. -/
inductive IsolateTold (c : Connection ρ) (o : TransactionOptions) :
    Option (Except Failure Unit) → Log → Prop where
  | isolating {level : IsolationLevel} (h : level ∈ o.isolation) :
      IsolateTold c o none (isolation o)
  | unisolated {level : IsolationLevel} {why : Failure} (h : level ∈ o.isolation)
      (hreply : c.reply (.isolate level) (opened ++ begun o) = .error why) :
      IsolateTold c o (some (.error why)) (isolation o)
  | isolated (h : Isolated c o) : IsolateTold c o (some (.ok ())) (isolation o)

/-- What is told between the beginning of a transaction and its end. -/
inductive SettleTold (c : Connection ρ) (o : TransactionOptions) (steps : List Step) :
    Option (Settled (List (Outcome ρ))) → Log → Prop where
  | isolating {level : IsolationLevel} (h : level ∈ o.isolation) :
      SettleTold c o steps none (isolation o)
  | unisolated {level : IsolationLevel} {why : Failure} (h : level ∈ o.isolation)
      (hreply : c.reply (.isolate level) (opened ++ begun o) = .error why) :
      SettleTold c o steps (some (.failed why)) (isolation o)
  | working {r : Option (Settled (List (Outcome ρ)))} {log : Log} (h : Isolated c o)
      (hwork : WorkTold c.timer o.timeout (alone c o steps) r log) :
      SettleTold c o steps r (isolation o ++ log)

/-- What is told of the end of a transaction that has settled. -/
inductive FinishTold (c : Connection ρ) (label : String) (past : Log) :
    Settled α → Option (Except Failure α) → Log → Prop where
  | committing {a : α} :
      FinishTold c label past (.completed a) none [.sent Control.commit.message]
  | uncommitted {a : α} {why : Failure} (h : c.reply .commit past = .error why) :
      FinishTold c label past (.completed a) (some (.error why)) [.sent Control.commit.message]
  | committed {a : α} (h : c.reply .commit past = .ok ()) :
      FinishTold c label past (.completed a) (some (.ok a))
        [.sent Control.commit.message, .entered .committed, .event (.committed label)]
  | rollingBack {s : Settled α} {why : Failure} (h : s.failure label = some why) :
      FinishTold c label past s none (s.notice label ++ [.sent Control.rollback.message])
  | rolledBack {s : Settled α} {why : Failure} (h : s.failure label = some why) :
      FinishTold c label past s (some (.error why))
        (s.notice label ++ [.sent Control.rollback.message,
          .event (rollbackEvent label (c.reply .rollback past)), .entered .rolledBack])

/-- What is told of a transaction on a connection that was acquired. -/
inductive TransactTold (c : Connection ρ) (o : TransactionOptions) (steps : List Step) :
    Option (Except Failure (List (Outcome ρ))) → Log → Prop where
  | starting : TransactTold c o steps none [.sent Control.start.message]
  | unstarted {why : Failure} (h : c.reply .start opened = .error why) :
      TransactTold c o steps (some (.error why)) [.sent Control.start.message]
  | unsettled {log : Log} (h : c.reply .start opened = .ok ())
      (hsettle : SettleTold c o steps none log) : TransactTold c o steps none (begun o ++ log)
  | settled {s : Settled (List (Outcome ρ))} {r : Option (Except Failure (List (Outcome ρ)))}
      {log rest : Log} (h : c.reply .start opened = .ok ())
      (hsettle : SettleTold c o steps (some s) log)
      (hfinish : FinishTold c o.label (opened ++ begun o ++ log) s r rest) :
      TransactTold c o steps r (begun o ++ log ++ rest)

/-- The connection is acquired before the run is dropped. -/
def Acquisition.Succeeds (acquisition : Acquisition) (limit : Option Nat) : Prop :=
  acquisition.outcome = .ok () ∧ ∀ t ∈ limit, acquisition.delay ≤ t

/-- What is told of a run that is dropped at the limit, if there is one. -/
inductive RunTold (acquisition : Acquisition) (c : Connection ρ) (o : TransactionOptions)
    (steps : List Step) (limit : Option Nat) :
    Option (Except Failure (List (Outcome ρ))) → Log → Prop where
  | unavailable {why : Failure} (h : acquisition.outcome = .error why) :
      RunTold acquisition c o steps limit (some (.error why)) []
  | waiting {t : Nat} (h : t ∈ limit) (hlate : t < acquisition.delay) :
      RunTold acquisition c o steps limit none []
  | returned {r : Except Failure (List (Outcome ρ))} {log : Log} (h : acquisition.Succeeds limit)
      (htold : TransactTold c o steps (some r) log) :
      RunTold acquisition c o steps limit (some r)
        (opened ++ log ++ releasing (opened ++ log).phase)
  | dropped {log : Log} (h : acquisition.Succeeds limit)
      (htold : TransactTold c o steps none log) :
      RunTold acquisition c o steps limit none (opened ++ log ++ farewell (opened ++ log))

section

variable {ρ α : Type} {c : Connection ρ} {o : TransactionOptions} {steps : List Step} {past : Log}
  {label : String}

theorem Completes.not_fails (h : Completes c o steps) : ¬Fails c o steps := by
  obtain ⟨hisolated, hintime, a, hresult⟩ := h
  intro hfails
  cases hfails with
  | isolation hlevel hreply =>
    rw [hisolated _ hlevel] at hreply
    cases hreply
  | work _ _ herror =>
    rw [hresult] at herror
    cases herror
  | deadline _ hd hlate => exact Nat.not_le_of_lt hlate (hintime _ hd)

theorem WorkTold.ofResult {timer : Timer} {timeout : Option Duration}
    {alone : Course (Except Failure α)} (h : alone.InTime timer timeout) :
    WorkTold timer timeout alone (some (.ofResult alone.result)) alone.log := by
  cases hresult : alone.result with
  | ok a => exact .completed h hresult
  | error why => exact .failed h hresult

theorem work_tells (c : Connection ρ) (timeout : Option Duration) (steps : List Step) (past : Log) :
    (work c timeout steps).Tells past (WorkTold c.timer timeout (performAll c steps past)) := by
  have htimely := (works_performAll c steps past).timely
  cases timeout with
  | none =>
    apply (Session.Tells.exact htimely).bind
    · rintro log (⟨hr, _⟩ | ⟨_, hstops⟩)
      · cases hr
      · exact .dropped hstops
    · rintro r log (⟨hr, rfl⟩ | ⟨hr, _⟩)
      · apply Session.Tells.pure
        rw [List.append_nil, Option.some.inj hr]
        exact .ofResult fun d hd => absurd hd (Option.not_mem_none d)
      · cases hr
  | some d =>
    have hwithin : (Session.within (c.timer.fires d) (performAll c steps)).Tells past
        fun r log => WorkTold c.timer (some d) (performAll c steps past)
          (r.map fun r => r.elim (.timedOut d) .ofResult) log := by
      apply Session.Tells.within htimely
      · exact fun hle => .ofResult (by simpa [Course.InTime] using hle)
      · exact fun hlate => .timedOut (Option.mem_some_self d) hlate
      · exact fun log hstops => .dropped hstops
    apply hwithin.bind
    · exact fun _ hlog => hlog
    · intro r log hlog
      cases r with
      | none =>
        apply Session.Tells.pure
        rw [List.append_nil]
        exact hlog
      | some r =>
        apply Session.Tells.pure
        rw [List.append_nil]
        exact hlog

theorem rollback_tells (c : Connection ρ) (label : String) (past : Log) :
    (rollback c label).Tells past fun r log =>
      (r = none ∧ log = [.sent Control.rollback.message]) ∨
        (r = some () ∧ log = [.sent Control.rollback.message,
          .event (rollbackEvent label (c.reply .rollback past))]) := by
  apply (control_tells c .rollback past).bind
  · rintro log ⟨_, rfl⟩
    exact .inl ⟨rfl, rfl⟩
  · rintro r log ⟨hr, rfl⟩
    rw [← hr r rfl]
    cases r with
    | ok => exact .note (.inr ⟨rfl, rfl⟩)
    | error why => exact .note (.inr ⟨rfl, rfl⟩)

theorem unwind_tells (c : Connection ρ) (label : String) (past : Log) {s : Settled α}
    {why : Failure} (h : s.failure label = some why) :
    (do rollback c label; Session.enter .rolledBack; return .error why :
      Session (Except Failure α)).Tells (past ++ s.notice label) fun r log =>
        FinishTold c label past s r (s.notice label ++ log) := by
  have hreply : c.reply .rollback (past ++ s.notice label) = c.reply .rollback past := by
    have hnotice : Log.messages (s.notice label) = [] := by
      cases s <;> rfl
    rw [Connection.reply, Log.messages_append, hnotice, List.append_nil, Connection.reply]
  apply (rollback_tells c label (past ++ s.notice label)).bind
  · rintro log (⟨_, rfl⟩ | ⟨hr, _⟩)
    · exact .rollingBack h
    · cases hr
  · rintro r log (⟨hr, _⟩ | ⟨_, rfl⟩)
    · cases hr
    · apply Session.Tells.afterNote
      apply Session.Tells.pure
      rw [hreply]
      exact .rolledBack h

theorem finish_tells (c : Connection ρ) (label : String) (s : Settled α) (past : Log) :
    (finish c label s).Tells past (FinishTold c label past s) := by
  cases s with
  | completed a =>
    apply (control_tells c .commit past).bind
    · rintro log ⟨_, rfl⟩
      exact .committing
    · rintro r log ⟨hr, rfl⟩
      have hreply := hr r rfl
      cases r with
      | error why => exact .pure (.uncommitted hreply.symm)
      | ok =>
        apply Session.Tells.afterNote
        apply Session.Tells.afterNote
        exact .pure (.committed hreply.symm)
  | failed why =>
    have hunwind := unwind_tells c label past (s := (.failed why : Settled α)) rfl
    rw [Settled.notice, List.append_nil] at hunwind
    exact hunwind
  | timedOut after =>
    apply Session.Tells.afterNote
    exact unwind_tells c label past (s := .timedOut after) rfl

theorem isolate_tells (c : Connection ρ) (o : TransactionOptions) :
    (isolate c o.isolation).Tells (opened ++ begun o) (IsolateTold c o) := by
  cases hlevel : o.isolation with
  | none =>
    have hlog : isolation o = [] := by
      rw [isolation, hlevel]
      rfl
    apply Session.Tells.pure
    rw [← hlog]
    apply IsolateTold.isolated
    intro level hmem
    rw [hlevel] at hmem
    cases hmem
  | some level =>
    have hlog : isolation o = [.sent (Control.isolate level).message] := by
      rw [isolation, hlevel]
      rfl
    apply (control_tells c (.isolate level) _).mono
    rintro r log ⟨hr, rfl⟩
    rw [← hlog]
    rcases r with _ | why | _
    · exact .isolating hlevel
    · exact .unisolated hlevel (hr _ rfl).symm
    · apply IsolateTold.isolated
      intro level' hmem
      rw [hlevel] at hmem
      rw [← Option.some.inj hmem]
      exact (hr _ rfl).symm

theorem transact_tells (c : Connection ρ) (o : TransactionOptions) (steps : List Step) :
    (transact c o steps).Tells opened (TransactTold c o steps) := by
  apply (control_tells c .start opened).bind
  · rintro log ⟨_, rfl⟩
    exact .starting
  rintro r log ⟨hr, rfl⟩
  have hstart := hr r rfl
  cases r with
  | error why => exact .pure (.unstarted hstart.symm)
  | ok =>
    apply Session.Tells.afterNote
    apply Session.Tells.afterNote
    apply (isolate_tells c o).bind
    · rintro log ⟨hlevel⟩
      exact .unsettled hstart.symm (.isolating hlevel)
    intro r log hisolate
    cases hisolate with
    | unisolated hlevel hreply =>
      apply (finish_tells c o.label (.failed _) _).mono
      intro r rest hfinish
      have htold : TransactTold c o steps r (begun o ++ isolation o ++ rest) :=
        .settled hstart.symm (.unisolated hlevel hreply) hfinish
      exact htold
    | isolated hisolated =>
      apply (work_tells c o.timeout steps _).bind
      · exact fun log hwork => .unsettled hstart.symm (.working hisolated hwork)
      · intro s log hwork
        apply (finish_tells c o.label s _).mono
        intro r rest hfinish
        rw [List.append_assoc] at hfinish
        have htold := TransactTold.settled hstart.symm (.working hisolated hwork) hfinish
        rw [List.append_assoc, List.append_assoc] at htold
        exact htold

/-- What a run does once its connection is acquired. -/
def held (c : Connection ρ) (o : TransactionOptions) (steps : List Step) :
    Session (Except Failure (List (Outcome ρ))) := do
  Session.note opened
  let result ← transact c o steps
  Session.note (releasing (← Session.phase))
  return result

theorem held_tells (c : Connection ρ) (o : TransactionOptions) (steps : List Step) :
    (held c o steps).Tells [] fun r log => ∃ told, TransactTold c o steps r told ∧
      log = opened ++ told ++ r.elim [] fun _ => releasing (opened ++ told).phase := by
  apply Session.Tells.afterNote
  apply (transact_tells c o steps).bind
  · intro log htold
    refine ⟨log, htold, ?_⟩
    rw [Option.elim_none, List.append_nil]
  · intro r log htold
    apply Session.Tells.afterPhase
    apply Session.Tells.afterNote
    apply Session.Tells.pure
    refine ⟨log, htold, ?_⟩
    rw [List.append_nil]
    rfl

theorem run_of_ok {acquisition : Acquisition} (h : acquisition.outcome = .ok ()) :
    run acquisition c o steps [] =
      Course.append ⟨[], acquisition.delay, ()⟩ (held c o steps []) := by
  rw [run]
  rw [h]
  rfl

theorem run_of_error {acquisition : Acquisition} {why : Failure}
    (h : acquisition.outcome = .error why) :
    run acquisition c o steps [] = ⟨[], acquisition.delay, .error why⟩ := by
  rw [run]
  rw [h]
  rfl

theorem abandonAt_of_le {limit : Nat} {k : Course α} (h : k.length ≤ limit) :
    abandonAt limit k = { k with result := some k.result } := by
  have hcut : k.cut limit = { k with result := some k.result } := if_pos h
  rw [abandonAt, hcut]

theorem abandonAt_of_lt {limit : Nat} {k : Course α} (h : limit < k.length) :
    (abandonAt limit k).result = none ∧
      (abandonAt limit k).log = k.upTo limit ++ farewell (k.upTo limit) := by
  have hcut : k.cut limit = ⟨k.entries.takeWhile fun e => e.1 ≤ limit, limit, none⟩ :=
    if_neg (Nat.not_le_of_lt h)
  rw [abandonAt, hcut]
  refine ⟨rfl, ?_⟩
  rw [Course.log, List.map_append, List.map_map]
  exact congrArg _ (List.map_id _)

theorem runUntil_waiting (c : Connection ρ) (o : TransactionOptions) (steps : List Step)
    {acquisition : Acquisition} {t : Nat} (h : t < acquisition.delay) :
    (runUntil acquisition c o steps (some t)).result = none ∧
      (runUntil acquisition c o steps (some t)).log = [] := by
  obtain ⟨rest, hrun⟩ : ∃ rest, run acquisition c o steps [] =
      Course.append ⟨[], acquisition.delay, ()⟩ rest := ⟨_, rfl⟩
  have hlength : t < (run acquisition c o steps []).length := by
    rw [hrun]
    exact Nat.lt_add_right _ h
  have hupTo : (run acquisition c o steps []).upTo t = [] := by
    rw [hrun, Course.upTo_append_of_lt h]
    rfl
  obtain ⟨hresult, hlog⟩ := abandonAt_of_lt hlength
  refine ⟨hresult, hlog.trans ?_⟩
  rw [hupTo, farewell, if_neg List.not_mem_nil, List.nil_append]

theorem run_told {acquisition : Acquisition} {limit : Option Nat}
    (h : ∀ t ∈ limit, acquisition.delay ≤ t) :
    RunTold acquisition c o steps limit (some (run acquisition c o steps []).result)
      (run acquisition c o steps []).log := by
  cases houtcome : acquisition.outcome with
  | error why =>
    rw [run_of_error houtcome]
    exact .unavailable houtcome
  | ok =>
    rw [run_of_ok houtcome, Course.log_append]
    obtain ⟨told, htold, hlog⟩ := (held_tells c o steps).ended
    rw [hlog]
    exact .returned ⟨houtcome, h⟩ htold

/-- What has happened when a run is dropped after its connection is acquired. -/
theorem upTo_told {acquisition : Acquisition} {t : Nat} (hdelay : acquisition.delay ≤ t)
    (h : t < (run acquisition c o steps []).length) : acquisition.outcome = .ok () ∧
      ∃ told, TransactTold c o steps none told ∧
        (run acquisition c o steps []).upTo t = opened ++ told := by
  cases houtcome : acquisition.outcome with
  | error why =>
    rw [run_of_error houtcome] at h
    exact absurd h (Nat.not_lt_of_le hdelay)
  | ok =>
    rw [run_of_ok houtcome] at h ⊢
    have hstops : (held c o steps []).Stops ((held c o steps []).upTo (t - acquisition.delay)) := by
      refine ⟨_, ?_, rfl⟩
      change t < acquisition.delay + _ at h
      omega
    obtain ⟨told, htold, hlog⟩ := (held_tells c o steps).dropped _ hstops
    rw [Option.elim_none, List.append_nil] at hlog
    rw [Course.upTo_append_of_le (fun e he => absurd he List.not_mem_nil) hdelay, hlog]
    exact ⟨rfl, told, htold, rfl⟩

theorem dropped_told {acquisition : Acquisition} {t : Nat} (hdelay : acquisition.delay ≤ t)
    (h : t < (run acquisition c o steps []).length) :
    RunTold acquisition c o steps (some t) none ((run acquisition c o steps []).upTo t ++
      farewell ((run acquisition c o steps []).upTo t)) := by
  obtain ⟨houtcome, told, htold, hupTo⟩ := upTo_told hdelay h
  rw [hupTo]
  exact .dropped ⟨houtcome, by simpa using hdelay⟩ htold

/-- All that can happen in a run. -/
theorem runUntil_told (acquisition : Acquisition) (c : Connection ρ) (o : TransactionOptions)
    (steps : List Step) (limit : Option Nat) :
    RunTold acquisition c o steps limit (runUntil acquisition c o steps limit).result
      (runUntil acquisition c o steps limit).log := by
  cases limit with
  | none => exact run_told fun t ht => absurd ht (Option.not_mem_none t)
  | some t =>
    by_cases hlate : t < acquisition.delay
    · obtain ⟨hresult, hlog⟩ := runUntil_waiting c o steps hlate
      rw [hresult, hlog]
      exact .waiting rfl hlate
    have hdelay := Nat.le_of_not_lt hlate
    by_cases hended : (run acquisition c o steps []).length ≤ t
    · rw [runUntil, abandonAt_of_le hended]
      exact run_told (by simpa using hdelay)
    · have hlength := Nat.lt_of_not_le hended
      obtain ⟨hresult, hlog⟩ := abandonAt_of_lt hlength
      rw [runUntil, hresult, hlog]
      exact dropped_told hdelay hlength

end

end Transaction

end Quarry
