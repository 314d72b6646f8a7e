import Quarry.Proofs.Transaction.Forks
import Quarry.Proofs.Transaction.Orderly

namespace Quarry

namespace Transaction

/-- The run is not dropped before that time. -/
def Reached (limit : Option Nat) (time : Nat) : Prop :=
  ∀ t ∈ limit, time ≤ t

/-- What a transaction does between its beginning and its end. -/
def settle (c : Connection ρ) (o : TransactionOptions) (steps : List Step) :
    Session (Settled (List (Outcome ρ))) := do
  match ← isolate c o.isolation with
  | .error why => return .failed why
  | .ok () => work c o.timeout steps

def settling (c : Connection ρ) (o : TransactionOptions) (steps : List Step) :
    Course (Settled (List (Outcome ρ))) :=
  settle c o steps (opened ++ begun o)

/-- All that happens before a transaction is ended. -/
def unended (c : Connection ρ) (o : TransactionOptions) (steps : List Step) : Log :=
  opened ++ begun o ++ (settling c o steps).log

/-- The time of the reply to `BEGIN`. -/
def startedAt (acquisition : Acquisition) (c : Connection ρ) : Nat :=
  acquisition.delay + c.delay .start opened

/-- The time of the reply to the isolation level, if there is one. -/
def isolatedAt (acquisition : Acquisition) (c : Connection ρ) (o : TransactionOptions) : Nat :=
  startedAt acquisition c + (isolate c o.isolation (opened ++ begun o)).length

/-- The time at which the work is done or given up. -/
def settledAt (acquisition : Acquisition) (c : Connection ρ) (o : TransactionOptions)
    (steps : List Step) : Nat :=
  startedAt acquisition c + (settling c o steps).length

/-- The time of the reply to `COMMIT` or `ROLLBACK`. -/
def endedAt (acquisition : Acquisition) (c : Connection ρ) (o : TransactionOptions)
    (steps : List Step) (k : Control) : Nat :=
  settledAt acquisition c o steps + c.delay k (unended c o steps)

/-- What is told of a transaction, and when it is dropped if it does not run to its end. -/
inductive Comes (acquisition : Acquisition) (c : Connection ρ) (o : TransactionOptions)
    (steps : List Step) (limit : Option Nat) :
    Option (Except Failure (List (Outcome ρ))) → Log → Prop where
  | starting (hlate : ¬Reached limit (startedAt acquisition c)) :
      Comes acquisition c o steps limit none [.sent Control.start.message]
  | unstarted {why : Failure} (hreply : c.reply .start opened = .error why) :
      Comes acquisition c o steps limit (some (.error why)) [.sent Control.start.message]
  | working {log : Log} (hreply : c.reply .start opened = .ok ())
      (hreached : Reached limit (startedAt acquisition c))
      (hlate : ¬Reached limit (settledAt acquisition c o steps))
      (hsettle : SettleTold c o steps none log) :
      Comes acquisition c o steps limit none (begun o ++ log)
  | ending {rest : Log} (hreply : c.reply .start opened = .ok ())
      (hreached : Reached limit (settledAt acquisition c o steps))
      (hlate : ¬Reached limit (endedAt acquisition c o steps (settling c o steps).result.ending))
      (hfinish : FinishTold c o.label (unended c o steps) (settling c o steps).result none rest) :
      Comes acquisition c o steps limit none (begun o ++ (settling c o steps).log ++ rest)
  | ended {r : Except Failure (List (Outcome ρ))} {rest : Log}
      (hreply : c.reply .start opened = .ok ())
      (hreached : Reached limit (endedAt acquisition c o steps (settling c o steps).result.ending))
      (hfinish : FinishTold c o.label (unended c o steps) (settling c o steps).result (some r)
        rest) :
      Comes acquisition c o steps limit (some r) (begun o ++ (settling c o steps).log ++ rest)

section

variable {ρ α : Type} {acquisition : Acquisition} {c : Connection ρ} {o : TransactionOptions}
  {steps : List Step} {past : Log} {label : String} {limit : Option Nat}

theorem settle_tells (c : Connection ρ) (o : TransactionOptions) (steps : List Step) :
    (settle c o steps).Tells (opened ++ begun o) (SettleTold c o steps) := by
  apply (isolate_tells c o).bind
  · rintro log ⟨hlevel⟩
    exact .isolating hlevel
  intro r log hisolate
  cases hisolate with
  | unisolated hlevel hreply =>
    apply Session.Tells.pure
    rw [List.append_nil]
    exact .unisolated hlevel hreply
  | isolated hisolated =>
    apply (work_tells c o.timeout steps _).mono
    intro r log hwork
    exact .working hisolated hwork

theorem settling_told (c : Connection ρ) (o : TransactionOptions) (steps : List Step) :
    SettleTold c o steps (some (settling c o steps).result) (settling c o steps).log :=
  (settle_tells c o steps).ended

theorem IsolateTold.of_isolated {r : Except Failure Unit} {log : Log}
    (h : IsolateTold c o (some r) log) (hisolated : Isolated c o) :
    r = .ok () ∧ log = isolation o := by
  cases h with
  | unisolated hlevel hreply =>
    rw [hisolated _ hlevel] at hreply
    cases hreply
  | isolated => exact ⟨rfl, rfl⟩

theorem length_work_of_late {d : Duration}
    (h : c.timer.fires d < (performAll c steps past).length) :
    (work c (some d) steps past).length = c.timer.fires d := by
  have hcut : Session.within (c.timer.fires d) (performAll c steps) past =
      ⟨(performAll c steps past).entries.takeWhile fun e => e.1 ≤ c.timer.fires d,
        c.timer.fires d, none⟩ :=
    if_neg (Nat.not_le_of_lt h)
  change Course.length (Course.append (Session.within _ (performAll c steps) past) _) = _
  rw [hcut]
  exact Nat.add_zero (c.timer.fires d)

/-- Work that is not done by its deadline is given up right then. -/
theorem settledAt_of_late {d : Duration} (hisolated : Isolated c o) (hd : d ∈ o.timeout)
    (h : c.timer.fires d < (alone c o steps).length) :
    settledAt acquisition c o steps = isolatedAt acquisition c o + c.timer.fires d := by
  obtain ⟨hresult, hlog⟩ := (isolate_tells c o).ended.of_isolated hisolated
  have hsettling : settling c o steps = (isolate c o.isolation (opened ++ begun o)).append
      (work c (some d) steps (opened ++ begun o ++ isolation o)) := by
    change Course.append _ _ = _
    rw [hresult, hlog, hd]
  rw [settledAt, isolatedAt, hsettling]
  change _ + (_ + Course.length (work _ _ _ _)) = _
  rw [length_work_of_late h]
  exact (Nat.add_assoc _ _ _).symm

theorem delay_congr {past past' : Log} (h : past.messages = past'.messages) (k : Control) :
    c.delay k past = c.delay k past' := by
  have hcontrol : c.control k past = c.control k past' := by
    rw [Connection.control, Connection.perform, exchange, exchange, h]
  rw [Connection.delay, hcontrol, Connection.delay]

theorem length_rollback (c : Connection ρ) (label : String) (past : Log) :
    (rollback c label past).length = c.delay .rollback past := by
  change Course.length (Course.append (c.control .rollback past) _) = _
  rw [control_course, Course.append]
  dsimp only
  cases c.reply .rollback past <;> rfl

theorem length_finish (c : Connection ρ) (label : String) (s : Settled α) (past : Log) :
    (finish c label s past).length = c.delay s.ending past := by
  cases s with
  | completed a =>
    change Course.length (Course.append (c.control .commit past) _) = _
    rw [control_course, Course.append]
    dsimp only
    cases c.reply .commit past <;> rfl
  | failed why =>
    exact length_rollback c label past
  | timedOut after =>
    have hnotice : c.delay .rollback (past ++ [.event (.timedOut label after)]) =
        c.delay .rollback past := by
      apply delay_congr
      rw [Log.messages_append]
      exact List.append_nil _
    change 0 + (rollback c label (past ++ [.event (.timedOut label after)])).length = _
    rw [length_rollback, hnotice, Nat.zero_add]
    rfl

theorem pure_bind {β : Type} (a : α) (f : α → Session β) :
    Session.bind (Session.pure a) f = f a := by
  funext past
  change Course.append ⟨[], 0, a⟩ (f a (past ++ [])) = f a past
  rw [Course.nil_append, List.append_nil]

theorem settle_bind (c : Connection ρ) (o : TransactionOptions) (steps : List Step) :
    settle c o steps >>= finish c o.label = (do
      match ← isolate c o.isolation with
      | .error why => finish c o.label (.failed why)
      | .ok () => do
        let settled ← work c o.timeout steps
        finish c o.label settled) := by
  change Session.bind (Session.bind _ _) _ = _
  rw [Session.bind_assoc]
  congr 1
  funext r
  cases r with
  | error why => exact pure_bind _ _
  | ok => rfl

def beginning (c : Connection ρ) (o : TransactionOptions) : Course Unit where
  entries := [(0, .sent Control.start.message), (c.delay .start opened, .entered .begun),
    (c.delay .start opened, .event (.begun o))]
  length := c.delay .start opened
  result := ()

theorem timely_beginning (c : Connection ρ) (o : TransactionOptions) : (beginning c o).Timely := by
  intro e he
  rcases List.mem_cons.1 he with rfl | he
  · exact Nat.zero_le _
  · rcases List.mem_pair.1 he with rfl | rfl
    · exact Nat.le_refl _
    · exact Nat.le_refl _

theorem upTo_beginning {t : Nat} (h : t < (beginning c o).length) :
    (beginning c o).upTo t = [.sent Control.start.message] := by
  have hlate : ¬c.delay .start opened ≤ t := Nat.not_le_of_lt h
  simp [Course.upTo, beginning, hlate]

theorem transact_of_started (h : c.reply .start opened = .ok ()) :
    transact c o steps opened = (beginning c o).append ((settling c o steps).append
      (finish c o.label (settling c o steps).result (unended c o steps))) := by
  have hcontrol := control_course c .start opened
  rw [h] at hcontrol
  have hsettle := congrFun (settle_bind c o steps) (opened ++ begun o)
  change (settling c o steps).append
    (finish c o.label (settling c o steps).result (unended c o steps)) = _ at hsettle
  have hbeginning : beginning c o =
      (Course.append ⟨[(0, .sent Control.start.message)], c.delay .start opened, ()⟩
        ⟨[(0, .entered .begun)], 0, ()⟩).append ⟨[(0, .event (.begun o))], 0, ()⟩ := rfl
  rw [hsettle, hbeginning, Course.append_assoc, Course.append_assoc]
  change Course.append (c.control .start opened) _ = _
  rw [hcontrol]
  rfl

theorem transact_of_unstarted {why : Failure} (h : c.reply .start opened = .error why) :
    transact c o steps opened =
      ⟨[(0, .sent Control.start.message)], c.delay .start opened, .error why⟩ := by
  have hcontrol := control_course c .start opened
  rw [h] at hcontrol
  change Course.append (c.control .start opened) _ = _
  rw [hcontrol]
  rfl

theorem reached_some {t time : Nat} : Reached (some t) time ↔ time ≤ t := by
  simp [Reached]

theorem Reached.mono {time time' : Nat} (h : Reached limit time') (hle : time ≤ time') :
    Reached limit time :=
  fun t ht => Nat.le_trans hle (h t ht)

theorem length_transact_of_started (h : c.reply .start opened = .ok ()) :
    acquisition.delay + (transact c o steps opened).length =
      endedAt acquisition c o steps (settling c o steps).result.ending := by
  rw [transact_of_started h]
  change _ + (_ + (_ + Course.length (finish _ _ _ _))) = _
  rw [length_finish, endedAt, settledAt, startedAt]
  change _ + (c.delay .start opened + _) = _
  omega

theorem ended_comes (h : Reached limit (acquisition.delay + (transact c o steps opened).length)) :
    Comes acquisition c o steps limit (some (transact c o steps opened).result)
      (transact c o steps opened).log := by
  cases hreply : c.reply .start opened with
  | error why =>
    rw [transact_of_unstarted hreply]
    exact .unstarted hreply
  | ok =>
    rw [length_transact_of_started hreply] at h
    rw [transact_of_started hreply, Course.log_append, Course.log_append, ← List.append_assoc]
    exact .ended hreply h (finish_tells c o.label _ _).ended

theorem dropped_comes {t : Nat} (hdelay : acquisition.delay ≤ t)
    (h : t < acquisition.delay + (transact c o steps opened).length) :
    Comes acquisition c o steps (some t) none
      ((transact c o steps opened).upTo (t - acquisition.delay)) := by
  cases hreply : c.reply .start opened with
  | error why =>
    rw [transact_of_unstarted hreply] at h ⊢
    have hlate : ¬Reached (some t) (startedAt acquisition c) := by
      rw [reached_some, startedAt]
      exact Nat.not_le_of_lt h
    exact .starting hlate
  | ok =>
    rw [length_transact_of_started hreply] at h
    rw [transact_of_started hreply]
    by_cases hstarting : t < startedAt acquisition c
    · have hlimit : t - acquisition.delay < (beginning c o).length := by
        change _ < c.delay .start opened
        rw [startedAt] at hstarting
        omega
      rw [Course.upTo_append_of_lt hlimit, upTo_beginning hlimit]
      exact .starting (reached_some.not.2 (Nat.not_le_of_lt hstarting))
    have hstarted : startedAt acquisition c ≤ t := Nat.le_of_not_lt hstarting
    have hbegun : (beginning c o).length ≤ t - acquisition.delay := by
      change c.delay .start opened ≤ _
      rw [startedAt] at hstarted
      omega
    have htimely : (settling c o steps).Timely := (settle_tells c o steps).timely
    rw [Course.upTo_append_of_le (timely_beginning c o) hbegun]
    have hrest : t - acquisition.delay - (beginning c o).length = t - startedAt acquisition c :=
      Nat.sub_sub _ _ _
    rw [hrest]
    by_cases hsettling : t < settledAt acquisition c o steps
    · have hlimit : t - startedAt acquisition c < (settling c o steps).length := by
        rw [settledAt] at hsettling
        omega
      rw [Course.upTo_append_of_lt hlimit]
      have hdropped := (settle_tells c o steps).dropped _ ⟨_, hlimit, rfl⟩
      exact .working hreply (reached_some.2 hstarted)
        (reached_some.not.2 (Nat.not_le_of_lt hsettling)) hdropped
    · have hsettled : settledAt acquisition c o steps ≤ t := Nat.le_of_not_lt hsettling
      have hlimit : (settling c o steps).length ≤ t - startedAt acquisition c := by
        rw [settledAt] at hsettled
        omega
      have hending : t - startedAt acquisition c - (settling c o steps).length <
          (finish c o.label (settling c o steps).result (unended c o steps)).length := by
        rw [length_finish]
        rw [endedAt, settledAt] at h
        omega
      rw [Course.upTo_append_of_le htimely hlimit, ← List.append_assoc]
      have hdropped := (finish_tells c o.label _ _).dropped _ ⟨_, hending, rfl⟩
      exact .ending hreply (reached_some.2 hsettled) (reached_some.not.2 (Nat.not_le_of_lt h))
        hdropped

def acquiring (acquisition : Acquisition) : Course Unit :=
  ⟨opened.map fun e => (acquisition.delay, e), acquisition.delay, ()⟩

def release (log : Log) (a : α) : Course α :=
  ⟨(releasing log.phase).map fun e => (0, e), 0, a⟩

theorem timely_acquiring (acquisition : Acquisition) : (acquiring acquisition).Timely := by
  intro e he
  obtain ⟨e', _, rfl⟩ := List.mem_map.1 he
  exact Nat.le_refl _

theorem run_course (c : Connection ρ) (o : TransactionOptions) (steps : List Step)
    (h : acquisition.outcome = .ok ()) : run acquisition c o steps [] =
      (acquiring acquisition).append ((transact c o steps opened).append
        (release (opened ++ (transact c o steps opened).log)
          (transact c o steps opened).result)) := by
  have hheld : held c o steps [] = Course.append ⟨opened.map fun e => (0, e), 0, ()⟩
      ((transact c o steps opened).append (release (opened ++ (transact c o steps opened).log)
        (transact c o steps opened).result)) := rfl
  rw [run_of_ok h, hheld, ← Course.append_assoc]
  rfl

theorem length_run (c : Connection ρ) (o : TransactionOptions) (steps : List Step)
    (h : acquisition.outcome = .ok ()) : (run acquisition c o steps []).length =
      acquisition.delay + (transact c o steps opened).length := by
  rw [run_course c o steps h]
  rfl

theorem upTo_run (h : acquisition.outcome = .ok ()) {t : Nat} (hdelay : acquisition.delay ≤ t)
    (hlate : t < (run acquisition c o steps []).length) :
    (run acquisition c o steps []).upTo t =
      opened ++ (transact c o steps opened).upTo (t - acquisition.delay) := by
  have hlimit : t - acquisition.delay < (transact c o steps opened).length := by
    rw [length_run c o steps h] at hlate
    omega
  rw [run_course c o steps h, Course.upTo_append_of_le (timely_acquiring acquisition) hdelay]
  change opened ++ Course.upTo (t - acquisition.delay) _ = _
  rw [Course.upTo_append_of_lt hlimit]

/-- What is told of a run on a connection that is acquired. -/
theorem runUntil_comes (c : Connection ρ) (o : TransactionOptions) (steps : List Step)
    (h : acquisition.Succeeds limit) : ∃ told,
      Comes acquisition c o steps limit (runUntil acquisition c o steps limit).result told ∧
        (runUntil acquisition c o steps limit).log = opened ++ told ++
          warning (runUntil acquisition c o steps limit).result (opened ++ told).phase ++
            releasing (opened ++ told).phase := by
  obtain ⟨houtcome, hdelay⟩ := h
  by_cases hended : Reached limit (run acquisition c o steps []).length
  · have hrun : runUntil acquisition c o steps limit = { run acquisition c o steps [] with
        result := some (run acquisition c o steps []).result } := by
      cases limit with
      | none => rfl
      | some t => exact abandonAt_of_le (reached_some.1 hended)
    rw [length_run c o steps houtcome] at hended
    refine ⟨(transact c o steps opened).log, ?_, ?_⟩
    · rw [hrun, run_course c o steps houtcome]
      exact ended_comes hended
    · rw [hrun, run_course c o steps houtcome]
      change Course.log (Course.append _ _) = _
      rw [Course.log_append, Course.log_append, warning, List.append_nil, List.append_assoc]
      rfl
  · cases limit with
    | none => exact absurd (fun t ht => absurd ht (Option.not_mem_none t)) hended
    | some t =>
      have hlate := Nat.lt_of_not_le (reached_some.not.1 hended)
      obtain ⟨hresult, hlog⟩ := abandonAt_of_lt hlate
      have hupTo := upTo_run houtcome (hdelay t rfl) hlate
      have hmem : .acquired ∈ (run acquisition c o steps []).upTo t := by
        rw [hupTo]
        exact List.mem_append_left _ List.mem_cons_self
      refine ⟨(transact c o steps opened).upTo (t - acquisition.delay), ?_, ?_⟩
      · rw [length_run c o steps houtcome] at hlate
        rw [runUntil, hresult]
        exact dropped_comes (hdelay t rfl) hlate
      · rw [runUntil, hresult, hlog, farewell, if_pos hmem, hupTo, warning,
          List.append_assoc _ (ite _ _ _)]

end

end Transaction

end Quarry
