import Quarry.Proofs.Transaction.Steady
import Quarry.Proofs.Transaction.Verdict

namespace Quarry

namespace Transaction

/-- What is seen on a connection that is acquired, has a transaction with the given work, ended by
`k`, and is released. -/
def traffic (o : TransactionOptions) (work : List Message) (k : Control) : Log :=
  [.acquired, .sent Control.start.message] ++ isolation o ++ work.map .sent ++
    [.sent k.message, .released]

/-- The statements of the work that are sent before its deadline, or right on it. -/
def issued (c : Connection ρ) (o : TransactionOptions) (steps : List Step) (d : Duration) :
    List Message :=
  ((alone c o steps).byTime (c.timer.fires d)).messages

/-- What a deadline does to a transaction that is begun and isolated. -/
structure Truncates (acquisition : Acquisition) (c : Connection ρ) (o : TransactionOptions)
    (steps : List Step) : Prop where
  inTime : ∀ d, (alone c o steps).length ≤ c.timer.fires d →
    (run acquisition c { o with timeout := some d } steps []).result =
        (run acquisition c { o with timeout := none } steps []).result ∧
      (run acquisition c { o with timeout := some d } steps []).log.traffic =
        (run acquisition c { o with timeout := none } steps []).log.traffic
  late : ∀ d, c.timer.fires d < (alone c o steps).length →
    (run acquisition c { o with timeout := some d } steps []).result =
        .error (.timeout o.label d) ∧
      (run acquisition c { o with timeout := some d } steps []).log.traffic =
        traffic o (issued c o steps d) .rollback
  statements : ∀ d, ∃ k, (run acquisition c { o with timeout := some d } steps []).log.traffic =
    traffic o (issued c o steps d) k
  grows : ∀ d d', d.nanos < d'.nanos → issued c o steps d <+: issued c o steps d'

section

variable {ρ : Type} {acquisition : Acquisition} {c : Connection ρ} {o : TransactionOptions}
  {steps : List Step} {log : Log}

theorem traffic_of_working (h : ∀ e ∈ log, Working e) : log.traffic = log.messages.map .sent := by
  induction log with
  | nil => rfl
  | cons e rest ih =>
    have hrest := ih fun e he => h e (List.mem_cons_of_mem _ he)
    cases h e List.mem_cons_self with
    | sent m => exact congrArg _ hrest
    | executing => exact hrest

theorem WorkTold.inTime {α : Type} {timer : Timer} {timeout : Option Duration}
    {alone : Course (Except Failure α)} {s : Settled α}
    (h : WorkTold timer timeout alone (some s) log) (hintime : alone.InTime timer timeout) :
    s = .ofResult alone.result ∧ log = alone.log := by
  cases h with
  | completed _ hresult => exact ⟨by rw [hresult]; rfl, rfl⟩
  | failed _ hresult => exact ⟨by rw [hresult]; rfl, rfl⟩
  | timedOut hd hlate => exact absurd (hintime _ hd) (Nat.not_le_of_lt hlate)

theorem WorkTold.late {α : Type} {timer : Timer} {d : Duration} {alone : Course (Except Failure α)}
    {s : Settled α} (h : WorkTold timer (some d) alone (some s) log)
    (hlate : timer.fires d < alone.length) :
    s = .timedOut d ∧ log = alone.upTo (timer.fires d) := by
  cases h with
  | completed hintime => exact absurd (hintime d rfl) (Nat.not_le_of_lt hlate)
  | failed hintime => exact absurd (hintime d rfl) (Nat.not_le_of_lt hlate)
  | timedOut hd =>
    cases hd
    exact ⟨rfl, rfl⟩

theorem traffic_isolation (o : TransactionOptions) : (isolation o).traffic = isolation o := by
  rw [isolation]
  cases o.isolation <;> rfl

theorem traffic_around {α : Type} (r : Option α) (told : Log) (p : Phase) :
    (opened ++ told ++ warning r p ++ releasing p).traffic =
      [.acquired] ++ told.traffic ++ [.released] := by
  have hwarning : (warning r p).traffic = [] := by
    rcases warning_cases r p with hwarning | hwarning
    · rw [hwarning]
      rfl
    · rw [hwarning]
      rfl
  rw [Log.traffic_append, Log.traffic_append, Log.traffic_append, hwarning, List.append_nil]
  rfl

/-- What is seen of a transaction that is begun and isolated. -/
theorem run_traffic (c : Connection ρ) (o : TransactionOptions) (steps : List Step)
    (hacquired : acquisition.outcome = .ok ()) (hstart : c.reply .start opened = .ok ())
    (hisolated : Isolated c o) : ∃ s work,
      WorkTold c.timer o.timeout (alone c o steps) (some s) work ∧
        (run acquisition c o steps []).log.traffic = traffic o work.messages s.ending := by
  have htold := runUntil_told acquisition c o steps none
  have hsucceeds : acquisition.Succeeds none :=
    ⟨hacquired, fun t ht => absurd ht (Option.not_mem_none t)⟩
  obtain ⟨told, htransact, hlog⟩ := htold.acquired hsucceeds
  change (run acquisition c o steps []).log = _ at hlog
  rw [hlog]
  change TransactTold c o steps (some _) told at htransact
  generalize (run acquisition c o steps []).result = a at htransact
  cases htransact with
  | unstarted hreply =>
    rw [hstart] at hreply
    cases hreply
  | settled _ hsettle hfinish =>
    cases hsettle with
    | unisolated hlevel hreply =>
      rw [hisolated _ hlevel] at hreply
      cases hreply
    | @working _ work _ hwork =>
      refine ⟨_, work, hwork, ?_⟩
      have hworking : ∀ e ∈ work, Working e := by
        intro e he
        exact alone_working c o steps e (hwork.isPrefix.mem he)
      have hbegun : (begun o).traffic = [.sent Control.start.message] := rfl
      rw [traffic_around, Log.traffic_append, Log.traffic_append, Log.traffic_append, hbegun,
        traffic_isolation, traffic_of_working hworking, hfinish.traffic]
      simp [traffic]

theorem alone_inOrder (c : Connection ρ) (o : TransactionOptions) (steps : List Step) :
    (alone c o steps).InOrder :=
  (steady_performAll c steps).inOrder _

theorem alone_timeout (timeout : Option Duration) :
    alone c { o with timeout := timeout } steps = alone c o steps := by
  apply (steady_performAll c steps).minds
  rfl

theorem verdict_of_inTime {d : Duration} (h : (alone c o steps).length ≤ c.timer.fires d) :
    verdict acquisition c { o with timeout := some d } steps =
      verdict acquisition c { o with timeout := none } steps := by
  have hintime : deadline c { o with timeout := some d } steps = .ok () := by
    rw [deadline_eq_ok_iff, alone_timeout]
    simpa [Course.InTime] using h
  have hnone : deadline c { o with timeout := none } steps = .ok () := rfl
  have hisolation : isolationReply c { o with timeout := some d } =
      isolationReply c { o with timeout := none } := by
    rw [isolationReply, isolationReply]
    cases o.isolation with
    | none => rfl
    | some level => rfl
  rw [verdict, verdict, hintime, hnone, hisolation, alone_timeout (some d), alone_timeout none]
  rfl

theorem run_traffic_of_inTime {timeout : Option Duration}
    (hacquired : acquisition.outcome = .ok ()) (hstart : c.reply .start opened = .ok ())
    (hisolated : Isolated c o) (h : (alone c o steps).InTime c.timer timeout) :
    (run acquisition c { o with timeout := timeout } steps []).log.traffic =
      traffic o (alone c o steps).log.messages
        (Settled.ofResult (alone c o steps).result).ending := by
  obtain ⟨s, work, hwork, htraffic⟩ := run_traffic c { o with timeout := timeout } steps hacquired
    hstart fun level hlevel => hisolated level hlevel
  rw [alone_timeout] at hwork
  obtain ⟨rfl, rfl⟩ := hwork.inTime h
  exact htraffic

theorem run_traffic_of_late {d : Duration} (hacquired : acquisition.outcome = .ok ())
    (hstart : c.reply .start opened = .ok ()) (hisolated : Isolated c o)
    (h : c.timer.fires d < (alone c o steps).length) :
    (run acquisition c { o with timeout := some d } steps []).log.traffic =
      traffic o (issued c o steps d) .rollback := by
  obtain ⟨s, work, hwork, htraffic⟩ := run_traffic c { o with timeout := some d } steps hacquired
    hstart fun level hlevel => hisolated level hlevel
  rw [alone_timeout] at hwork
  obtain ⟨rfl, rfl⟩ := hwork.late h
  have hissued : issued c o steps d = ((alone c o steps).upTo (c.timer.fires d)).messages := by
    rw [issued, (alone_inOrder c o steps).upTo_eq]
  rw [hissued]
  exact htraffic

theorem verdict_of_late {d : Duration} (hacquired : acquisition.outcome = .ok ())
    (hstart : c.reply .start opened = .ok ()) (hisolated : Isolated c o)
    (h : c.timer.fires d < (alone c o steps).length) :
    verdict acquisition c { o with timeout := some d } steps = .error (.timeout o.label d) := by
  have hlate : deadline c { o with timeout := some d } steps = .error (.timeout o.label d) := by
    apply deadline_of_late rfl
    rw [alone_timeout]
    exact h
  have hisolation : isolationReply c { o with timeout := some d } = .ok () :=
    isolationReply_eq_ok_iff.2 fun level hlevel => hisolated level hlevel
  rw [verdict, hacquired, hstart, hisolation, hlate]
  rfl

theorem issued_isPrefix {d d' : Duration} (h : d.nanos ≤ d'.nanos) :
    issued c o steps d <+: issued c o steps d' := by
  rw [issued, issued, ← (alone_inOrder c o steps).upTo_eq, ← (alone_inOrder c o steps).upTo_eq]
  exact (Course.upTo_isPrefix_upTo (c.timer.mono d d' h)).filterMap _

theorem issued_of_inTime {d : Duration} (h : (alone c o steps).length ≤ c.timer.fires d) :
    issued c o steps d = (alone c o steps).log.messages := by
  have htimely : (alone c o steps).Timely := (steady_performAll c steps).timely _
  rw [issued, htimely.byTime_eq h]

/-- A deadline does nothing but cut the work of a transaction short. -/
theorem run_truncates (acquisition : Acquisition) (c : Connection ρ) (o : TransactionOptions)
    (steps : List Step) (hacquired : acquisition.outcome = .ok ())
    (hstart : c.reply .start opened = .ok ()) (hisolated : Isolated c o) :
    Truncates acquisition c o steps := by
  have hintime : ∀ d, (alone c o steps).length ≤ c.timer.fires d →
      (alone c o steps).InTime c.timer (some d) := by
    intro d hle d' hd
    cases hd
    exact hle
  constructor
  · intro d hle
    rw [run_verdict, run_verdict, run_traffic_of_inTime hacquired hstart hisolated (hintime d hle),
      run_traffic_of_inTime hacquired hstart hisolated
        fun d hd => absurd hd (Option.not_mem_none d)]
    exact ⟨verdict_of_inTime hle, rfl⟩
  · intro d hlate
    rw [run_verdict]
    exact ⟨verdict_of_late hacquired hstart hisolated hlate,
      run_traffic_of_late hacquired hstart hisolated hlate⟩
  · intro d
    by_cases hle : (alone c o steps).length ≤ c.timer.fires d
    · rw [issued_of_inTime hle]
      exact ⟨_, run_traffic_of_inTime hacquired hstart hisolated (hintime d hle)⟩
    · exact ⟨_, run_traffic_of_late hacquired hstart hisolated (Nat.lt_of_not_le hle)⟩
  · exact fun d d' h => issued_isPrefix (Nat.le_of_lt h)

/-- A deadline in the wait lets the first one of two updates through, a later one lets both. -/
theorem run_truncates_twoUpdates :
    let c := Server.immediate []
    let o : TransactionOptions := { isolation := some .serializable }
    let steps : List Step :=
      [⟨.run "UPDATE a", false⟩, ⟨.wait (.ofMillis 100), false⟩, ⟨.run "UPDATE b", false⟩]
    Isolated c o ∧ Truncates {} c o steps ∧
      issued c o steps (.ofMillis 20) = [.simple "UPDATE a"] ∧
      (run {} c { o with timeout := some (.ofMillis 20) } steps []).log.traffic =
        traffic o [.simple "UPDATE a"] .rollback ∧
      issued c o steps (.ofMillis 200) = [.simple "UPDATE a", .simple "UPDATE b"] ∧
      (run {} c { o with timeout := some (.ofMillis 200) } steps []).log.traffic =
        traffic o [.simple "UPDATE a", .simple "UPDATE b"] .commit := by
  intro c o steps
  have hisolated : Isolated c o := fun _ _ => rfl
  refine ⟨hisolated, run_truncates _ _ _ _ rfl rfl hisolated, ?_, ?_, ?_, ?_⟩
  · decide
  · decide
  · decide
  · decide

end

end Transaction

end Quarry
