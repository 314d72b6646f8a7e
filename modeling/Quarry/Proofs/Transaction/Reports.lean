import Mathlib.Data.List.Nodup
import Quarry.Proofs.Transaction.Account

namespace Quarry

namespace Transaction

/-- The phase in which the connection is released. -/
inductive Leaves (acquisition : Acquisition) (c : Connection ρ) (o : TransactionOptions)
    (steps : List Step) (limit : Option Nat) : Phase → Prop where
  | created (h : ¬Begins acquisition c limit) : Leaves acquisition c o steps limit .created
  | committed (h : Ends acquisition c o steps limit .commit (.ok ())) :
      Leaves acquisition c o steps limit .committed
  | rolledBack {reply : Except Failure Unit}
      (h : Ends acquisition c o steps limit .rollback reply) :
      Leaves acquisition c o steps limit .rolledBack
  | begun (h : Begins acquisition c limit)
      (hcommit : ¬Ends acquisition c o steps limit .commit (.ok ()))
      (hrollback : ∀ reply, ¬Ends acquisition c o steps limit .rollback reply) :
      Leaves acquisition c o steps limit .begun

/-- The events that a run has to report, if it has the given result. -/
inductive Reported (acquisition : Acquisition) (c : Connection ρ) (o : TransactionOptions)
    (steps : List Step) (limit : Option Nat) (r : Option α) : Event → Prop where
  | begun (h : Begins acquisition c limit) :
      Reported acquisition c o steps limit r (.begun o)
  | committed (h : Ends acquisition c o steps limit .commit (.ok ())) :
      Reported acquisition c o steps limit r (.committed o.label)
  | timedOut {d : Duration} (h : Expires acquisition c o steps limit d) :
      Reported acquisition c o steps limit r (.timedOut o.label d)
  | rolledBack (h : Ends acquisition c o steps limit .rollback (.ok ())) :
      Reported acquisition c o steps limit r (.rolledBack o.label)
  | rollbackFailed {why : Failure} (h : Ends acquisition c o steps limit .rollback (.error why)) :
      Reported acquisition c o steps limit r (.rollbackFailed o.label why)
  | abandoned (hr : r = none) (h : Begins acquisition c limit)
      (hends : ∀ k reply, ¬Ends acquisition c o steps limit k reply) :
      Reported acquisition c o steps limit r .abandoned
  | released {p : Phase} (h : acquisition.Succeeds limit)
      (hp : Leaves acquisition c o steps limit p) :
      Reported acquisition c o steps limit r (.released p)

/-- What the events of a run tell, if it is dropped at the limit, if there is one. -/
structure Reports (acquisition : Acquisition) (c : Connection ρ) (o : TransactionOptions)
    (steps : List Step) (limit : Option Nat)
    (k : Course (Option (Except Failure (List (Outcome ρ))))) : Prop where
  reported : ∀ e, e ∈ k.log.reports ↔ Reported acquisition c o steps limit k.result e
  once : (k.log.reports.map Event.message).Nodup
  /-- A timeout is reported before the `ROLLBACK`, which is the last statement. -/
  timedOut : ∀ before after label d, k.log = before ++ .event (.timedOut label d) :: after →
    ∃ rest : Log, after = .sent Control.rollback.message :: rest ∧ rest.messages = []
  last : acquisition.Succeeds limit → ∃ p, k.log.events.getLast? = some (.released p)

section

variable {ρ α : Type} {acquisition : Acquisition} {c : Connection ρ} {o : TransactionOptions}
  {steps : List Step} {past log : Log} {label : String} {limit : Option Nat} {s : Settled α}
  {r : Option α} {events : List Event}

theorem mem_account {late : Option Duration} {ended : Option (Control × Except Failure Unit)}
    {e : Event} : e ∈ account o late ended ↔
      e = .begun o ∨ (∃ d, late = some d ∧ e = .timedOut o.label d) ∨
        e ∈ conclusion o.label ended ∨ e = .released (phaseAfter ended) := by
  simp [account, eq_comm]

theorem leaves_iff (hbegins : Begins acquisition c limit)
    {ended : Option (Control × Except Failure Unit)}
    (hended : ∀ k reply, Ends acquisition c o steps limit k reply ↔ ended = some (k, reply))
    (p : Phase) : Leaves acquisition c o steps limit p ↔ p = phaseAfter ended := by
  constructor
  · intro h
    cases h with
    | created hbegins' => exact absurd hbegins hbegins'
    | committed h =>
      rw [(hended _ _).1 h]
      rfl
    | rolledBack h =>
      rw [(hended _ _).1 h]
      rfl
    | begun _ hcommit hrollback =>
      rcases ended_cases hended with rfl | rfl | ⟨why, rfl⟩ | rfl | ⟨why, rfl⟩
      · rfl
      · exact absurd ((hended _ _).2 rfl) hcommit
      · rfl
      · exact absurd ((hended _ _).2 rfl) (hrollback _)
      · exact absurd ((hended _ _).2 rfl) (hrollback _)
  · rintro rfl
    have hnot : ∀ k reply, ended ≠ some (k, reply) → ¬Ends acquisition c o steps limit k reply :=
      fun k reply hne h => hne ((hended k reply).1 h)
    rcases ended_cases hended with rfl | rfl | ⟨why, rfl⟩ | rfl | ⟨why, rfl⟩
    · exact .begun hbegins (hnot _ _ (by simp)) fun reply => hnot _ _ (by simp)
    · exact .committed ((hended _ _).2 rfl)
    · exact .begun hbegins (hnot _ _ (by simp)) fun reply => hnot _ _ (by simp)
    · exact .rolledBack ((hended _ _).2 rfl)
    · exact .rolledBack ((hended _ _).2 rfl)

theorem reported_of_conclusion (hbegins : Begins acquisition c limit)
    {ended : Option (Control × Except Failure Unit)}
    (hended : ∀ k reply, Ends acquisition c o steps limit k reply ↔ ended = some (k, reply))
    (hr : r = none ↔ ended = none) {e : Event} (he : e ∈ conclusion o.label ended) :
    Reported acquisition c o steps limit r e := by
  rcases ended_cases hended with rfl | rfl | ⟨why, rfl⟩ | rfl | ⟨why, rfl⟩
  · rw [List.mem_singleton.1 he]
    refine .abandoned (hr.2 rfl) hbegins fun k reply h => ?_
    cases (hended k reply).1 h
  · rw [List.mem_singleton.1 he]
    exact .committed ((hended _ _).2 rfl)
  · cases he
  · rw [List.mem_singleton.1 he]
    exact .rolledBack ((hended _ _).2 rfl)
  · rw [List.mem_singleton.1 he]
    exact .rollbackFailed ((hended _ _).2 rfl)

theorem Reported.begins_or_released {e : Event} (h : Reported acquisition c o steps limit r e) :
    Begins acquisition c limit ∨ ∃ p, e = .released p ∧ acquisition.Succeeds limit ∧
      Leaves acquisition c o steps limit p := by
  cases h with
  | begun h => exact .inl h
  | committed h => exact .inl h.begins
  | timedOut h => exact .inl h.begins
  | rolledBack h => exact .inl h.begins
  | rollbackFailed h => exact .inl h.begins
  | abandoned _ h => exact .inl h
  | released h hp => exact .inr ⟨_, rfl, h, hp⟩

theorem leaves_of_unbegun (hbegins : ¬Begins acquisition c limit) {p : Phase}
    (h : Leaves acquisition c o steps limit p) : p = .created := by
  cases h with
  | created => rfl
  | committed h => exact absurd h.begins hbegins
  | rolledBack h => exact absurd h.begins hbegins
  | begun h => exact absurd h hbegins

theorem Reported.mem_account {late : Option Duration}
    {ended : Option (Control × Except Failure Unit)} (hbegins : Begins acquisition c limit)
    (hlate : ∀ d, Expires acquisition c o steps limit d ↔ late = some d)
    (hended : ∀ k reply, Ends acquisition c o steps limit k reply ↔ ended = some (k, reply))
    (hr : r = none ↔ ended = none) {e : Event} (h : Reported acquisition c o steps limit r e) :
    e ∈ account o late ended := by
  rw [Transaction.mem_account]
  cases h with
  | begun => exact .inl rfl
  | committed h =>
    rw [(hended _ _).1 h]
    exact .inr (.inr (.inl (List.mem_singleton.2 rfl)))
  | timedOut h => exact .inr (.inl ⟨_, (hlate _).1 h, rfl⟩)
  | rolledBack h =>
    rw [(hended _ _).1 h]
    exact .inr (.inr (.inl (List.mem_singleton.2 rfl)))
  | rollbackFailed h =>
    rw [(hended _ _).1 h]
    exact .inr (.inr (.inl (List.mem_singleton.2 rfl)))
  | abandoned hnone =>
    rw [hr.1 hnone]
    exact .inr (.inr (.inl (List.mem_singleton.2 rfl)))
  | released _ hp => exact .inr (.inr (.inr (congrArg _ ((leaves_iff hbegins hended _).1 hp))))

theorem Accounted.mem_iff (h : Accounted acquisition c o steps limit r events) (e : Event) :
    e ∈ events ↔ Reported acquisition c o steps limit r e := by
  cases h with
  | unacquired hacquired =>
    refine iff_of_false List.not_mem_nil fun h => ?_
    rcases h.begins_or_released with hbegins | ⟨p, _, hsucceeds, _⟩
    · exact hacquired hbegins.succeeds
    · exact hacquired hsucceeds
  | unbegun hacquired hbegins =>
    rw [List.mem_singleton]
    constructor
    · rintro rfl
      exact .released hacquired (.created hbegins)
    · intro h
      rcases h.begins_or_released with hbegins' | ⟨p, rfl, _, hp⟩
      · exact absurd hbegins' hbegins
      · rw [leaves_of_unbegun hbegins hp]
  | begun hbegins hlate hended hr =>
    constructor
    · intro he
      rcases mem_account.1 he with rfl | ⟨d, hd, rfl⟩ | he | rfl
      · exact .begun hbegins
      · exact .timedOut ((hlate d).2 hd)
      · exact reported_of_conclusion hbegins hended hr he
      · exact .released hbegins.succeeds ((leaves_iff hbegins hended _).2 rfl)
    · exact fun h => h.mem_account hbegins hlate hended hr

theorem notice_of_mem {e : Entry} (h : e ∈ s.notice label) : s.notice label = [e] := by
  cases s with
  | completed => cases h
  | failed => cases h
  | timedOut after =>
    rw [List.mem_singleton.1 h]
    rfl

theorem FinishTold.rollsBack {β : Type} {s : Settled β} {r : Option (Except Failure β)}
    {d : Duration} {label' : String} (h : FinishTold c label past s r log)
    (hmem : .event (.timedOut label' d) ∈ log) : ∃ rest : Log, rest.messages = [] ∧
      log = .event (.timedOut label' d) :: .sent Control.rollback.message :: rest := by
  cases h with
  | committing => simp at hmem
  | uncommitted => simp at hmem
  | committed => simp at hmem
  | rollingBack =>
    rcases List.mem_append.1 hmem with hmem | hmem
    · rw [notice_of_mem hmem]
      exact ⟨[], rfl, rfl⟩
    · simp at hmem
  | rolledBack =>
    rcases List.mem_append.1 hmem with hmem | hmem
    · rw [notice_of_mem hmem]
      exact ⟨_, rfl, rfl⟩
    · cases hreply : c.reply .rollback past <;> simp [hreply, rollbackEvent] at hmem

theorem timedOut_not_mem {d : Duration} (h : ∀ e ∈ log, Working e) :
    .event (.timedOut label d) ∉ begun o ++ log := by
  intro hmem
  rcases List.mem_append.1 hmem with hmem | hmem
  · simp [begun] at hmem
  · cases h _ hmem

theorem TransactTold.rollsBack {r : Option (Except Failure (List (Outcome ρ)))} {d : Duration}
    (h : TransactTold c o steps r log) (hmem : .event (.timedOut label d) ∈ log) :
    ∃ before rest : Log, rest.messages = [] ∧
      log = before ++ .event (.timedOut label d) :: .sent Control.rollback.message :: rest := by
  cases h with
  | starting => simp at hmem
  | unstarted => simp at hmem
  | unsettled _ hsettle => exact absurd hmem (timedOut_not_mem hsettle.entries_working)
  | settled _ hsettle hfinish =>
    rcases List.mem_append.1 hmem with hmem | hmem
    · exact absurd hmem (timedOut_not_mem hsettle.entries_working)
    · obtain ⟨rest, hrest, hlog⟩ := hfinish.rollsBack hmem
      rw [hlog]
      exact ⟨_, rest, hrest, rfl⟩

theorem timedOut_mem_around {told : Log} {p : Phase} {d : Duration} :
    .event (.timedOut label d) ∈ opened ++ told ++ warning r p ++ releasing p ↔
      .event (.timedOut label d) ∈ told := by
  have hwarning : .event (.timedOut label d) ∉ warning r p := by
    rcases warning_cases r p with hwarning | hwarning
    · simp [hwarning]
    · simp [hwarning]
  simp [hwarning, opened, releasing]

/-- What is reported once stands in one place. -/
theorem place_of_once {before after before' after' : Log} {e : Event}
    (he : e.target = "querykit.tx")
    (honce : ((before ++ .event e :: after).reports.map Event.message).Nodup)
    (hlog : before ++ .event e :: after = before' ++ .event e :: after') : after = after' := by
  have hmem : ∀ {log : Log}, .event e ∈ log → e ∈ log.reports := by
    intro log hlog
    apply List.mem_filter.2
    exact ⟨List.mem_filterMap.2 ⟨_, hlog, rfl⟩, decide_eq_true he⟩
  have hreports : (before ++ .event e :: after).reports = before.reports ++ e :: after.reports := by
    have hevent : Log.reports [.event e] = [e] := List.filter_cons_of_pos (decide_eq_true he)
    rw [← List.singleton_append, Log.reports_append, Log.reports_append, hevent,
      List.singleton_append]
  rw [hreports, List.map_append, List.map_cons, List.nodup_middle, List.nodup_cons] at honce
  have hbefore : .event e ∉ before := by
    intro h
    apply honce.1
    exact List.mem_append_left _ (List.mem_map_of_mem (hmem h))
  have hafter : .event e ∉ after := by
    intro h
    apply honce.1
    exact List.mem_append_right _ (List.mem_map_of_mem (hmem h))
  exact ((List.append_cons_inj_of_notMem hbefore hafter).1 hlog).2.2

/-- Whatever the pool and the server answer, and whenever a run is dropped, its events tell what
happened. -/
theorem runUntil_reports (acquisition : Acquisition) (c : Connection ρ) (o : TransactionOptions)
    (steps : List Step) (limit : Option Nat) :
    Reports acquisition c o steps limit (runUntil acquisition c o steps limit) := by
  have haccounted := runUntil_accounted acquisition c o steps limit
  have htold := runUntil_told acquisition c o steps limit
  constructor
  · exact haccounted.mem_iff
  · exact haccounted.once
  · intro before after label d hlog
    have hmem : .event (.timedOut label d) ∈ (runUntil acquisition c o steps limit).log := by
      rw [hlog]
      exact List.mem_append_right _ List.mem_cons_self
    have hacquired : acquisition.Succeeds limit := by
      by_contra hacquired
      rw [htold.unacquired hacquired] at hmem
      cases hmem
    obtain ⟨told, htransact, hrun⟩ := htold.acquired hacquired
    rw [hrun] at hmem
    obtain ⟨start, rest, hrest, rfl⟩ := htransact.rollsBack (timedOut_mem_around.1 hmem)
    have honce := haccounted.once
    rw [hlog] at honce
    generalize (runUntil acquisition c o steps limit).result = r at hrun
    generalize Log.phase _ = p at hrun
    have hplace : before ++ .event (.timedOut label d) :: after =
        (opened ++ start) ++ .event (.timedOut label d) :: .sent Control.rollback.message ::
          (rest ++ warning r p ++ releasing p) := by
      rw [← hlog, hrun]
      simp
    exact ⟨_, place_of_once rfl honce hplace, (messages_around rest p).trans hrest⟩
  · intro hacquired
    obtain ⟨told, _, hlog⟩ := htold.acquired hacquired
    rw [hlog, Log.events, List.filterMap_append]
    exact ⟨_, List.getLast?_concat⟩

theorem runUntil_reports_raised_timedOut :
    let c := Server.immediate []
    let refusing := Server.immediate [⟨"ROLLBACK", .connection "gone"⟩]
    let o : TransactionOptions := { timeout := some (.ofMillis 20) }
    let raised : List Step := [⟨.run "UPDATE a", false⟩, ⟨.raise (.other "no funds"), false⟩]
    let late : List Step := [⟨.run "UPDATE a", false⟩, ⟨.wait (.ofMillis 100), false⟩]
    Reports {} refusing o raised none (runUntil {} refusing o raised none) ∧
      (runUntil {} refusing o raised none).log.reports = [.begun o,
        .rollbackFailed "transaction" (.connection "gone"), .released .rolledBack] ∧
      Reports {} c o late none (runUntil {} c o late none) ∧
      (runUntil {} c o late none).log.reports = [.begun o, .timedOut "transaction" (.ofMillis 20),
        .rolledBack "transaction", .released .rolledBack] ∧
      Reports {} c o late (some 10000000) (runUntil {} c o late (some 10000000)) ∧
      (runUntil {} c o late (some 10000000)).log.reports =
        [.begun o, .abandoned, .released .begun] := by
  intro c refusing o raised late
  refine ⟨runUntil_reports _ _ _ _ _, ?_, runUntil_reports _ _ _ _ _, ?_,
    runUntil_reports _ _ _ _ _, ?_⟩
  · decide
  · decide
  · decide

end

end Transaction

end Quarry
