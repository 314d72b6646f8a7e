import Mathlib.Data.List.Chain
import Quarry.Proofs.Transaction.Told

namespace Quarry

inductive Phase.Moves : Phase → Phase → Prop where
  | begins : Moves .created .begun
  | commits : Moves .begun .committed
  | rollsBack : Moves .begun .rolledBack
  | releases {p : Phase} (h : p ≠ .released) : Moves p .released

namespace Course

theorem upTo_isPrefix (limit : Nat) (c : Course α) : c.upTo limit <+: c.log :=
  (List.takeWhile_prefix _).map Prod.snd

theorem Stops.isPrefix {c : Course α} {log : Log} (h : c.Stops log) : log <+: c.log := by
  obtain ⟨limit, _, rfl⟩ := h
  exact c.upTo_isPrefix limit

end Course

namespace Transaction

/-- Once a connection is acquired it is released exactly once, nothing is sent on it afterwards, and
the phases follow the moves from the creation to the release. -/
structure Returned (log : Log) : Prop where
  released : ∃ before after : Log, log = before ++ .released :: after ∧
    .released ∉ before ∧ .released ∉ after ∧ after.messages = []
  phases : ∃ rest, log.phases = .created :: rest ∧ (.created :: rest).IsChain Phase.Moves ∧
    rest.getLast? = some .released

section

variable {ρ : Type} {c : Connection ρ} {o : TransactionOptions} {steps : List Step} {log : Log}

theorem WorkTold.isPrefix {timer : Timer} {timeout : Option Duration}
    {alone : Course (Except Failure α)} {r : Option (Settled α)}
    (h : WorkTold timer timeout alone r log) : log <+: alone.log := by
  cases h with
  | dropped hstops => exact hstops.isPrefix
  | completed => exact List.prefix_refl _
  | failed => exact List.prefix_refl _
  | timedOut => exact alone.upTo_isPrefix _

theorem alone_working (c : Connection ρ) (o : TransactionOptions) (steps : List Step) :
    ∀ e ∈ (alone c o steps).log, Working e :=
  (works_performAll c steps _).ended

theorem SettleTold.entries_working {r : Option (Settled (List (Outcome ρ)))}
    (h : SettleTold c o steps r log) : ∀ e ∈ log, Working e := by
  have hisolation : ∀ e ∈ isolation o, Working e := by
    intro e he
    obtain ⟨level, _, rfl⟩ := List.mem_map.1 he
    exact .sent _
  cases h with
  | isolating => exact hisolation
  | unisolated => exact hisolation
  | working _ hwork =>
    intro e he
    rcases List.mem_append.1 he with he | he
    · exact hisolation e he
    · exact alone_working c o steps e (hwork.isPrefix.mem he)

theorem phases_of_working (h : ∀ e ∈ log, Working e) : log.phases = [] := by
  apply List.filterMap_eq_nil_iff.2
  intro e he
  cases h e he <;> rfl

theorem not_released_of_working (h : ∀ e ∈ log, Working e) : .released ∉ log := by
  intro hmem
  cases h _ hmem

theorem FinishTold.phases {α : Type} {label : String} {past : Log} {s : Settled α}
    {r : Option (Except Failure α)} (h : FinishTold c label past s r log) :
    log.phases = [] ∨ log.phases = [.committed] ∨ log.phases = [.rolledBack] := by
  cases h with
  | committing => exact .inl rfl
  | uncommitted => exact .inl rfl
  | committed => exact .inr (.inl rfl)
  | rollingBack => cases s <;> exact .inl rfl
  | rolledBack => cases s <;> exact .inr (.inr rfl)

theorem FinishTold.not_released {α : Type} {label : String} {past : Log} {s : Settled α}
    {r : Option (Except Failure α)} (h : FinishTold c label past s r log) : .released ∉ log := by
  cases h with
  | rollingBack => cases s <;> simp [Settled.notice]
  | rolledBack => cases s <;> simp [Settled.notice]
  | _ => simp

theorem TransactTold.phases {r : Option (Except Failure (List (Outcome ρ)))}
    (h : TransactTold c o steps r log) : log.phases = [] ∨ log.phases = [.begun] ∨
      log.phases = [.begun, .committed] ∨ log.phases = [.begun, .rolledBack] := by
  cases h with
  | starting => exact .inl rfl
  | unstarted => exact .inl rfl
  | unsettled _ hsettle =>
    rw [Log.phases_append, phases_of_working hsettle.entries_working]
    exact .inr (.inl rfl)
  | settled _ hsettle hfinish =>
    rw [Log.phases_append, Log.phases_append, phases_of_working hsettle.entries_working]
    rcases hfinish.phases with hphases | hphases | hphases
    · rw [hphases]
      exact .inr (.inl rfl)
    · rw [hphases]
      exact .inr (.inr (.inl rfl))
    · rw [hphases]
      exact .inr (.inr (.inr rfl))

theorem TransactTold.not_released {r : Option (Except Failure (List (Outcome ρ)))}
    (h : TransactTold c o steps r log) : .released ∉ log := by
  have hbegun : .released ∉ begun o := by
    simp [begun]
  cases h with
  | starting => simp
  | unstarted => simp
  | unsettled _ hsettle =>
    intro hmem
    rcases List.mem_append.1 hmem with hmem | hmem
    · exact hbegun hmem
    · exact not_released_of_working hsettle.entries_working hmem
  | settled _ hsettle hfinish =>
    intro hmem
    rcases List.mem_append.1 hmem with hmem | hmem
    · rcases List.mem_append.1 hmem with hmem | hmem
      · exact hbegun hmem
      · exact not_released_of_working hsettle.entries_working hmem
    · exact hfinish.not_released hmem

theorem chain_of_phases {phases : List Phase} (h : phases = [] ∨ phases = [.begun] ∨
    phases = [.begun, .committed] ∨ phases = [.begun, .rolledBack]) :
    (Phase.created :: (phases ++ [Phase.released])).IsChain Phase.Moves := by
  have hrelease : ∀ p : Phase, p ≠ .released → [p, Phase.released].IsChain Phase.Moves := by
    intro p hp
    exact .cons_cons (.releases hp) (.singleton _)
  rcases h with rfl | rfl | rfl | rfl
  · exact hrelease .created (by decide)
  · exact .cons_cons .begins (hrelease .begun (by decide))
  · exact .cons_cons .begins (.cons_cons .commits (hrelease .committed (by decide)))
  · exact .cons_cons .begins (.cons_cons .rollsBack (hrelease .rolledBack (by decide)))

/-- What is reported before a connection is released in a phase. -/
def warning (r : Option α) (p : Phase) : Log :=
  match r with
  | some _ => []
  | none => if p = .begun then [.event .abandoned] else []

theorem warning_cases (r : Option α) (p : Phase) :
    warning r p = [] ∨ warning r p = [.event .abandoned] := by
  cases r with
  | some => exact .inl rfl
  | none =>
    by_cases hp : p = .begun
    · exact .inr (if_pos hp)
    · exact .inl (if_neg hp)

theorem farewell_opened {α : Type} (told : Log) : farewell (opened ++ told) =
    warning (none : Option α) (opened ++ told).phase ++ releasing (opened ++ told).phase := by
  have hmem : .acquired ∈ opened ++ told := List.mem_append_left _ List.mem_cons_self
  rw [farewell, if_pos hmem, warning]

theorem mem_begun_before {told : Log} {r : Option α} {p : Phase} :
    .entered .begun ∈ opened ++ told ++ warning r p ↔ .entered .begun ∈ told := by
  have hwarning : .entered .begun ∉ warning r p := by
    rcases warning_cases r p with hwarning | hwarning
    · simp [hwarning]
    · simp [hwarning]
  simp [hwarning, opened]

theorem TransactTold.not_released_before {r : Option (Except Failure (List (Outcome ρ)))}
    (h : TransactTold c o steps r log) (p : Phase) : .released ∉ opened ++ log ++ warning r p := by
  intro hmem
  rcases List.mem_append.1 hmem with hmem | hmem
  · rcases List.mem_append.1 hmem with hmem | hmem
    · simp [opened] at hmem
    · exact h.not_released hmem
  · rcases warning_cases r p with hwarning | hwarning
    · simp [hwarning] at hmem
    · simp [hwarning] at hmem

theorem TransactTold.returned {r : Option (Except Failure (List (Outcome ρ)))}
    (h : TransactTold c o steps r log) (p : Phase) :
    Returned (opened ++ log ++ warning r p ++ releasing p) := by
  constructor
  · refine ⟨_, [.event (.released p), .entered .released], rfl, h.not_released_before p, ?_, rfl⟩
    simp
  · have hwarning : (warning r p).phases = [] := by
      rcases warning_cases r p with hwarning | hwarning
      · rw [hwarning]
        rfl
      · rw [hwarning]
        rfl
    have hphases : (opened ++ log ++ warning r p ++ releasing p).phases =
        .created :: (log.phases ++ [.released]) := by
      rw [Log.phases_append, Log.phases_append, Log.phases_append, hwarning, List.append_nil]
      rfl
    exact ⟨_, hphases, chain_of_phases h.phases, List.getLast?_concat⟩

theorem RunTold.acquired {acquisition : Acquisition} {limit : Option Nat}
    {r : Option (Except Failure (List (Outcome ρ)))} (h : RunTold acquisition c o steps limit r log)
    (hacquired : acquisition.Succeeds limit) : ∃ told, TransactTold c o steps r told ∧
      log = opened ++ told ++ warning r (opened ++ told).phase ++
        releasing (opened ++ told).phase := by
  obtain ⟨houtcome, hdelay⟩ := hacquired
  cases h with
  | unavailable h =>
    rw [houtcome] at h
    cases h
  | waiting ht hlate => exact absurd (hdelay _ ht) (Nat.not_le_of_lt hlate)
  | returned _ htold =>
    refine ⟨_, htold, ?_⟩
    rw [warning, List.append_nil]
  | dropped _ htold =>
    refine ⟨_, htold, ?_⟩
    rw [farewell_opened, List.append_assoc _ (warning _ _)]

theorem RunTold.unacquired {acquisition : Acquisition} {limit : Option Nat}
    {r : Option (Except Failure (List (Outcome ρ)))} (h : RunTold acquisition c o steps limit r log)
    (hacquired : ¬acquisition.Succeeds limit) : log = [] := by
  cases h with
  | unavailable => rfl
  | waiting => rfl
  | returned h => exact absurd h hacquired
  | dropped h => exact absurd h hacquired

end

end Transaction

end Quarry
