import Quarry.Proofs.Transaction.Lifecycle
import Quarry.Server

namespace Quarry

namespace Transaction

/-- The statements of a transaction after its `BEGIN`. -/
structure Transcript where
  isolation : List Message
  work : List Message
  ending : List Message

/-- The order of the statements in the log of a run with the given result, if it has one. -/
structure Obeys (c : Connection ρ) (o : TransactionOptions) (steps : List Step)
    (r : Option (Except Failure (List (Outcome ρ)))) (log : Log) (t : Transcript) : Prop where
  messages : log.messages = Control.start.message :: (t.isolation ++ t.work ++ t.ending)
  begun : .entered .begun ∈ log → c.reply .start opened = .ok ()
  begins : r ≠ none → c.reply .start opened = .ok () → .entered .begun ∈ log
  unbegun : .entered .begun ∉ log → t.isolation = [] ∧ t.work = [] ∧ t.ending = []
  isolation : .entered .begun ∈ log →
    t.isolation = o.isolation.toList.map fun level => (Control.isolate level).message
  worked : t.work ≠ [] → Isolated c o
  work : t.work <+: (alone c o steps).log.messages
  ending : t.ending = [] ∨ t.ending = [Control.commit.message] ∨
    t.ending = [Control.rollback.message]
  commit : t.ending = [Control.commit.message] → Completes c o steps
  rollback : t.ending = [Control.rollback.message] → Fails c o steps
  /-- A run that is not abandoned ends its transaction. -/
  commits : r ≠ none → .entered .begun ∈ log → Completes c o steps →
    t.work = (alone c o steps).log.messages ∧ t.ending = [Control.commit.message]
  rollsBack : r ≠ none → .entered .begun ∈ log → Fails c o steps →
    t.ending = [Control.rollback.message]

/-- What holds of a run that is dropped at the limit, if there is one. -/
structure Orderly (acquisition : Acquisition) (c : Connection ρ) (o : TransactionOptions)
    (steps : List Step) (limit : Option Nat)
    (k : Course (Option (Except Failure (List (Outcome ρ))))) : Prop where
  unacquired : ¬acquisition.Succeeds limit → k.log = []
  returned : acquisition.Succeeds limit → Returned k.log
  obeys : acquisition.Succeeds limit → ∃ t, Obeys c o steps k.result k.log t

def Settled.ending : Settled α → Control
  | .completed _ => .commit
  | .failed _ => .rollback
  | .timedOut _ => .rollback

section

variable {ρ : Type} {c : Connection ρ} {o : TransactionOptions} {steps : List Step} {log : Log}

/-- A transaction that has settled is ended by what became of its work. -/
theorem SettleTold.settled {s : Settled (List (Outcome ρ))}
    (h : SettleTold c o steps (some s) log) :
    (s.ending = .commit ∧ Completes c o steps) ∨ (s.ending = .rollback ∧ Fails c o steps) := by
  cases h with
  | unisolated hlevel hreply => exact .inr ⟨rfl, .isolation hlevel hreply⟩
  | working hisolated hwork =>
    cases hwork with
    | completed hintime hresult => exact .inl ⟨rfl, hisolated, hintime, _, hresult⟩
    | failed hintime hresult => exact .inr ⟨rfl, .work hisolated hintime hresult⟩
    | timedOut hd hlate => exact .inr ⟨rfl, .deadline hisolated hd hlate⟩

theorem isolation_messages (o : TransactionOptions) : (isolation o).messages =
    o.isolation.toList.map fun level => (Control.isolate level).message := by
  rw [isolation]
  cases o.isolation <;> rfl

theorem SettleTold.messages {r : Option (Settled (List (Outcome ρ)))}
    (h : SettleTold c o steps r log) : ∃ work, log.messages = (isolation o).messages ++ work ∧
      work <+: (alone c o steps).log.messages ∧ (work ≠ [] → Isolated c o) ∧
      (r ≠ none → Completes c o steps → work = (alone c o steps).log.messages) := by
  cases h with
  | isolating =>
    refine ⟨[], (List.append_nil _).symm, List.nil_prefix, fun hwork => absurd rfl hwork, ?_⟩
    exact fun hr => absurd rfl hr
  | unisolated hlevel hreply =>
    refine ⟨[], (List.append_nil _).symm, List.nil_prefix, fun hwork => absurd rfl hwork, ?_⟩
    exact fun _ hcompletes => absurd (.isolation hlevel hreply) hcompletes.not_fails
  | working hisolated hwork =>
    refine ⟨_, Log.messages_append, hwork.isPrefix.filterMap _, fun _ => hisolated, ?_⟩
    intro hr hcompletes
    cases hwork with
    | dropped => exact absurd rfl hr
    | completed => rfl
    | failed => rfl
    | timedOut hd hlate => exact absurd (.deadline hisolated hd hlate) hcompletes.not_fails

theorem FinishTold.traffic {α : Type} {label : String} {past : Log} {s : Settled α}
    {r : Option (Except Failure α)} (h : FinishTold c label past s r log) :
    log.traffic = [.sent s.ending.message] := by
  cases h with
  | committing => rfl
  | uncommitted => rfl
  | committed => rfl
  | rollingBack hfailure =>
    cases s with
    | completed => cases hfailure
    | failed => rfl
    | timedOut => rfl
  | rolledBack hfailure =>
    cases s with
    | completed => cases hfailure
    | failed => rfl
    | timedOut => rfl

theorem FinishTold.messages {α : Type} {label : String} {past : Log} {s : Settled α}
    {r : Option (Except Failure α)} (h : FinishTold c label past s r log) :
    log.messages = [s.ending.message] := by
  rw [← Log.messages_traffic, h.traffic]
  rfl

variable {r : Option (Except Failure (List (Outcome ρ)))}

theorem mem_begun (o : TransactionOptions) (rest : Log) : .entered .begun ∈ begun o ++ rest := by
  simp [begun]

theorem obeys_of_unbegun (hlog : log = [.sent Control.start.message])
    (hr : r ≠ none → c.reply .start opened ≠ .ok ()) :
    Obeys c o steps r log ⟨[], [], []⟩ := by
  have hbegun : .entered .begun ∉ log := by
    simp [hlog]
  subst hlog
  constructor
  · rfl
  · exact fun hmem => absurd hmem hbegun
  · exact fun hnone hreply => absurd hreply (hr hnone)
  · exact fun _ => ⟨rfl, rfl, rfl⟩
  · exact fun hmem => absurd hmem hbegun
  · exact fun hwork => absurd rfl hwork
  · exact List.nil_prefix
  · exact .inl rfl
  · exact fun hending => absurd hending (List.cons_ne_nil _ _).symm
  · exact fun hending => absurd hending (List.cons_ne_nil _ _).symm
  · exact fun _ hmem => absurd hmem hbegun
  · exact fun _ hmem => absurd hmem hbegun

theorem obeys_of_unsettled (hstart : c.reply .start opened = .ok ())
    (h : SettleTold c o steps none log) : ∃ t, Obeys c o steps none (begun o ++ log) t := by
  obtain ⟨work, hmessages, hprefix, hisolated, _⟩ := h.messages
  have hbegun := mem_begun o log
  refine ⟨⟨(isolation o).messages, work, []⟩, ?_⟩
  constructor
  · rw [Log.messages_append, hmessages, List.append_nil]
    rfl
  · exact fun _ => hstart
  · exact fun hnone => absurd rfl hnone
  · exact fun hmem => absurd hbegun hmem
  · exact fun _ => isolation_messages o
  · exact hisolated
  · exact hprefix
  · exact .inl rfl
  · exact fun hending => absurd hending (List.cons_ne_nil _ _).symm
  · exact fun hending => absurd hending (List.cons_ne_nil _ _).symm
  · exact fun hnone => absurd rfl hnone
  · exact fun hnone => absurd rfl hnone

theorem message_injective {k k' : Control} (h : [k.message] = [k'.message]) : k.sql = k'.sql := by
  exact Message.simple.inj (List.singleton_inj.1 h)

theorem obeys_of_settled {s : Settled (List (Outcome ρ))} {past rest : Log}
    (hstart : c.reply .start opened = .ok ()) (h : SettleTold c o steps (some s) log)
    (hfinish : FinishTold c o.label past s r rest) :
    ∃ t, Obeys c o steps r (begun o ++ log ++ rest) t := by
  obtain ⟨work, hmessages, hprefix, hisolated, hall⟩ := h.messages
  have hbegun : .entered .begun ∈ begun o ++ log ++ rest := by
    rw [List.append_assoc]
    exact mem_begun o _
  have hsettled := h.settled
  refine ⟨⟨(isolation o).messages, work, [s.ending.message]⟩, ?_⟩
  constructor
  · rw [Log.messages_append, Log.messages_append, hmessages, hfinish.messages]
    rfl
  · exact fun _ => hstart
  · exact fun _ _ => hbegun
  · exact fun hmem => absurd hbegun hmem
  · exact fun _ => isolation_messages o
  · exact hisolated
  · exact hprefix
  · rcases hsettled with ⟨hending, _⟩ | ⟨hending, _⟩
    · exact .inr (.inl (by rw [hending]))
    · exact .inr (.inr (by rw [hending]))
  · intro hcommit
    rcases hsettled with ⟨_, hcompletes⟩ | ⟨hending, _⟩
    · exact hcompletes
    · rw [hending] at hcommit
      exact absurd (message_injective hcommit) (by decide)
  · intro hrollback
    rcases hsettled with ⟨hending, _⟩ | ⟨_, hfails⟩
    · rw [hending] at hrollback
      exact absurd (message_injective hrollback) (by decide)
    · exact hfails
  · intro _ _ hcompletes
    rcases hsettled with ⟨hending, _⟩ | ⟨_, hfails⟩
    · exact ⟨hall (Option.some_ne_none s) hcompletes, by rw [hending]⟩
    · exact absurd hfails hcompletes.not_fails
  · intro _ _ hfails
    rcases hsettled with ⟨_, hcompletes⟩ | ⟨hending, _⟩
    · exact absurd hfails hcompletes.not_fails
    · rw [hending]

theorem TransactTold.obeys (h : TransactTold c o steps r log) :
    ∃ t, Obeys c o steps r log t := by
  cases h with
  | starting => exact ⟨_, obeys_of_unbegun rfl fun hnone => absurd rfl hnone⟩
  | unstarted hreply =>
    refine ⟨_, obeys_of_unbegun rfl fun _ hok => ?_⟩
    rw [hreply] at hok
    cases hok
  | unsettled hstart hsettle => exact obeys_of_unsettled hstart hsettle
  | settled hstart hsettle hfinish => exact obeys_of_settled hstart hsettle hfinish

/-- Only the statements and the beginning of the transaction count. -/
theorem Obeys.congr {t : Transcript} {log' : Log} (h : Obeys c o steps r log t)
    (hmessages : log'.messages = log.messages)
    (hbegun : .entered .begun ∈ log' ↔ .entered .begun ∈ log) : Obeys c o steps r log' t where
  messages := hmessages.trans h.messages
  begun hmem := h.begun (hbegun.1 hmem)
  begins hr hreply := hbegun.2 (h.begins hr hreply)
  unbegun hmem := h.unbegun fun hmem' => hmem (hbegun.2 hmem')
  isolation hmem := h.isolation (hbegun.1 hmem)
  worked := h.worked
  work := h.work
  ending := h.ending
  commit := h.commit
  rollback := h.rollback
  commits hr hmem := h.commits hr (hbegun.1 hmem)
  rollsBack hr hmem := h.rollsBack hr (hbegun.1 hmem)

theorem messages_around (told : Log) (p : Phase) :
    (opened ++ told ++ warning r p ++ releasing p).messages = told.messages := by
  have hwarning : (warning r p).messages = [] := by
    rcases warning_cases r p with hwarning | hwarning
    · rw [hwarning]
      rfl
    · rw [hwarning]
      rfl
  have hreleasing : (releasing p).messages = [] := rfl
  rw [Log.messages_append, Log.messages_append, Log.messages_append, hwarning, hreleasing,
    List.append_nil, List.append_nil]
  rfl

theorem mem_around {told : Log} {p : Phase} :
    .entered .begun ∈ opened ++ told ++ warning r p ++ releasing p ↔ .entered .begun ∈ told := by
  have hreleasing : .entered .begun ∉ releasing p := by
    simp [releasing]
  rw [List.mem_append, or_iff_left hreleasing, mem_begun_before]

/-- Whatever the pool and the server answer, and whenever a run is dropped, its statements come in
order and its connection is released once. -/
theorem runUntil_orderly (acquisition : Acquisition) (c : Connection ρ) (o : TransactionOptions)
    (steps : List Step) (limit : Option Nat) :
    Orderly acquisition c o steps limit (runUntil acquisition c o steps limit) := by
  have htold := runUntil_told acquisition c o steps limit
  constructor
  · exact htold.unacquired
  · intro hacquired
    obtain ⟨told, htransact, hlog⟩ := htold.acquired hacquired
    rw [hlog]
    exact htransact.returned _
  · intro hacquired
    obtain ⟨told, htransact, hlog⟩ := htold.acquired hacquired
    obtain ⟨t, ht⟩ := htransact.obeys
    rw [hlog]
    exact ⟨t, ht.congr (messages_around told _) mem_around⟩

/-- Neither work that raises nor work that is late gets to its second update. -/
theorem runUntil_orderly_raised_timedOut :
    let c := Server.immediate []
    let o : TransactionOptions :=
      { isolation := some .serializable, timeout := some (.ofMillis 20) }
    let raised : List Step := [⟨.run "UPDATE a", false⟩, ⟨.raise (.other "no stock"), true⟩,
      ⟨.raise (.other "no funds"), false⟩, ⟨.run "UPDATE b", false⟩]
    let late : List Step :=
      [⟨.run "UPDATE a", false⟩, ⟨.wait (.ofMillis 100), false⟩, ⟨.run "UPDATE b", false⟩]
    let seen : Log := [.acquired, .sent (.simple "BEGIN"),
      .sent (.simple "SET TRANSACTION ISOLATION LEVEL SERIALIZABLE"), .sent (.simple "UPDATE a"),
      .sent (.simple "ROLLBACK"), .released]
    Orderly {} c o raised none (runUntil {} c o raised none) ∧
      (runUntil {} c o raised none).log.traffic = seen ∧
      Orderly {} c o late none (runUntil {} c o late none) ∧
      (runUntil {} c o late none).log.traffic = seen := by
  intro c o raised late seen
  refine ⟨runUntil_orderly _ _ _ _ _, ?_, runUntil_orderly _ _ _ _ _, ?_⟩
  · decide
  · decide

end

end Transaction

end Quarry
