import Quarry.Proofs.Transaction.Works

namespace Quarry

/-- Two connections that answer alike, except to the statement `k` when just `past` was sent. -/
structure Connection.AgreesBut (c c' : Connection ρ) (past : List Message) (k : Control) :
    Prop where
  query : c'.query = c.query
  timer : c'.timer = c.timer
  run : ∀ sent sql, ¬(sent = past ∧ sql = k.sql) → c'.run sent sql = c.run sent sql

/-- Two courses that begin when `sent` was sent. They are the same until `k` is sent when just
`past` was. -/
inductive Course.Forks (past : List Message) (k : Control) (sent : List Message) :
    Course α → Course α → Prop where
  | same (x : Course α) : Forks past k sent x x
  | parts {a : Course Unit} {b b' : Course α} (ha : a.Timely)
      (hpast : past = sent ++ a.log.messages)
      (hb : ∃ rest, b.entries = (0, .sent k.message) :: rest) :
      Forks past k sent (a.append b) (a.append b')

namespace Course

variable {α β : Type} {past sent : List Message} {k : Control} {x x' : Course α}

theorem nil_append (r : β) (x : Course α) : append ⟨[], 0, r⟩ x = x := by
  simp [append]

theorem Forks.before {a : Course β} (ha : a.Timely)
    (h : Forks past k (sent ++ a.log.messages) x x') :
    Forks past k sent (a.append x) (a.append x') := by
  cases h with
  | same => exact .same _
  | @parts a' b b' ha' hpast hb =>
    rw [← append_assoc, ← append_assoc]
    refine .parts (ha.append ha') ?_ hb
    rw [hpast, log_append, Log.messages_append, List.append_assoc]

/-- What is made of the results makes no difference. -/
theorem Forks.after (h : Forks past k sent x x') (f : α → β) :
    Forks past k sent (x.append ⟨[], 0, f x.result⟩) (x'.append ⟨[], 0, f x'.result⟩) := by
  cases h with
  | same => exact .same _
  | parts ha hpast hb =>
    obtain ⟨rest, hb⟩ := hb
    rw [append_assoc, append_assoc]
    refine .parts ha hpast ⟨rest, ?_⟩
    rw [append, List.map_nil, List.append_nil, hb]

theorem messages_of_entries {b : Course α} (hb : ∃ rest, b.entries = (0, .sent k.message) :: rest) :
    ∃ rest, b.log.messages = k.message :: rest := by
  obtain ⟨rest, hb⟩ := hb
  refine ⟨Log.messages (rest.map Prod.snd), ?_⟩
  rw [log, hb]
  rfl

/-- Courses do not differ if all that is sent in the first one is sent before they could. -/
theorem Forks.eq (h : Forks past k sent x x') (hpast : past = sent ++ x.log.messages) : x' = x := by
  cases h with
  | same => rfl
  | parts _ hfork hb =>
    obtain ⟨rest, hmessages⟩ := messages_of_entries hb
    rw [hfork, log_append, Log.messages_append, hmessages] at hpast
    simp at hpast

/-- The second course is as late as the first one if they differ only after the limit. -/
theorem Forks.late {limit : Nat} (h : Forks past k sent x x')
    (hpast : past = sent ++ (x.upTo limit).messages) (hlate : limit < x.length) :
    limit < x'.length := by
  cases h with
  | same => exact hlate
  | @parts a b b' ha hfork hb =>
    by_cases hlimit : limit < a.length
    · exact Nat.lt_add_right _ hlimit
    · obtain ⟨rest, hb⟩ := hb
      rw [upTo_append_of_le ha (Nat.le_of_not_lt hlimit), Log.messages_append, hfork, upTo, hb,
        List.takeWhile_cons_of_pos] at hpast
      · simp [Log.messages, Entry.message?] at hpast
      · exact decide_eq_true (Nat.zero_le _)

end Course

namespace Transaction

variable {ρ : Type} {c c' : Connection ρ} {past : List Message} {k : Control}

theorem perform_of_agreesBut (h : c.AgreesBut c' past k) {log : Log} {action : Action}
    (hne : ¬(log.messages = past ∧ action = .run k.sql)) :
    perform c' action log = perform c action log := by
  cases action with
  | run sql =>
    have hrun : c'.run log.messages sql = c.run log.messages sql := by
      apply h.run
      intro hsame
      exact hne ⟨hsame.1, congrArg Action.run hsame.2⟩
    have hperform : c'.perform sql log = c.perform sql log := by
      rw [Connection.perform, Connection.perform, exchange, exchange, hrun]
    change Course.append (c'.perform sql log) _ = Course.append (c.perform sql log) _
    rw [hperform]
  | wait d => rfl
  | raise why => rfl
  | query s =>
    have hexecute : s.execute c' = s.execute c := by
      rw [Select.execute, Select.execute, h.query]
    rw [perform, perform, hexecute]

/-- The rest of a unit of work after what came of a step. -/
def afterStep (c : Connection ρ) (step : Step) (rest : List Step) (r : Except Failure (Outcome ρ)) :
    Session (Except Failure (List (Outcome ρ))) := fun log =>
  match step.settle r with
  | .error why => ⟨[], 0, .error why⟩
  | .ok o =>
    let x := performAll c rest log
    x.append ⟨[], 0, x.result.map fun os => o :: os⟩

theorem performAll_cons (c : Connection ρ) (step : Step) (rest : List Step) (log : Log) :
    performAll c (step :: rest) log =
      let q := perform c step.action log
      q.append (afterStep c step rest q.result (log ++ q.log)) := by
  change Course.append _ _ = Course.append _ _
  congr 1
  simp only [afterStep]
  cases step.settle (perform c step.action log).result with
  | error why => rfl
  | ok o => rfl

/-- The two units of work go the same way until the statement is sent. -/
theorem performAll_forks (h : c.AgreesBut c' past k) (steps : List Step) (log : Log) :
    (performAll c steps log).Forks past k log.messages (performAll c' steps log) := by
  induction steps generalizing log with
  | nil => exact .same _
  | cons step rest ih =>
    by_cases hfork : log.messages = past ∧ step.action = .run k.sql
    · obtain ⟨delay, hrounds⟩ := c.run_control log.messages k
      have hpast : past = log.messages ++ Log.messages [] := by
        rw [← hfork.1]
        exact (List.append_nil _).symm
      have hentries : (c.perform k.sql log).entries = [(0, .sent k.message)] := by
        rw [Connection.perform, exchange, hrounds]
        rfl
      have hfirst : (perform c step.action log).entries = [(0, .sent k.message)] := by
        rw [hfork.2]
        change (c.perform k.sql log).entries ++ [] = _
        rw [hentries, List.append_nil]
      rw [← Course.nil_append () (performAll c (step :: rest) log),
        ← Course.nil_append () (performAll c' (step :: rest) log)]
      refine .parts (fun e he => absurd he List.not_mem_nil) hpast ?_
      rw [performAll_cons, Course.append, hfirst]
      exact ⟨_, rfl⟩
    · rw [performAll_cons, performAll_cons, perform_of_agreesBut h hfork]
      apply Course.Forks.before ((works_perform c step.action log).timely)
      rw [← Log.messages_append, afterStep, afterStep]
      cases step.settle (perform c step.action log).result with
      | error why => exact .same _
      | ok o => exact (ih _).after fun r => r.map fun os => o :: os

end Transaction

end Quarry
