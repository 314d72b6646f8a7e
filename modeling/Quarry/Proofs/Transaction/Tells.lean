import Mathlib.Data.List.TakeWhile
import Quarry.Transaction.Run

namespace Quarry

namespace Course

def upTo (limit : Nat) (c : Course α) : Log :=
  (c.entries.takeWhile fun e => e.1 ≤ limit).map Prod.snd

/-- Nothing happens after the end. -/
def Timely (c : Course α) : Prop :=
  ∀ e ∈ c.entries, e.1 ≤ c.length

/-- What has happened when the course is dropped before its end. -/
def Stops (c : Course α) (log : Log) : Prop :=
  ∃ limit < c.length, log = c.upTo limit

section

variable {α β : Type} {a : Course α} {b : Course β} {log : Log} {limit : Nat}

theorem Timely.append (ha : a.Timely) (hb : b.Timely) : (a.append b).Timely := by
  intro e he
  rcases List.mem_append.1 he with he | he
  · exact Nat.le_add_right_of_le (ha e he)
  · obtain ⟨e', he', rfl⟩ := List.mem_map.1 he
    exact Nat.add_le_add_left (hb e' he') _

theorem upTo_append_of_lt (h : limit < a.length) : (a.append b).upTo limit = a.upTo limit := by
  have hlate : (b.entries.map fun e => (a.length + e.1, e.2)).takeWhile
      (fun e => e.1 ≤ limit) = [] := by
    cases b.entries with
    | nil => rfl
    | cons e es =>
      rw [List.map_cons, List.takeWhile_cons_of_neg]
      simp only [decide_eq_true_eq]
      omega
  rw [upTo, append, List.takeWhile_append, hlate, upTo]
  split
  · rename_i hall
    rw [List.append_nil, (List.takeWhile_prefix _).eq_of_length hall]
  · rfl

theorem upTo_append_of_le (ha : a.Timely) (h : a.length ≤ limit) :
    (a.append b).upTo limit = a.log ++ b.upTo (limit - a.length) := by
  have hall : ∀ e ∈ a.entries, decide (e.1 ≤ limit) := by
    intro e he
    exact decide_eq_true (Nat.le_trans (ha e he) h)
  have hshift : ((fun e : Nat × Entry => decide (e.1 ≤ limit)) ∘
      fun e : Nat × Entry => (a.length + e.1, e.2)) =
        fun e => decide (e.1 ≤ limit - a.length) := by
    funext e
    have hiff : a.length + e.1 ≤ limit ↔ e.1 ≤ limit - a.length := by omega
    simp only [Function.comp_apply, hiff]
  rw [upTo, append, List.takeWhile_append_of_pos hall, List.takeWhile_map, hshift, List.map_append,
    List.map_map]
  rfl

/-- One course after another is dropped in the first one or in the second one. -/
theorem Stops.of_append (ha : a.Timely) (h : (a.append b).Stops log) :
    a.Stops log ∨ ∃ rest, b.Stops rest ∧ log = a.log ++ rest := by
  obtain ⟨limit, hlimit, rfl⟩ := h
  by_cases hlt : limit < a.length
  · exact .inl ⟨limit, hlt, upTo_append_of_lt hlt⟩
  · have hle : a.length ≤ limit := Nat.le_of_not_lt hlt
    refine .inr ⟨_, ⟨limit - a.length, ?_, rfl⟩, upTo_append_of_le ha hle⟩
    change limit < a.length + b.length at hlimit
    omega

theorem Timely.cut (ha : a.Timely) (limit : Nat) : (a.cut limit).Timely := by
  rw [Course.cut]
  split
  · exact ha
  · intro e he
    exact of_decide_eq_true (List.all_eq_true.1 List.all_takeWhile e he)

theorem takeWhile_of_le {entries : List (Nat × Entry)} {t : Nat} (h : t ≤ limit) :
    (entries.takeWhile fun e => e.1 ≤ limit).takeWhile (fun e => e.1 ≤ t) =
      entries.takeWhile fun e => e.1 ≤ t := by
  have hboth : (fun e : Nat × Entry => decide (e.1 ≤ t ∧ e.1 ≤ limit)) =
      fun e => decide (e.1 ≤ t) := by
    funext e
    have hiff : e.1 ≤ t ∧ e.1 ≤ limit ↔ e.1 ≤ t := by omega
    simp only [hiff]
  simp only [List.takeWhile_takeWhile, decide_eq_true_eq, hboth]

theorem upTo_cut {t : Nat} (h : t ≤ limit) : (a.cut limit).upTo t = a.upTo t := by
  rw [Course.cut]
  split
  · rfl
  · rw [upTo, takeWhile_of_le h, upTo]

/-- A course with a limit is dropped where it would be dropped without it. -/
theorem Stops.of_cut (h : (a.cut limit).Stops log) : a.Stops log := by
  obtain ⟨t, ht, rfl⟩ := h
  have hlength : (a.cut limit).length ≤ a.length ∧ (a.cut limit).length ≤ limit := by
    rw [Course.cut]
    split
    · exact ⟨Nat.le_refl _, by assumption⟩
    · exact ⟨Nat.le_of_lt (Nat.lt_of_not_le (by assumption)), Nat.le_refl _⟩
  exact ⟨t, Nat.lt_of_lt_of_le ht hlength.1, upTo_cut (Nat.le_trans (Nat.le_of_lt ht) hlength.2)⟩

end

end Course

namespace Session

/-- What is told of a session that begins after `past`: its result, or none if it is dropped, and
what has happened in it. -/
structure Tells (m : Session α) (past : Log) (T : Option α → Log → Prop) : Prop where
  timely : (m past).Timely
  ended : T (some (m past).result) (m past).log
  dropped : ∀ log, (m past).Stops log → T none log

section

variable {α β : Type} {m : Session α} {past : Log} {T : Option α → Log → Prop}

theorem Tells.mono {U : Option α → Log → Prop} (h : m.Tells past T)
    (hT : ∀ r log, T r log → U r log) : m.Tells past U :=
  ⟨h.timely, hT _ _ h.ended, fun log hlog => hT _ _ (h.dropped log hlog)⟩

/-- A session in which all happens at its start. -/
theorem Tells.atOnce {log : Log} {delay : Nat} {a : α}
    (hm : m past = ⟨log.map fun e => (0, e), delay, a⟩) (h : T (some a) log)
    (hdrop : 0 < delay → T none log) : m.Tells past T := by
  have hentries : ∀ e ∈ log.map fun e => ((0 : Nat), e), e.1 = 0 := by
    intro e he
    obtain ⟨e', _, rfl⟩ := List.mem_map.1 he
    rfl
  have hlog : (log.map fun e => ((0 : Nat), e)).map Prod.snd = log := by
    rw [List.map_map]
    exact List.map_id log
  constructor
  · intro e he
    rw [hm] at he ⊢
    rw [hentries e he]
    exact Nat.zero_le delay
  · rw [hm, Course.log, hlog]
    exact h
  · rintro dropped ⟨limit, hlimit, rfl⟩
    rw [hm] at hlimit ⊢
    have hall : ∀ e ∈ log.map fun e => ((0 : Nat), e), decide (e.1 ≤ limit) := by
      intro e he
      rw [hentries e he]
      exact decide_eq_true (Nat.zero_le limit)
    rw [Course.upTo, List.takeWhile_eq_self_iff.2 hall, hlog]
    exact hdrop (Nat.zero_lt_of_lt hlimit)

theorem Tells.pure {a : α} (h : T (some a) []) : Tells (Pure.pure a) past T :=
  .atOnce rfl h fun hdelay => absurd hdelay (Nat.lt_irrefl 0)

theorem Tells.note {log : Log} {U : Option Unit → Log → Prop} (h : U (some ()) log) :
    Tells (note log) past U :=
  .atOnce rfl h fun hdelay => absurd hdelay (Nat.lt_irrefl 0)

theorem Tells.wait {nanos : Nat} {U : Option Unit → Log → Prop} (h : U (some ()) [])
    (hdrop : U none []) : Tells (wait nanos) past U :=
  .atOnce rfl h fun _ => hdrop

/-- A session goes on with what its first part told. -/
theorem Tells.bind {f : α → Session β} {U : Option β → Log → Prop} (hm : m.Tells past T)
    (hdrop : ∀ log, T none log → U none log)
    (hf : ∀ a log, T (some a) log → (f a).Tells (past ++ log) fun r rest => U r (log ++ rest)) :
    Tells (m >>= f) past U := by
  have hrest := hf _ _ hm.ended
  refine ⟨hm.timely.append hrest.timely, ?_, fun log hlog => ?_⟩
  · have hended := hrest.ended
    rw [← Course.log_append] at hended
    exact hended
  · rcases Course.Stops.of_append hm.timely hlog with hfirst | ⟨rest, hsecond, rfl⟩
    · exact hdrop log (hm.dropped log hfirst)
    · exact hrest.dropped rest hsecond

theorem Tells.afterNote {log : Log} {f : Unit → Session β} {U : Option β → Log → Prop}
    (h : (f ()).Tells (past ++ log) fun r rest => U r (log ++ rest)) :
    Tells (Session.note log >>= f) past U := by
  have hnote : (Session.note log).Tells past fun r noted => r = some () ∧ noted = log :=
    .note ⟨rfl, rfl⟩
  apply hnote.bind
  · rintro noted ⟨hr, _⟩
    cases hr
  · rintro a noted ⟨_, rfl⟩
    exact h

theorem Tells.afterPhase {f : Phase → Session β} {U : Option β → Log → Prop}
    (h : (f past.phase).Tells past U) : Tells (Session.phase >>= f) past U := by
  have hphase : Session.phase.Tells past fun p log => p = some past.phase ∧ log = [] := by
    have hended : some past.phase = some past.phase ∧ ([] : Log) = [] := ⟨rfl, rfl⟩
    exact .atOnce rfl hended fun hdelay => absurd hdelay (Nat.lt_irrefl 0)
  apply hphase.bind
  · rintro log ⟨hp, _⟩
    cases hp
  · rintro p log ⟨hp, rfl⟩
    rw [Option.some.inj hp, List.append_nil]
    exact h

theorem Tells.exact (h : (m past).Timely) : m.Tells past fun r log =>
    (r = some (m past).result ∧ log = (m past).log) ∨ (r = none ∧ (m past).Stops log) :=
  ⟨h, .inl ⟨rfl, rfl⟩, fun _ hlog => .inr ⟨rfl, hlog⟩⟩

/-- A session with a time limit ends in time, or is given up, or is dropped. -/
theorem Tells.within {limit : Nat} {U : Option (Option α) → Log → Prop} (hm : (m past).Timely)
    (hended : (m past).length ≤ limit → U (some (some (m past).result)) (m past).log)
    (hgiven : limit < (m past).length → U (some none) ((m past).upTo limit))
    (hdrop : ∀ log, (m past).Stops log → U none log) : (within limit m).Tells past U := by
  refine ⟨hm.cut limit, ?_, fun log hlog => hdrop log hlog.of_cut⟩
  by_cases hle : (m past).length ≤ limit
  · have hcut : Session.within limit m past =
        { m past with result := some (m past).result } := if_pos hle
    rw [hcut]
    exact hended hle
  · have hcut : Session.within limit m past =
        ⟨(m past).entries.takeWhile fun e => e.1 ≤ limit, limit, none⟩ :=
      if_neg hle
    rw [hcut]
    exact hgiven (Nat.lt_of_not_le hle)

end

end Session

end Quarry
