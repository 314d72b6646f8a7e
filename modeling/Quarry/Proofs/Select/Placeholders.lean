import Quarry.Proofs.Select.Build

namespace Quarry.Select

open Placeholder

section

variable {s : Select} {l : Layout} {src : Source}

theorem Follows.new {d : Dialect} (hsrc : src.Legible d 0) (hok : (new d src).error = none) :
    ∃ p : Passage, p.glyphs = src.inlined d ∧ (new d src).Follows { source := p } :=
  (follows_initial d).fromSource ⟨rfl, rfl⟩ hsrc hok

theorem Follows.toSubquery (h : s.Follows l) (ht : s.Tidy) {name : String} {sub : Subquery}
    (hsub : s.toSubquery name = .ok sub) :
    ∃ ps, (⟨sub.sql, sub.values⟩ : Statement).Says sub.dialect ps := by
  obtain ⟨-, hbuild, -, hdialect⟩ := build_of_toSubquery hsub
  obtain ⟨order, -, hread⟩ := says_of_build h ht hbuild
  exact ⟨_, hdialect ▸ hread⟩

theorem Follows.count (h : s.Follows l) (ht : s.Tidy) (hok : s.count.error = none) :
    ∃ l', s.count.Follows l' := by
  have hunpaged : s.unpaged.Follows l := h.frame rfl
  have htidy : s.unpaged.Tidy := ⟨ht.columns, ht.joins, ht.groups, ht.sortable⟩
  rw [error_count] at hok
  obtain ⟨-, hcount⟩ | ⟨-, -, hcount⟩ | ⟨-, herror, -⟩ := s.count_cases
  · rw [hcount]
    exact ⟨l, h.frame rfl⟩
  · have hsub := toSubquery_unpaged hok
    obtain ⟨hname, -, -, -⟩ := build_of_toSubquery hsub
    obtain ⟨ps, hps⟩ := hunpaged.toSubquery htidy hsub
    have hcounting := @new_subquery s.inner hname s.config
    have hnew : (Select.new s.dialect (.subquery s.inner)).error = none :=
      congrArg error hcounting
    obtain ⟨p, -, hp⟩ := Follows.new (.subquery hps (.inl rfl)) hnew
    rw [hcount, ← hcounting]
    exact ⟨_, hp.frame rfl⟩
  · exact absurd hok herror

/-- A step that is not rejected leads from layout to layout. -/
theorem Follows.apply (hc : s.Counted) (h : s.Follows l) (ht : s.Tidy) {st : Step}
    (hraw : ∀ text ∈ st.rawTexts, Plain text) (hno : st.subquery? = none)
    (hok : (s.apply st).error = none) : ∃ l', (s.apply st).Follows l' := by
  cases st with
  | source src =>
    cases src with
    | table text =>
      obtain ⟨p, -, hp⟩ := h.fromSource hc (.table ((hraw text (.head _)).inert _)) hok
      exact ⟨_, hp⟩
    | subquery sub => cases hno
  | join kind j =>
    change ∃ l', (s.join kind j).Follows l'
    change (s.join kind j).error = none at hok
    obtain ⟨-, hjoin⟩ := of_accepted hok (s.join_cases kind j)
    rw [hjoin]
    exact ⟨l, h.frame rfl⟩
  | filter g =>
    obtain ⟨c, -, -, -, hnew⟩ := h.filter hc hok
    exact ⟨_, hnew⟩
  | having g =>
    obtain ⟨c, -, -, -, hnew⟩ := h.having hc hok
    exact ⟨_, hnew⟩
  | count => exact h.count ht hok
  | _ => exact ⟨l, h.frame rfl⟩

theorem Reached.follows (h : Reached Plain s) (hok : s.error = none) : ∃ l, s.Follows l := by
  induction h with
  | table d h =>
    obtain ⟨p, -, hp⟩ := Follows.new (.table (h.inert d)) hok
    exact ⟨_, hp⟩
  | subquery d ht hsub ih =>
    obtain ⟨-, hbuild, -, -⟩ := build_of_toSubquery hsub
    obtain ⟨l, hl⟩ := ih (error_of_build hbuild)
    obtain ⟨ps, hps⟩ := hl.toSubquery ht.tidy hsub
    obtain ⟨p, -, hp⟩ := Follows.new (.subquery hps (.inl rfl)) hok
    exact ⟨_, hp⟩
  | splice hs ht hsub hfits ihs iht =>
    obtain ⟨l, hl⟩ := ihs (error_of_fromSource hok)
    obtain ⟨-, hbuild, -, -⟩ := build_of_toSubquery hsub
    obtain ⟨k, hk⟩ := iht (error_of_build hbuild)
    obtain ⟨ps, hps⟩ := hk.toSubquery ht.tidy hsub
    obtain ⟨p, -, hp⟩ := hl.fromSource hs.counted (.subquery hps (.inr hfits)) hok
    exact ⟨_, hp⟩
  | step hs hraw hno ih =>
    obtain ⟨l, hl⟩ := ih (error_of_apply hok)
    exact hl.apply hs.counted hs.tidy hraw hno hok

theorem values_of_build {q : Statement} (hq : s.build = .ok q) : q.values = s.orderedValues := by
  rw [build] at hq
  split at hq
  · cases hq
  · obtain ⟨order, -, hq⟩ := of_bind hq
    cases hq
    rfl

/-- Whatever the order of the steps and however deep the subqueries: the placeholders of a
statement are those of the numbers from one to the cursor, each of them once, and there are as
many values. -/
theorem build_placeholders {q : Statement} (hs : Reached Plain s) (hq : s.build = .ok q) :
    q.values.length = s.cursor ∧
      (placeholders s.dialect q.sql).Perm
        ((List.range' 1 s.cursor).map s.dialect.placeholder) := by
  obtain ⟨l, hl⟩ := hs.follows (error_of_build hq)
  obtain ⟨order, -, hread⟩ := says_of_build hl hs.tidy hq
  have hlength : q.values.length = s.cursor := by
    rw [values_of_build hq, length_orderedValues hs.counted]
  refine ⟨hlength, ?_⟩
  rw [hread.text, ← hlength]
  exact hread.binds.placeholders_text hread.legible

def ordersAbove (customer total : Int64) : Select :=
  let orders := (new .numbered (.table "orders")).filter
    ⟨⟨[("customer", .value (.int customer))]⟩, none⟩
  match orders.toSubquery "o" with
  | .ok sub =>
    (new .numbered (.subquery sub)).filter
      ⟨⟨[("total", .object [.compare .gt (.int total) rfl])]⟩, none⟩
  | .error _ => orders

theorem build_placeholders_ordersAbove :
    ∃ q, (ordersAbove 7 100).build = .ok q ∧
      q.sql = "SELECT * FROM (SELECT * FROM orders WHERE customer = $1) AS o WHERE total > $2" ∧
      q.values.length = (ordersAbove 7 100).cursor ∧
      (placeholders .numbered q.sql).Perm
        ((List.range' 1 (ordersAbove 7 100).cursor).map (Dialect.placeholder .numbered)) := by
  have hsql : (ordersAbove 7 100).build.toOption.map Statement.sql =
      some "SELECT * FROM (SELECT * FROM orders WHERE customer = $1) AS o WHERE total > $2" := by
    decide +kernel
  obtain ⟨q, hq, hsql⟩ := Option.map_eq_some_iff.1 hsql
  have hq := of_toOption hq
  have hreached : Reached Plain (ordersAbove 7 100) := by
    have horders : Reached Plain (new .numbered (.table "orders")) := .table _ (by decide)
    unfold ordersAbove
    simp only
    split
    · rename_i sub hsub
      have hinner : Reached Plain (new .numbered (.subquery sub)) :=
        .subquery _ (horders.filter _) hsub
      exact hinner.filter _
    · exact horders.filter _
  have hdialect : (ordersAbove 7 100).dialect = .numbered := by decide +kernel
  obtain ⟨hlength, hplaceholders⟩ := build_placeholders hreached hq
  rw [hdialect] at hplaceholders
  exact ⟨q, hq, hsql, hlength, hplaceholders⟩

end

end Quarry.Select
