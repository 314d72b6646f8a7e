import Quarry.Proofs.Faults
import Quarry.Proofs.Select.Reached

namespace Quarry

def orderLine (items : List OrderItem) : String :=
  if items = [] then "" else "ORDER BY " ++ Text.join ", " (items.map OrderItem.sql)

/-- Without an allow-list all identifiers are allowed. -/
def Sortable.Allows : Option Sortable → String → Prop
  | some f, field => f.contains field
  | none, field => Name.checkIdent field = .ok ()

section

variable {sortable : Option Sortable}

theorem OrderItem.check_eq_ok_iff {item : OrderItem} :
    item.check sortable = .ok () ↔ Sortable.Allows sortable item.field := by
  cases sortable with
  | none => exact ⟨of_naming, fun h => congrArg naming h⟩
  | some f => simp [check, Sortable.Allows]

theorem OrderItem.reports_text (item : OrderItem) :
    Reports (item.text sortable) (faultsOf (item.check sortable)) (· = item.sql) :=
  (Reports.of_result _).bind_ok fun _ _ => rfl

theorem reports_orderClause (items : List OrderItem) :
    Reports (orderClause items sortable) (items.flatMap fun item => faultsOf (item.check sortable))
      (· = orderLine items) := by
  rw [orderClause, orderLine]
  by_cases h : items = []
  · subst h
    exact .ok rfl
  · rw [if_neg h, if_neg h]
    apply (Reports.mapM_eq OrderItem.reports_text).bind_ok
    rintro _ rfl
    rfl

end

namespace Select

/-- What a SELECT is ordered by. -/
def ordering (s : Select) : List OrderItem :=
  s.order.getD []

/-- A finished SELECT whose order, if any, names allowed fields only. -/
structure OrderedBy (s : Select) (allowed : String → Prop) (q : Statement) : Prop where
  error : s.error = none
  fields : ∀ item ∈ s.ordering, allowed item.field
  statement : q = ⟨Text.join " " (s.clauseTexts (orderLine s.ordering)), s.orderedValues⟩

/-- Does a step select from all that was built before it? -/
def wraps (s : Select) : Step → Bool
  | .count => ¬(s.groups = [] ∧ s.havings = [])
  | _ => false

/-- Does one of the steps? -/
def wrapsAny (s : Select) : List Step → Bool
  | [] => false
  | st :: steps => s.wraps st || (s.apply st).wrapsAny steps

section

variable {s : Select} {src : Source} {f : Sortable} {q : Statement}

theorem reports_orderText (s : Select) :
    Reports s.orderText (s.ordering.flatMap fun item => faultsOf (item.check s.sortable))
      (· = orderLine s.ordering) := by
  rw [orderText, ordering]
  cases s.order with
  | none => exact .ok rfl
  | some items => exact reports_orderClause items

/-- A SELECT of which no step was rejected can fail for its order only. -/
theorem reports_build (h : s.error = none) :
    Reports s.build (s.ordering.flatMap fun item => faultsOf (item.check s.sortable))
      (s.OrderedBy fun _ => True) := by
  rw [build, h]
  apply s.reports_orderText.bind_ok
  rintro _ rfl
  exact ⟨h, fun _ _ => trivial, rfl⟩

theorem build_eq_ok_iff : s.build = .ok q ↔ s.OrderedBy (Sortable.Allows s.sortable) q := by
  have hfaults : (s.ordering.flatMap fun item => faultsOf (item.check s.sortable)) = [] ↔
      ∀ item ∈ s.ordering, Sortable.Allows s.sortable item.field := by
    simp only [List.flatMap_eq_nil_iff, faultsOf_eq_nil, OrderItem.check_eq_ok_iff]
  constructor
  · intro hq
    have hreports := reports_build (error_of_build hq)
    have hfields := hfaults.1 (hreports.exists_ok_iff.1 ⟨q, hq⟩)
    exact { hreports.of_ok hq with fields := hfields }
  · intro h
    have hreports := reports_build h.error
    obtain ⟨q', hq'⟩ := hreports.exists_ok_iff.2 (hfaults.2 h.fields)
    rw [hq', h.statement, (hreports.of_ok hq').statement]

theorem sortable_setSource : (s.setSource src).sortable = s.sortable := by
  unfold setSource
  split
  · rfl
  · split <;> rfl

theorem sortable_fromSource : (s.fromSource src).sortable = s.sortable := by
  rw [fromSource]
  split
  · exact sortable_setSource
  · split
    · rfl
    · exact sortable_setSource (s := s.dropSource)

theorem sortable_count (h : s.count.error = none) :
    s.count.sortable = if s.wraps .count then none else s.sortable := by
  rw [error_count] at h
  obtain ⟨hrows, hcount⟩ | ⟨hgroups, -, hcount⟩ | ⟨-, herror, -⟩ := s.count_cases
  · rw [hcount, wraps, if_neg (by simpa using hrows)]
    rfl
  · rw [hcount, wraps, if_pos (decide_eq_true hgroups)]
    rfl
  · exact absurd h herror

/-- One step keeps the allow-list, unless it starts anew. -/
theorem sortable_apply {st : Step} (hst : ∀ f, st ≠ .sortable f)
    (h : (s.apply st).error = none) :
    (s.apply st).sortable = if s.wraps st then none else s.sortable := by
  cases st with
  | source src => exact sortable_fromSource
  | join kind j =>
    change (s.join kind j).sortable = s.sortable
    obtain ⟨-, hjoin⟩ := of_accepted h (s.join_cases kind j)
    rw [hjoin]
  | filter g =>
    change (s.filter g).sortable = s.sortable
    obtain ⟨_, -, hfilter⟩ := of_accepted h (s.filter_cases g)
    rw [hfilter]
    rfl
  | having g =>
    change (s.having g).sortable = s.sortable
    obtain ⟨_, -, hhaving⟩ := of_accepted h (s.having_cases g)
    rw [hhaving]
    rfl
  | sortable f => exact absurd rfl (hst f)
  | count => exact sortable_count h
  | _ => rfl

theorem sortable_applyAll {steps : List Step} (hsteps : ∀ f, .sortable f ∉ steps)
    (h : (s.applyAll steps).error = none) :
    (s.applyAll steps).sortable = if s.wrapsAny steps then none else s.sortable := by
  induction steps generalizing s with
  | nil => rfl
  | cons st steps ih =>
    have hst : ∀ f, st ≠ .sortable f := fun f he => hsteps f (he ▸ .head _)
    have hrest := ih (s := s.apply st) (fun f hf => hsteps f (.tail _ hf)) h
    have hnext := sortable_apply hst (error_of_applyAll (s := s.apply st) h)
    change ((s.apply st).applyAll steps).sortable = _
    rw [hrest, hnext, wrapsAny]
    -- A list that is lost at this step does not come back at a later one.
    cases s.wraps st <;> cases (s.apply st).wrapsAny steps <;> rfl

/-- With an allow-list declared and not declared again, a statement is ordered by fields of the list
only, as long as no groups are counted. Afterwards it may be ordered by any identifier. -/
theorem build_ordered {steps : List Step} (hsteps : ∀ f', .sortable f' ∉ steps) :
    ((s.sortableBy f).applyAll steps).build = .ok q ↔
      ((s.sortableBy f).applyAll steps).OrderedBy
        (Sortable.Allows (if (s.sortableBy f).wrapsAny steps then none else some f)) q := by
  rw [build_eq_ok_iff]
  constructor
  · intro h
    rw [sortable_applyAll hsteps h.error] at h
    exact h
  · intro h
    rw [sortable_applyAll hsteps h.error]
    exact h

def ordersByTotal : Select :=
  (new .numbered (.table "orders")).sortableBy ⟨["total"]⟩

/-- Rows are counted under the allow-list. -/
theorem build_ordered_ordersByTotal :
    (∃ q, (ordersByTotal.applyAll [.count, .orderBy [⟨"total", .desc⟩]]).build = .ok q ∧
      q.sql = "SELECT COUNT(*) FROM orders ORDER BY total DESC") ∧
    ∀ q, (ordersByTotal.applyAll [.count, .orderBy [⟨"secret", .asc⟩]]).build ≠ .ok q := by
  have hsteps (items : List OrderItem) (f' : Sortable) :
      Step.sortable f' ∉ [Step.count, .orderBy items] := by
    simp
  constructor
  · have hsql : Text.join " " ((ordersByTotal.applyAll
        [.count, .orderBy [⟨"total", .desc⟩]]).clauseTexts (orderLine [⟨"total", .desc⟩])) =
        "SELECT COUNT(*) FROM orders ORDER BY total DESC" := by
      decide +kernel
    have htotal : Sortable.Allows (some ⟨["total"]⟩) "total" := by
      rw [Sortable.Allows]
      decide
    exact ⟨_, (build_ordered (hsteps _)).2 ⟨rfl, List.forall_mem_singleton.2 htotal, rfl⟩, hsql⟩
  · intro q hq
    have hordered := (build_ordered (hsteps _)).1 hq
    have hsecret : Sortable.contains ⟨["total"]⟩ "secret" :=
      hordered.fields ⟨"secret", .asc⟩ (.head _)
    exact absurd hsecret (by decide)

/-- Groups are counted without it: a field that is not in the list can be ordered by afterwards. -/
theorem exists_ordered_unlisted :
    ∃ (s : Select) (f : Sortable) (steps : List Step) (q : Statement),
      (∀ f', .sortable f' ∉ steps) ∧ ((s.sortableBy f).applyAll steps).build = .ok q ∧
      q.sql = "SELECT COUNT(*) FROM (SELECT * FROM orders GROUP BY customer) AS t " ++
        "ORDER BY secret ASC" ∧
      ∃ item ∈ ((s.sortableBy f).applyAll steps).ordering, f.contains item.field = false := by
  have hsql : (ordersByTotal.applyAll
      [.groupBy ["customer"], .count, .orderBy [⟨"secret", .asc⟩]]).build.toOption.map
        Statement.sql =
      some ("SELECT COUNT(*) FROM (SELECT * FROM orders GROUP BY customer) AS t " ++
        "ORDER BY secret ASC") := by
    decide +kernel
  obtain ⟨q, hq, hsql⟩ := Option.map_eq_some_iff.1 hsql
  refine ⟨new .numbered (.table "orders"), ⟨["total"]⟩, _, q, ?_, of_toOption hq, hsql, ?_⟩
  · simp
  · exact ⟨⟨"secret", .asc⟩, .head _, by decide⟩

end

end Select

end Quarry
