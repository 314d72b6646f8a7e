import Quarry.Proofs.Select.Sortable
import Quarry.Transaction.Connection

namespace Quarry.Select

/-- A SELECT that can neither be finished nor be selected from nor be run. An attempt to run it does
not reach the connection. -/
structure FailsWith (s : Select) (why : Invalid) : Prop where
  build : s.build = .error why
  subquery : ∀ name, Name.checkAlias name = .ok () → s.toSubquery name = .error why
  execute : ∀ {ρ : Type} (c : Connection ρ) (past : Log),
    s.execute c past = ⟨[], 0, .error (.invalid why)⟩

/-- A SELECT that fails exactly if its order does. -/
structure FailsForOrder (s : Select) : Prop where
  ok : (∃ q, s.build = .ok q) ↔ ∀ item ∈ s.ordering, Sortable.Allows s.sortable item.field
  error : ∀ why, s.build = .error why ↔ orderClause s.ordering s.sortable = .error why

/-- The refusals of a whole run, that of the first source included. -/
def runRefusals (d : Dialect) (src : Source) (steps : List Step) : List Invalid :=
  ({ dialect := d } : Select).refusals (.source src :: steps)

section

variable {s : Select} {st : Step} {why : Invalid}

theorem failsWith_of_error (h : s.error = some why) : s.FailsWith why := by
  have hbuild : s.build = .error why := by rw [build, h]
  refine ⟨hbuild, fun name hname => ?_, fun c past => ?_⟩
  · rw [toSubquery, hname, hbuild]
    rfl
  · rw [execute, hbuild]
    rfl

theorem failsForOrder_of_error (h : s.error = none) : s.FailsForOrder := by
  refine ⟨⟨?_, fun hfields => ?_⟩, fun why => ?_⟩
  · rintro ⟨q, hq⟩
    exact (build_eq_ok_iff.1 hq).fields
  · exact ⟨_, build_eq_ok_iff.2 ⟨h, hfields, rfl⟩⟩
  · exact (reports_build h).error_iff.trans (reports_orderClause s.ordering).error_iff.symm

/-- A new SELECT is blank but for its source. -/
theorem error_run (d : Dialect) (src : Source) (steps : List Step) :
    ((new d src).applyAll steps).error = (runRefusals d src steps).head? :=
  error_applyAll { dialect := d } (.source src :: steps)

theorem runRefusals_append (d : Dialect) (src : Source) (steps more : List Step) :
    runRefusals d src (steps ++ more) =
      runRefusals d src steps ++ ((new d src).applyAll steps).refusals more :=
  refusals_append { dialect := d } (.source src :: steps) more

/-- The first refusal of a run is what the SELECT fails with from then on. Without one it fails for
its order only. -/
theorem first_refusal_stays (d : Dialect) (src : Source) (steps : List Step) :
    (∀ why, (runRefusals d src steps).head? = some why →
      ∀ more, ((new d src).applyAll (steps ++ more)).FailsWith why) ∧
    (runRefusals d src steps = [] → ((new d src).applyAll steps).FailsForOrder) := by
  constructor
  · intro why hfirst more
    apply failsWith_of_error
    rw [error_run, runRefusals_append, List.head?_append, hfirst, Option.some_or]
  · intro hnone
    apply failsForOrder_of_error
    rw [error_run, hnone]
    rfl

/-- A field of the join is no identifier. -/
def misjoined : List Step :=
  [.groupBy ["customer"], .join .left ⟨"customers", "1st", "orders", "customer", none⟩]

def aboveNull : Step :=
  .filter ⟨⟨[("total", .object [.between .null (.int 9)])]⟩, none⟩

/-- Counting the groups and a second refusal are of no account. -/
theorem first_refusal_stays_misjoined :
    ((new .numbered (.table "orders")).applyAll (misjoined ++ [.count, aboveNull])).FailsWith
      (.badName (.badStart "1st" '1')) ∧
    ∀ q, ((new .numbered (.table "orders")).applyAll
      [.sortable ⟨["total"]⟩, .orderBy [⟨"secret", .asc⟩]]).build ≠ .ok q := by
  obtain ⟨hstays, -⟩ := first_refusal_stays .numbered (.table "orders") misjoined
  obtain ⟨-, horder⟩ := first_refusal_stays .numbered (.table "orders")
    [.sortable ⟨["total"]⟩, .orderBy [⟨"secret", .asc⟩]]
  refine ⟨hstays _ (by decide +kernel) _, fun q hq => ?_⟩
  have hallowed := (horder rfl).ok.1 ⟨q, hq⟩
  have hsecret : Sortable.contains ⟨["total"]⟩ "secret" := hallowed ⟨"secret", .asc⟩ (.head _)
  exact absurd hsecret (by decide)

theorem dropSource_ne_self (h : s.sourceParams ≠ 0) : s.dropSource ≠ s := by
  intro hsame
  have hparams : s.dropSource.sourceParams = s.sourceParams := by rw [hsame]
  exact h hparams.symm

theorem sourceParams_of_replacesValues (h : s.replacesValues st) : s.sourceParams ≠ 0 := by
  cases st with
  | source src => exact (of_decide_eq_true h).1
  | _ => cases h

/-- A refused step changes nothing but the error, unless it was to replace the values of a source.
Then these are dropped, and the text that they belong to stays. -/
theorem refused_unchanged_iff (h : s.refusal? st = some why) :
    (s.apply st).error = s.error.or (some why) ∧
    ({ s.apply st with error := s.error } = s ↔ ¬s.replacesValues st) ∧
    (s.replacesValues st → { s.apply st with error := s.error } = s.dropSource) := by
  have happly : { s.apply st with error := s.error } = s.afterRefusal st := by
    rw [apply_refused h, ← s.error_afterRefusal st]
    rfl
  rw [happly, error_apply, h, afterRefusal]
  refine ⟨rfl, ⟨fun hsame hreplaces => ?_, fun h => if_neg h⟩, fun h => if_pos h⟩
  rw [if_pos hreplaces] at hsame
  exact dropSource_ne_self (sourceParams_of_replacesValues hreplaces) hsame

def paidOrders : Subquery :=
  (((new .numbered (.table "orders")).filter
      ⟨⟨[("state", .value (.text "paid"))]⟩, none⟩).toSubquery
    "o").toOption.get (by decide +kernel)

def foreignUsers : Subquery :=
  ((new .unnumbered (.table "users")).toSubquery "u").toOption.get (by decide +kernel)

def ofPaidOrders : Select :=
  new .numbered (.subquery paidOrders)

/-- A condition that is refused leaves the values of the source, another source does not. -/
theorem refused_unchanged_iff_ofPaidOrders :
    { ofPaidOrders.apply aboveNull with error := none } = ofPaidOrders ∧
    (ofPaidOrders.apply aboveNull).error = some (.inField "total" (.nullBound .between)) ∧
    { ofPaidOrders.apply (.source (.subquery foreignUsers)) with error := none } =
      ofPaidOrders.dropSource ∧
    (ofPaidOrders.apply (.source (.subquery foreignUsers))).error =
      some (.foreignSubquery "u" .unnumbered .numbered) := by
  have habove : ofPaidOrders.refusal? aboveNull =
      some (.inField "total" (.nullBound .between)) := by
    decide +kernel
  have hforeign : ofPaidOrders.refusal? (.source (.subquery foreignUsers)) =
      some (.foreignSubquery "u" .unnumbered .numbered) := by
    decide +kernel
  have hreplaces : ofPaidOrders.replacesValues (.source (.subquery foreignUsers)) := by
    decide +kernel
  have hnone : ofPaidOrders.error = none := by decide +kernel
  obtain ⟨herror, hsame, -⟩ := refused_unchanged_iff habove
  obtain ⟨herror', -, hdropped⟩ := refused_unchanged_iff hforeign
  rw [hnone] at herror herror' hsame hdropped
  exact ⟨hsame.2 nofun, herror, hdropped hreplaces, herror'⟩

/-- When the other source is refused, the numbers of the old one have been given back and its values
are gone. Its text stays, with the placeholder. -/
theorem exists_refused_changed :
    ∃ (s t : Select) (sub : Subquery) (why : Invalid),
      Reached (fun _ => True) s ∧ Reached (fun _ => True) t ∧ t.toSubquery "u" = .ok sub ∧
      s.refusal? (.source (.subquery sub)) = some why ∧
      s.cursor = 1 ∧ (s.apply (.source (.subquery sub))).cursor = 0 ∧
      s.bound.length = 1 ∧ (s.apply (.source (.subquery sub))).bound.length = 0 ∧
      (s.apply (.source (.subquery sub))).source =
        "(SELECT * FROM orders WHERE state = $1) AS o" := by
  have hreached : Reached (fun _ => True) ofPaidOrders :=
    .subquery .numbered ((Reached.table .numbered trivial).filter _)
      (of_toOption (Option.some_get _).symm)
  refine ⟨ofPaidOrders, _, foreignUsers, .foreignSubquery "u" .unnumbered .numbered, hreached,
    .table .unnumbered trivial, of_toOption (Option.some_get _).symm, ?_⟩
  decide +kernel

end

end Quarry.Select
