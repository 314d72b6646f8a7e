import Quarry.Proofs.Search.Veiled
import Quarry.Select.History

namespace Quarry

def Bound.veiled (b : Bound) : Bound :=
  ⟨b.slot, b.value.veiled⟩

def Statement.veiled (q : Statement) : Statement :=
  ⟨q.sql, q.values.map Value.veiled⟩

def Subquery.veiled (sub : Subquery) : Subquery :=
  { sub with values := sub.values.map Value.veiled }

def Source.veiled : Source → Source
  | table text => table text
  | subquery sub => subquery sub.veiled

namespace Select

/-- The step with the values of its conditions, and those of the query it selects from, veiled. -/
def Step.veiled : Step → Step
  | source src => source src.veiled
  | filter g => filter g.veiled
  | having g => having g.veiled
  | st => st

def veiled (s : Select) : Select :=
  { s with bound := s.bound.map Bound.veiled }

section

variable (s : Select)

theorem reject_veiled (why : Invalid) : (s.reject why).veiled = s.veiled.reject why :=
  rfl

theorem addValues_veiled (slot : Slot) (vs : List Value) :
    (s.addValues slot vs).veiled = s.veiled.addValues slot (vs.map Value.veiled) := by
  simp [addValues, veiled, Function.comp_def, Bound.veiled]

theorem dropSource_veiled : s.dropSource.veiled = s.veiled.dropSource := by
  rw [dropSource, dropSource, veiled, veiled, List.filter_map]
  rfl

theorem checkSubquery_veiled (sub : Subquery) :
    s.veiled.checkSubquery sub.veiled = s.checkSubquery sub :=
  rfl

theorem setSource_veiled (src : Source) :
    (s.setSource src).veiled = s.veiled.setSource src.veiled := by
  cases src with
  | table text => rfl
  | subquery sub =>
    rw [setSource, Source.veiled, setSource, checkSubquery_veiled]
    split
    · rfl
    · simp [addValues, veiled, Subquery.veiled, Function.comp_def, Bound.veiled]

theorem hasOtherValues_veiled : s.veiled.hasOtherValues = s.hasOtherValues := by
  rw [hasOtherValues, veiled, List.any_map]
  rfl

theorem fromSource_veiled (src : Source) :
    (s.fromSource src).veiled = s.veiled.fromSource src.veiled := by
  rw [fromSource, fromSource, hasOtherValues_veiled, ← dropSource_veiled, ← setSource_veiled,
    ← setSource_veiled, ← reject_veiled, apply_ite veiled, apply_ite veiled]
  rfl

theorem new_veiled (d : Dialect) (src : Source) : (new d src).veiled = new d src.veiled :=
  fromSource_veiled { dialect := d } src

theorem groupText_veiled (g : Group) :
    s.veiled.groupText g.veiled =
      (s.groupText g).map fun r => (r.1, r.2.1, r.2.2.map Value.veiled) := by
  rw [groupText, groupText, Group.compile_veiled]
  cases g.compile with
  | error e => rfl
  | ok c =>
    have htext : c.veiled.text s.veiled.dialect s.veiled.cursor = c.text s.dialect s.cursor := rfl
    simp only [Except.map, bind, Except.bind, htext]
    cases c.text s.dialect s.cursor <;> rfl

theorem filter_veiled (g : Group) : (s.filter g).veiled = s.veiled.filter g.veiled := by
  rw [filter, filter, groupText_veiled]
  cases s.groupText g with
  | error e => rfl
  | ok r =>
    have hvalues := s.addValues_veiled .filter r.2.2
    exact congrArg
      (fun t : Select => { t with filters := s.filters ++ [r.1], cursor := r.2.1 }) hvalues

theorem having_veiled (g : Group) : (s.having g).veiled = s.veiled.having g.veiled := by
  rw [having, having, groupText_veiled]
  cases s.groupText g with
  | error e => rfl
  | ok r =>
    have hvalues := s.addValues_veiled .having r.2.2
    exact congrArg
      (fun t : Select => { t with havings := s.havings ++ [r.1], cursor := r.2.1 }) hvalues

theorem join_veiled (kind : JoinKind) (j : Join) :
    (s.join kind j).veiled = s.veiled.join kind j := by
  rw [join, join]
  cases j.text kind <;> rfl

theorem orderedValues_veiled : s.veiled.orderedValues = s.orderedValues.map Value.veiled := by
  have hdialect : s.veiled.dialect = s.dialect := rfl
  rw [orderedValues, orderedValues, hdialect]
  cases s.dialect with
  | numbered => simp [veiled, Function.comp_def, Bound.veiled]
  | unnumbered =>
    have hslot (slot : Slot) : (s.veiled.bound.filter fun b => b.slot = slot).map Bound.value =
        ((s.bound.filter fun b => b.slot = slot).map Bound.value).map Value.veiled := by
      rw [veiled, List.filter_map, List.map_map, List.map_map]
      rfl
    simp only [hslot, List.map_flatMap]

theorem build_veiled : s.veiled.build = s.build.map Statement.veiled := by
  have herror : s.veiled.error = s.error := rfl
  have horder : s.veiled.orderText = s.orderText := rfl
  rw [build, build, herror, horder, orderedValues_veiled]
  cases s.error with
  | some why => rfl
  | none => cases s.orderText <;> rfl

theorem toSubquery_veiled (name : String) :
    s.veiled.toSubquery name = (s.toSubquery name).map Subquery.veiled := by
  rw [toSubquery, toSubquery, build_veiled]
  cases naming (Name.checkAlias name) with
  | error e => rfl
  | ok _ => cases s.build <;> rfl

theorem count_veiled : s.count.veiled = s.veiled.count := by
  have hunpaged : s.veiled.unpaged = s.unpaged.veiled := rfl
  have hgroups : s.unpaged.veiled.groups = s.unpaged.groups := rfl
  have hhavings : s.unpaged.veiled.havings = s.unpaged.havings := rfl
  rw [count, count, hunpaged, hgroups, hhavings, toSubquery_veiled, apply_ite veiled]
  congr 1
  cases s.unpaged.toSubquery "t" with
  | error why => rfl
  | ok sub =>
    have hnew := new_veiled s.dialect (.subquery sub)
    exact congrArg (fun t : Select => (t.configure s.config).select countColumns) hnew

/-- A step does to a veiled state what it does to the state itself. -/
theorem apply_veiled (st : Step) : (s.apply st).veiled = s.veiled.apply st.veiled := by
  cases st with
  | source src => exact s.fromSource_veiled src
  | join kind j => exact s.join_veiled kind j
  | filter g => exact s.filter_veiled g
  | having g => exact s.having_veiled g
  | count => exact s.count_veiled
  | _ => rfl

theorem applyAll_veiled (steps : List Step) :
    (s.applyAll steps).veiled = s.veiled.applyAll (steps.map Step.veiled) := by
  induction steps generalizing s with
  | nil => rfl
  | cons st steps ih =>
    have hrest := ih (s.apply st)
    rwa [apply_veiled] at hrest

end

/-- The states of two runs that differ in nothing but the contents of values. Each subquery comes
from two such runs as well. -/
inductive Alike : Select → Select → Prop where
  | table (d : Dialect) (text : String) : Alike (new d (.table text)) (new d (.table text))
  | subquery {t t' : Select} {name : String} {sub sub' : Subquery} (d : Dialect) (ht : Alike t t')
      (hsub : t.toSubquery name = .ok sub) (hsub' : t'.toSubquery name = .ok sub') :
      Alike (new d (.subquery sub)) (new d (.subquery sub'))
  | splice {s s' t t' : Select} {name : String} {sub sub' : Subquery} (hs : Alike s s')
      (ht : Alike t t') (hsub : t.toSubquery name = .ok sub)
      (hsub' : t'.toSubquery name = .ok sub') :
      Alike (s.fromSource (.subquery sub)) (s'.fromSource (.subquery sub'))
  | step {s s' : Select} {st st' : Step} (hs : Alike s s') (hst : st.veiled = st'.veiled) :
      Alike (s.apply st) (s'.apply st')

/-- The same error, or the same text with as many values. -/
inductive SameText : Except Invalid Statement → Except Invalid Statement → Prop where
  | error (why : Invalid) : SameText (.error why) (.error why)
  | ok {q q' : Statement} (hsql : q.sql = q'.sql) (hvalues : q.values.length = q'.values.length) :
      SameText (.ok q) (.ok q')

section

variable {s s' t t' : Select} {name : String} {sub sub' : Subquery}

theorem veiled_subquery (h : t.veiled = t'.veiled) (hsub : t.toSubquery name = .ok sub)
    (hsub' : t'.toSubquery name = .ok sub') : sub.veiled = sub'.veiled := by
  have hveiled := t.toSubquery_veiled name
  rw [h, toSubquery_veiled, hsub, hsub'] at hveiled
  exact (Except.ok.inj hveiled).symm

/-- Nothing but the contents of values is different in the states of such runs. -/
theorem Alike.veiled (h : Alike s s') : s.veiled = s'.veiled := by
  induction h with
  | table => rfl
  | subquery d _ hsub hsub' ih =>
    rw [new_veiled, new_veiled, Source.veiled, Source.veiled, veiled_subquery ih hsub hsub']
  | splice _ _ hsub hsub' ihs iht =>
    rw [fromSource_veiled, fromSource_veiled, Source.veiled, Source.veiled,
      veiled_subquery iht hsub hsub', ihs]
  | step _ hst ih => rw [apply_veiled, apply_veiled, hst, ih]

theorem sameText_of_veiled {r r' : Except Invalid Statement}
    (h : r.map Statement.veiled = r'.map Statement.veiled) : SameText r r' := by
  cases r with
  | error e =>
    cases r' with
    | error e' =>
      cases h
      exact .error e
    | ok q' => cases h
  | ok q =>
    cases r' with
    | error e' => cases h
    | ok q' =>
      have hq : q.veiled = q'.veiled := Except.ok.inj h
      have hsql : q.veiled.sql = q'.veiled.sql := congrArg Statement.sql hq
      have hlength := congrArg (fun q => q.values.length) hq
      simp only [Statement.veiled, List.length_map] at hlength
      exact .ok hsql hlength

/-- Runs that differ in nothing but the contents of values have the same cursor after every step,
and in the end the same error or the same text with as many values. -/
theorem build_alike {steps steps' : List Step} (h : Alike s s')
    (hsteps : steps.map Step.veiled = steps'.map Step.veiled) :
    (∀ n, (s.applyAll (steps.take n)).cursor = (s'.applyAll (steps'.take n)).cursor) ∧
      SameText (s.applyAll steps).build (s'.applyAll steps').build := by
  have hveiled {as as' : List Step} (has : as.map Step.veiled = as'.map Step.veiled) :
      (s.applyAll as).veiled = (s'.applyAll as').veiled := by
    rw [applyAll_veiled, applyAll_veiled, has, h.veiled]
  constructor
  · intro n
    have htake : (steps.take n).map Step.veiled = (steps'.take n).map Step.veiled := by
      rw [List.map_take, List.map_take, hsteps]
    have hcursor := congrArg Select.cursor (hveiled htake)
    exact hcursor
  · apply sameText_of_veiled
    rw [← build_veiled, ← build_veiled, hveiled hsteps]

def ordersOf (customer : Int64) : Select :=
  (new .numbered (.table "orders")).filter ⟨⟨[("customer", .value (.int customer))]⟩, none⟩

def moreThan (count : Int64) : List Step :=
  [.having ⟨⟨[("COUNT(*)", .object [.custom ">" (.int count)])]⟩, none⟩, .groupBy ["day"],
    .count]

theorem build_alike_ordersOf :
    ∃ q q', ((ordersOf 7).applyAll (moreThan 2)).build = .ok q ∧
      ((ordersOf 8).applyAll (moreThan 3)).build = .ok q' ∧
      q.sql = "SELECT COUNT(*) FROM (SELECT * FROM orders WHERE customer = $1" ++
        " GROUP BY day HAVING COUNT(*) > $2) AS t" ∧
      q.sql = q'.sql ∧ q.values.length = q'.values.length := by
  have hsql : ((ordersOf 7).applyAll (moreThan 2)).build.toOption.map Statement.sql =
      some ("SELECT COUNT(*) FROM (SELECT * FROM orders WHERE customer = $1" ++
        " GROUP BY day HAVING COUNT(*) > $2) AS t") := by
    decide +kernel
  obtain ⟨q, hq, hsql⟩ := Option.map_eq_some_iff.1 hsql
  have halike : Alike (ordersOf 7) (ordersOf 8) :=
    have hst : (Step.filter ⟨⟨[("customer", .value (.int 7))]⟩, none⟩).veiled =
        (Step.filter ⟨⟨[("customer", .value (.int 8))]⟩, none⟩).veiled := rfl
    .step (.table .numbered "orders") hst
  have hsteps : (moreThan 2).map Step.veiled = (moreThan 3).map Step.veiled := rfl
  have hsame := (build_alike halike hsteps).2
  have hq := of_toOption hq
  rw [hq] at hsame
  cases hbuild : ((ordersOf 8).applyAll (moreThan 3)).build with
  | error e =>
    rw [hbuild] at hsame
    cases hsame
  | ok q' =>
    rw [hbuild] at hsame
    cases hsame with
    | ok htext hvalues => exact ⟨q, q', hq, rfl, hsql, htext, hvalues⟩

end

end Select

end Quarry
