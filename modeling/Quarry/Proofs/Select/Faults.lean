import Quarry.Proofs.Clause.Parts
import Quarry.Proofs.Search.Faults
import Quarry.Proofs.Select.Count

namespace Quarry

namespace Fragment

theorem reports_checks (d : Dialect) (fs : List Fragment) :
    Reports (checks d fs) (fs.flatMap fun f => faultsOf (f.check d)) fun _ => True := by
  induction fs with
  | nil => exact .ok trivial
  | cons f fs ih =>
    rw [checks, List.flatMap_cons]
    exact (Reports.of_result _).bind fun _ _ => ih

end Fragment

/-- The faults of writing the conditions of a group, which is done when it is compiled. -/
def Group.textFaults (g : Group) (d : Dialect) : List Invalid :=
  (g.searches.flatMap Search.terms).flatMap fun t => faultsOf (t.fragment.check d)

theorem Group.all_ofTerms (g : Group) :
    (Compiled.ofTerms g.search.terms ((g.alternatives.getD []).map Search.terms)).all =
      (g.searches.flatMap Search.terms).map Term.fragment := by
  rw [searches, List.flatMap_cons, List.map_append, List.flatMap_def, List.map_flatten]
  rfl

/-- The faults of the names of a join. -/
def Join.faults (j : Join) : List Invalid :=
  ([j.target, j.targetField, j.source, j.sourceField].flatMap (fun name =>
      faultsOf (Name.checkIdent name)) ++
    j.rename.toList.flatMap fun name => faultsOf (Name.checkAlias name)).map .badName

theorem Join.reports_text (j : Join) (kind : JoinKind) :
    Reports (j.text kind) j.faults (· = j.sql kind) := by
  have hcheck : Reports j.check ([j.target, j.targetField, j.source, j.sourceField].flatMap
      (fun name => faultsOf (Name.checkIdent name)) ++
        j.rename.toList.flatMap fun name => faultsOf (Name.checkAlias name)) fun _ => True := by
    simp only [List.flatMap_cons, List.flatMap_nil, List.append_nil, List.append_assoc]
    apply (Reports.of_result _).bind
    intro _ _
    apply (Reports.of_result _).bind
    intro _ _
    apply (Reports.of_result _).bind
    intro _ _
    apply (Reports.of_result _).bind
    intro _ _
    cases j.rename with
    | none => exact .ok trivial
    | some name =>
      rw [Option.toList_some, List.flatMap_cons, List.flatMap_nil, List.append_nil]
      exact .of_result _
  exact hcheck.mapError.bind_ok fun _ _ => rfl

/-- The faults of a subquery in a SELECT of the given dialect. -/
def Subquery.faults (d : Dialect) (sub : Subquery) : List Invalid :=
  faultIf (sub.dialect ≠ d) (.foreignSubquery sub.name sub.dialect d) ++
    (faultsOf (Name.checkAlias sub.name)).map .badName

def Source.faults (d : Dialect) : Source → List Invalid
  | table _ => []
  | subquery sub => sub.faults d

namespace Select

/-- Can the source not be replaced any more, as other values were numbered after its own? -/
def sourceFixed (s : Select) : Bool :=
  s.sourceParams ≠ 0 ∧ s.hasOtherValues ∧ s.dialect = .numbered

def faults (s : Select) : Step → List Invalid
  | .source src => faultIf s.sourceFixed .boundSource ++ src.faults s.dialect
  | .join _ j => j.faults
  | .filter g => g.faults ++ g.textFaults s.dialect
  | .having g => g.faults ++ g.textFaults s.dialect
  | _ => []

/-- Why a step is refused, if it is. -/
def refusal? (s : Select) (st : Step) : Option Invalid :=
  (s.faults st).head?

/-- The refusals of a run, one for each step that is refused. -/
def refusals (s : Select) : List Step → List Invalid
  | [] => []
  | st :: steps => (s.refusal? st).toList ++ (s.apply st).refusals steps

/-- Does a step take the values of the source back before it looks at what takes their place? -/
def replacesValues (s : Select) : Step → Bool
  | .source _ => s.sourceParams ≠ 0 ∧ ¬s.sourceFixed
  | _ => false

/-- A SELECT as a refused step leaves it, apart from the error. -/
def afterRefusal (s : Select) (st : Step) : Select :=
  if s.replacesValues st then s.dropSource else s

section

variable {s : Select} {st : Step} {src : Source} {sub : Subquery} {why : Invalid}

theorem reports_checkSubquery (s : Select) (sub : Subquery) :
    Reports (s.checkSubquery sub) (sub.faults s.dialect) fun _ => True := by
  rw [checkSubquery, Subquery.faults]
  by_cases hd : sub.dialect = s.dialect
  · rw [if_pos hd, faultIf, if_neg (not_not_intro hd)]
    exact (Reports.of_result _).mapError
  · rw [if_neg hd, faultIf, if_pos hd]
    rfl

theorem reports_groupText (s : Select) (g : Group) :
    Reports (s.groupText g) (g.faults ++ g.textFaults s.dialect) fun _ => True := by
  rw [groupText_eq]
  apply g.reports_compile.bind
  rintro _ rfl
  have hchecks :=
    Fragment.reports_checks s.dialect ((g.searches.flatMap Search.terms).map Term.fragment)
  rw [List.flatMap_map] at hchecks
  rw [g.all_ofTerms]
  exact hchecks.map fun _ _ => trivial

theorem refusal?_eq_none : s.refusal? st = none ↔ s.faults st = [] :=
  List.head?_eq_none_iff

theorem setSource_refused (h : (src.faults s.dialect).head? = some why) :
    s.setSource src = s.reject why := by
  cases src with
  | table text => cases h
  | subquery sub =>
    have hcheck := (s.reports_checkSubquery sub).error_iff.2 h
    rw [setSource, hcheck]

theorem error_setSource (h : src.faults s.dialect = []) : (s.setSource src).error = s.error := by
  cases src with
  | table text => rfl
  | subquery sub =>
    obtain ⟨_, hcheck⟩ := (s.reports_checkSubquery sub).exists_ok_iff.2 h
    rw [setSource, hcheck]
    rfl

theorem fromSource_fixed (h : s.sourceFixed) : s.fromSource src = s.reject .boundSource := by
  obtain ⟨hparams, hlate⟩ := of_decide_eq_true h
  rw [fromSource, if_neg hparams, if_pos hlate]

theorem fromSource_free (h : ¬s.sourceFixed) :
    s.fromSource src = (s.afterRefusal (.source src)).setSource src := by
  rw [fromSource, afterRefusal, replacesValues]
  by_cases hparams : s.sourceParams = 0
  · rw [if_pos hparams, if_neg (by simp [hparams])]
  · have hlate : ¬(s.hasOtherValues ∧ s.dialect = .numbered) := fun hlate =>
      h (decide_eq_true ⟨hparams, hlate⟩)
    rw [if_neg hparams, if_neg hlate, if_pos (decide_eq_true ⟨hparams, h⟩)]

theorem faults_source_fixed (h : s.sourceFixed) :
    s.faults (.source src) = .boundSource :: src.faults s.dialect := by
  rw [faults, faultIf, if_pos h]
  rfl

theorem faults_source_free (h : ¬s.sourceFixed) :
    s.faults (.source src) = src.faults s.dialect := by
  rw [faults, faultIf, if_neg h]
  rfl

theorem dialect_afterRefusal (s : Select) (st : Step) :
    (s.afterRefusal st).dialect = s.dialect := by
  rw [afterRefusal]
  split <;> rfl

theorem error_afterRefusal (s : Select) (st : Step) : (s.afterRefusal st).error = s.error := by
  rw [afterRefusal]
  split <;> rfl

/-- A refused step leaves its refusal, and nothing else but that the values of a source that was to
be replaced are gone. -/
theorem apply_refused (h : s.refusal? st = some why) :
    s.apply st = (s.afterRefusal st).reject why := by
  cases st with
  | source src =>
    rw [refusal?] at h
    change s.fromSource src = _
    by_cases hfixed : s.sourceFixed
    · rw [faults_source_fixed hfixed] at h
      cases h
      rw [fromSource_fixed hfixed, afterRefusal, replacesValues, if_neg (by simp [hfixed])]
    · rw [faults_source_free hfixed] at h
      rw [fromSource_free hfixed]
      apply setSource_refused
      rwa [dialect_afterRefusal]
  | join kind j =>
    have htext := (j.reports_text kind).error_iff.2 h
    change s.join kind j = s.reject why
    rw [join, htext]
  | filter g =>
    have htext := (s.reports_groupText g).error_iff.2 h
    change s.filter g = s.reject why
    rw [filter, htext]
  | having g =>
    have htext := (s.reports_groupText g).error_iff.2 h
    change s.having g = s.reject why
    rw [having, htext]
  | _ => cases h

theorem error_apply_accepted (h : s.faults st = []) : (s.apply st).error = s.error := by
  cases st with
  | source src =>
    change (s.fromSource src).error = _
    have hfixed : ¬s.sourceFixed := by
      intro hfixed
      rw [faults_source_fixed hfixed] at h
      cases h
    rw [faults_source_free hfixed, ← s.dialect_afterRefusal (.source src)] at h
    rw [fromSource_free hfixed, error_setSource h, error_afterRefusal]
  | join kind j =>
    obtain ⟨_, htext⟩ := (j.reports_text kind).exists_ok_iff.2 h
    change (s.join kind j).error = _
    rw [join, htext]
  | filter g =>
    obtain ⟨_, htext⟩ := (s.reports_groupText g).exists_ok_iff.2 h
    change (s.filter g).error = _
    rw [filter, htext]
    rfl
  | having g =>
    obtain ⟨_, htext⟩ := (s.reports_groupText g).exists_ok_iff.2 h
    change (s.having g).error = _
    rw [having, htext]
    rfl
  | count => exact error_count s
  | _ => rfl

/-- The first error is kept, and a refusal is the first one if there is none. -/
theorem error_apply (s : Select) (st : Step) : (s.apply st).error = s.error.or (s.refusal? st) := by
  cases h : s.refusal? st with
  | none => rw [error_apply_accepted (refusal?_eq_none.1 h), Option.or_none]
  | some why =>
    rw [apply_refused h, reject, error_afterRefusal]

theorem error_applyAll (s : Select) (steps : List Step) :
    (s.applyAll steps).error = s.error.or (s.refusals steps).head? := by
  induction steps generalizing s with
  | nil => exact Option.or_none.symm
  | cons st steps ih =>
    change ((s.apply st).applyAll steps).error = _
    rw [ih, error_apply, refusals, List.head?_append, Option.head?_toList, Option.or_assoc]

theorem refusals_append (s : Select) (steps more : List Step) :
    s.refusals (steps ++ more) = s.refusals steps ++ (s.applyAll steps).refusals more := by
  induction steps generalizing s with
  | nil => rfl
  | cons st steps ih =>
    rw [List.cons_append, refusals, ih, refusals, List.append_assoc]
    rfl

end

end Select

end Quarry
