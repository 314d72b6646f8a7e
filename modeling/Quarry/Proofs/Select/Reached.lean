import Quarry.Proofs.Name.Inert
import Quarry.Proofs.Select.Faults

namespace Quarry

/-- A machine word counts the values of a subquery, as its placeholders are renumbered. -/
def Subquery.Fits (sub : Subquery) : Prop :=
  sub.values.length < UInt64.size

namespace Select

namespace Step

/-- The texts that go into the statement unchecked. -/
def rawTexts : Step → List String
  | columns names => names
  | source (.table text) => [text]
  | groupBy names => names
  | sortable fields => fields.fields
  | _ => []

def subquery? : Step → Option Subquery
  | source (.subquery sub) => some sub
  | _ => none

end Step

/-- What steps lead to when their raw texts are all allowed. Subqueries come from states that were
reached in the same way. -/
inductive Reached (raw : String → Prop) : Select → Prop where
  | table {text : String} (d : Dialect) (h : raw text) : Reached raw (new d (.table text))
  | subquery {t : Select} {name : String} {sub : Subquery} (d : Dialect) (ht : Reached raw t)
      (hsub : t.toSubquery name = .ok sub) : Reached raw (new d (.subquery sub))
  | splice {s t : Select} {name : String} {sub : Subquery} (hs : Reached raw s)
      (ht : Reached raw t) (hsub : t.toSubquery name = .ok sub) (hfits : sub.Fits) :
      Reached raw (s.fromSource (.subquery sub))
  | step {s : Select} {st : Step} (hs : Reached raw s) (hraw : ∀ text ∈ st.rawTexts, raw text)
      (hno : st.subquery? = none) : Reached raw (s.apply st)

theorem Reached.filter {raw : String → Prop} {s : Select} (h : Reached raw s) (g : Group) :
    Reached raw (s.filter g) :=
  @step raw s (.filter g) h nofun rfl

theorem Reached.counted {raw : String → Prop} {s : Select} (h : Reached raw s) : s.Counted := by
  induction h with
  | table d h => exact counted_new d _
  | subquery d ht hsub => exact counted_new d _
  | splice hs ht hsub hfits ih => exact ih.fromSource _
  | step hs hraw hno ih => exact ih.apply _

section

variable {s : Select} {src : Source}

theorem error_reject (s : Select) (why : Invalid) : (s.reject why).error ≠ none := by
  cases h : s.error <;> simp [reject, h]

/-- What leaves no error was not rejected. -/
theorem of_accepted {t : Select} {p : Prop} (h : t.error = none)
    (hcases : p ∨ ∃ why, t = s.reject why) : p := by
  obtain hp | ⟨why, ht⟩ := hcases
  · exact hp
  · rw [ht] at h
    exact absurd h (error_reject s why)

/-- An error stays. -/
theorem error_of_apply {st : Step} (h : (s.apply st).error = none) : s.error = none := by
  rw [error_apply] at h
  exact (Option.or_eq_none_iff.1 h).1

theorem error_of_applyAll {steps : List Step} (h : (s.applyAll steps).error = none) :
    s.error = none := by
  rw [error_applyAll] at h
  exact (Option.or_eq_none_iff.1 h).1

theorem error_of_fromSource (h : (s.fromSource src).error = none) : s.error = none :=
  @error_of_apply s (.source src) h

theorem error_of_build {q : Statement} (h : s.build = .ok q) : s.error = none := by
  rw [build] at h
  split at h
  · cases h
  · assumption

theorem build_of_toSubquery {name : String} {sub : Subquery} (h : s.toSubquery name = .ok sub) :
    Name.checkAlias name = .ok () ∧ s.build = .ok ⟨sub.sql, sub.values⟩ ∧ sub.name = name ∧
      sub.dialect = s.dialect := by
  obtain ⟨_, hname, h⟩ := of_bind h
  obtain ⟨q, hq, h⟩ := of_bind h
  cases h
  exact ⟨of_naming hname, hq, rfl, rfl⟩

/-- What is dropped with a source that binds no values is nothing. -/
theorem dropSource_eq_self (hc : s.Counted) (h : s.sourceParams = 0) : s.dropSource = s := by
  have hnone : Bound.valuesOf .source s.bound = [] := by
    rw [← List.length_eq_zero_iff, ← hc.source, h]
  have hbound : (s.bound.filter fun b => b.slot ≠ .source) = s.bound := by
    refine List.filter_eq_self.2 fun b hb => decide_eq_true fun hslot => ?_
    have hmem : b.value ∈ Bound.valuesOf .source s.bound :=
      List.mem_map_of_mem (List.mem_filter.2 ⟨hb, decide_eq_true hslot⟩)
    rw [hnone] at hmem
    cases hmem
  obtain ⟨dialect, config, columns, source, sourceParams, joins, filters, groups, havings, order,
    sortable, page, bound, cursor, error⟩ := s
  cases h
  simp only [dropSource, Nat.sub_zero]
  rw [hbound]

/-- A source that is not rejected takes the place of the old one, whose values are gone. -/
theorem fromSource_accepted (hc : s.Counted) (h : (s.fromSource src).error = none) :
    (s.sourceParams = 0 ∨ s.dialect = .unnumbered ∨ s.hasOtherValues = false) ∧
      s.fromSource src = s.dropSource.setSource src := by
  rw [fromSource] at h ⊢
  by_cases hzero : s.sourceParams = 0
  · rw [if_pos hzero, dropSource_eq_self hc hzero]
    exact ⟨.inl hzero, rfl⟩
  · rw [if_neg hzero] at h ⊢
    by_cases hlate : s.hasOtherValues ∧ s.dialect = .numbered
    · rw [if_pos hlate] at h
      exact absurd h (error_reject _ _)
    · rw [if_neg hlate]
      refine ⟨.inr ?_, rfl⟩
      cases hd : s.dialect with
      | unnumbered => exact .inl rfl
      | numbered => exact .inr (Bool.eq_false_iff.2 fun ho => hlate ⟨ho, hd⟩)

theorem setSource_accepted {sub : Subquery} (h : (s.setSource (.subquery sub)).error = none) :
    sub.dialect = s.dialect ∧ Name.checkAlias sub.name = .ok () ∧
      s.setSource (.subquery sub) =
        { s.addValues .source sub.values with
          source := "(" ++ Placeholder.shift s.dialect sub.sql s.cursor ++ ") AS " ++ sub.name
          sourceParams := sub.values.length
          cursor := s.cursor + sub.values.length } := by
  have hcheck : s.checkSubquery sub = .ok () := by
    rw [setSource] at h
    split at h
    · exact absurd h (error_reject _ _)
    · assumption
  rw [checkSubquery] at hcheck
  split at hcheck
  · rename_i hd
    have hname := of_naming hcheck
    exact ⟨hd, hname, setSource_subquery hd hname⟩
  · cases hcheck

end

end Select

end Quarry
