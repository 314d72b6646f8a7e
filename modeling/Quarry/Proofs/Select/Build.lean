import Quarry.Proofs.Select.Layout
import Quarry.Proofs.Select.Tidy

namespace Quarry

open Text Placeholder

namespace Passage

theorem holes_of_tautology {d : Dialect} {p : Passage} (hl : Legible d (parts p))
    (h : p.text d = tautology) : p.holes = [] := by
  have hinert : Inert d tautology.toList := inert_of_all (by cases d <;> decide)
  have hnone := placeholders_write hl
  change placeholders d (p.text d) = _ at hnone
  rw [h, placeholders_of_inert hinert] at hnone
  have hnumbers := List.map_eq_nil_iff.1 hnone.symm
  rwa [numbers_parts, List.map_eq_nil_iff] at hnumbers

/-- The passages that say something. -/
def kept (d : Dialect) (ps : List Passage) : List Passage :=
  ps.filter fun p => p.text d ≠ tautology

def conjoined (d : Dialect) (ps : List Passage) : Passage :=
  if (kept d ps).isEmpty then ofText tautology else (ofText " AND ").intercalate (kept d ps)

section

variable {d : Dialect} {ps : List Passage}

theorem text_conjoined : text d (conjoined d ps) = Select.conjunction (ps.map (text d)) := by
  have hkept : (ps.map (text d)).filter (· ≠ tautology) = (kept d ps).map (text d) := by
    rw [List.filter_map]
    rfl
  unfold conjoined Select.conjunction
  simp only [hkept, List.map_eq_nil_iff, List.isEmpty_iff]
  split
  · exact text_ofText _ _
  · rw [text_intercalate, text_ofText]

theorem legible_conjoined (h : ∀ p ∈ ps, Legible d (parts p)) :
    Legible d (parts (conjoined d ps)) := by
  rw [conjoined]
  split
  · rw [parts_ofText]
    exact legible_fixedParts (inert_of_all (by cases d <;> decide))
  · rw [parts_intercalate, parts_ofText]
    refine (Fragment.apart_and d).intercalate fun qs hqs => ?_
    obtain ⟨p, hp, rfl⟩ := List.mem_map.1 hqs
    exact h p (List.mem_filter.1 hp).1

theorem holes_kept (h : ∀ p ∈ ps, Legible d (parts p)) :
    (kept d ps).flatMap holes = ps.flatMap holes := by
  induction ps with
  | nil => rfl
  | cons p ps ih =>
    have ih := ih fun q hq => h q (.tail _ hq)
    by_cases hp : p.text d = tautology
    · rw [kept, List.filter_cons_of_neg (by simpa using hp), List.flatMap_cons,
        holes_of_tautology (h p (.head _)) hp]
      exact ih
    · rw [kept, List.filter_cons_of_pos (by simpa using hp), List.flatMap_cons, List.flatMap_cons]
      exact congrArg (holes p ++ ·) ih

theorem holes_conjoined (h : ∀ p ∈ ps, Legible d (parts p)) :
    holes (conjoined d ps) = ps.flatMap holes := by
  rw [← holes_kept h]
  rw [conjoined]
  split
  · rename_i hempty
    rw [holes_ofText, List.isEmpty_iff.1 hempty]
    rfl
  · exact holes_intercalate _ _ (holes_ofText _)

end

end Passage

namespace Select

open Passage

def passageIf (present : Bool) (p : Passage) : List Passage :=
  if present then [p] else []

/-- The clauses of the text, as `clauseTexts` has them. -/
def clausePassages (s : Select) (l : Layout) (order : String) : List Passage :=
  [ofText "SELECT " ++ (ofText (columnList s.columns) ++ (ofText " FROM " ++ l.source))] ++
    s.joins.map ofText ++
    passageIf (s.filters ≠ []) (ofText "WHERE " ++ conjoined s.dialect l.filters) ++
    passageIf (s.groups ≠ []) (ofText ("GROUP BY " ++ Text.join ", " s.groups)) ++
    passageIf (s.havings ≠ []) (ofText "HAVING " ++ conjoined s.dialect l.havings) ++
    passageIf (order ≠ "") (ofText order) ++
    match s.page with
    | some p => [ofText (p.clause s.config)]
    | none => []

def passage (s : Select) (l : Layout) (order : String) : Passage :=
  (ofText " ").intercalate (s.clausePassages l order)

section

variable {s : Select} {l : Layout} {order : String}

theorem map_passageIf {α : Type} (f : Passage → α) (present : Bool) (p : Passage) :
    (passageIf present p).map f = if present then [f p] else [] := by
  cases present <;> rfl

theorem text_passage (h : s.Follows l) (order : String) :
    text s.dialect (s.passage l order) = Text.join " " (s.clauseTexts order) := by
  rw [passage, text_intercalate, text_ofText]
  congr 1
  have hsource : [s.source] = [l.source.text s.dialect] := h.source.texts
  have hsource := (List.cons.inj hsource).1
  have hmap : (s.joins.map ofText).map (text s.dialect) = s.joins := by
    simp [Function.comp_def]
  simp only [clausePassages, clauseTexts, List.map_append, hmap, map_passageIf, text_append,
    text_ofText, text_conjoined, ← h.filters.texts, ← h.havings.texts, hsource, List.map_cons,
    List.map_nil, String.append_assoc]
  congr 1
  cases s.page with
  | none => rfl
  | some p => exact congrArg (fun t => [t]) (text_ofText _ _)

theorem mem_passageIf {present : Bool} {p q : Passage} (h : q ∈ passageIf present p) : q = p := by
  cases present with
  | true => exact List.mem_singleton.1 h
  | false => cases h

theorem legible_ofText {d : Dialect} {t : String} (h : Inert d t.toList) :
    Legible d (parts (ofText t)) := by
  rw [parts_ofText]
  exact legible_fixedParts h

/-- A word in front of a clause ends with a blank. -/
theorem legible_headed {d : Dialect} {t : String} {p : Passage} (ht : t.toList.all (isInert d))
    (he : endsApart t) (hp : Legible d (parts p)) : Legible d (parts (ofText t ++ p)) := by
  rw [parts_append, parts_ofText]
  exact legible_after ht he hp

theorem legible_first (h : s.Follows l) (ht : s.Tidy) :
    Legible s.dialect (parts
      (ofText "SELECT " ++ (ofText (columnList s.columns) ++ (ofText " FROM " ++ l.source)))) := by
  have hfrom : Apart s.dialect " FROM " := by cases s.dialect <;> decide
  have hcolumns := legible_fixedParts ht.columnList
  have hsource := h.source.legible l.source (.head _)
  refine legible_headed (by cases s.dialect <;> decide) (by decide) ?_
  have hbetween := hfrom.between hcolumns hsource
  simpa using hbetween

theorem legible_clausePassages (h : s.Follows l) (ht : s.Tidy)
    (ho : Inert s.dialect order.toList) :
    ∀ p ∈ s.clausePassages l order, Legible s.dialect (parts p) := by
  intro p hp
  simp only [clausePassages, List.mem_append] at hp
  rcases hp with (((((hp | hp) | hp) | hp) | hp) | hp) | hp
  · cases List.mem_singleton.1 hp
    exact legible_first h ht
  · obtain ⟨t, hj, rfl⟩ := List.mem_map.1 hp
    exact legible_ofText (ht.joins t hj)
  · cases mem_passageIf hp
    exact legible_headed (by cases s.dialect <;> decide) (by decide)
      (legible_conjoined h.filters.legible)
  · cases mem_passageIf hp
    refine legible_ofText (inert_append (inert_of_all (by cases s.dialect <;> decide)) ?_)
    exact inert_join (inert_of_all (by cases s.dialect <;> decide)) ht.groups
  · cases mem_passageIf hp
    exact legible_headed (by cases s.dialect <;> decide) (by decide)
      (legible_conjoined h.havings.legible)
  · cases mem_passageIf hp
    exact legible_ofText ho
  · cases hpage : s.page with
    | none =>
      rw [hpage] at hp
      cases hp
    | some page =>
      rw [hpage] at hp
      cases List.mem_singleton.1 hp
      exact legible_ofText (inert_page page s.config)

theorem legible_passage (h : s.Follows l) (ht : s.Tidy) (ho : Inert s.dialect order.toList) :
    Legible s.dialect (parts (s.passage l order)) := by
  rw [passage, parts_intercalate, parts_ofText]
  have hblank : Apart s.dialect " " := by cases s.dialect <;> decide
  refine hblank.intercalate fun qs hqs => ?_
  obtain ⟨p, hp, rfl⟩ := List.mem_map.1 hqs
  exact legible_clausePassages h ht ho p hp

theorem holes_passageIf {present : Bool} {p : Passage} (h : present = false → holes p = []) :
    (passageIf present p).flatMap holes = holes p := by
  cases present with
  | true => simp [passageIf]
  | false => rw [h rfl]; rfl

theorem holes_flatten (ps : List Passage) : holes ps.flatten = ps.flatMap holes := by
  rw [holes, List.filterMap_flatten, List.flatMap]
  rfl

theorem holes_condition {head : String} {texts : List String} {ps : List Passage}
    (h : Reads s.dialect texts ps) :
    (passageIf (texts ≠ []) (ofText head ++ conjoined s.dialect ps)).flatMap holes =
      holes ps.flatten := by
  have hall : holes (ofText head ++ conjoined s.dialect ps) = holes ps.flatten := by
    rw [holes_append, holes_ofText, List.nil_append, holes_conjoined h.legible, holes_flatten]
  rw [holes_passageIf, hall]
  intro habsent
  have hnone : ps = [] := by
    have htexts := h.texts
    simp only [ne_eq, decide_not, Bool.not_eq_false', decide_eq_true_eq] at habsent
    rw [habsent] at htexts
    exact List.map_eq_nil_iff.1 htexts.symm
  rw [hall, hnone]
  rfl

/-- A statement has the placeholders of the clauses that bind values and no others. -/
theorem holes_passage (h : s.Follows l) (order : String) :
    holes (s.passage l order) = holes l.whole := by
  have hjoins : (s.joins.map ofText).flatMap holes = [] := by
    simp [List.flatMap_map]
  have htext (present : Bool) (t : String) : (passageIf present (ofText t)).flatMap holes = [] := by
    rw [holes_passageIf fun _ => holes_ofText t, holes_ofText]
  have hpage : (match s.page with
      | some p => [ofText (p.clause s.config)]
      | none => []).flatMap holes = [] := by
    cases s.page with
    | none => rfl
    | some p => simp
  rw [passage, holes_intercalate _ _ (holes_ofText _), clausePassages]
  simp only [List.flatMap_append, hjoins, htext, hpage, holes_condition h.filters,
    holes_condition h.havings, List.append_nil]
  simp [Layout.whole]

theorem says_of_build (h : s.Follows l) (ht : s.Tidy) {q : Statement} (hq : s.build = .ok q) :
    ∃ order, s.orderText = .ok order ∧ q.Says s.dialect (s.passage l order) := by
  rw [build] at hq
  split at hq
  · cases hq
  · obtain ⟨order, horder, hq⟩ := of_bind hq
    cases hq
    refine ⟨order, horder, (text_passage h order).symm, ?_, ?_⟩
    · exact legible_passage h ht (ht.orderText horder)
    · exact h.binds.of_holes (holes_passage h order)

end

end Select

end Quarry
