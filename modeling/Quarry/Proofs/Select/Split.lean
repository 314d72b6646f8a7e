import Quarry.Proofs.Search.Concat
import Quarry.Proofs.Select.ByHand

namespace Quarry

open Text

/-- Texts that are joined can be joined with others. -/
theorem join_middle (sep : String) (xs : List String) {ys : List String} (zs : List String)
    (hy : ys ≠ []) : join sep (xs ++ join sep ys :: zs) = join sep (xs ++ (ys ++ zs)) := by
  induction xs with
  | nil =>
    by_cases hz : zs = []
    · rw [hz, List.append_nil]
      rfl
    · rw [List.nil_append, List.nil_append, join_cons sep _ hz, join_append sep hy hz]
  | cons x xs ih =>
    rw [List.cons_append, List.cons_append, join_cons sep x (by simp),
      join_cons sep x (by simp [hy]),
      ih]

theorem join_ne_tautology {ts : List String} (hne : ts ≠ []) (h : ∀ t ∈ ts, t ≠ tautology) :
    join " AND " ts ≠ tautology := by
  match ts, hne with
  | [t], _ => exact h t (.head _)
  | t :: u :: rest, _ =>
    intro htext
    have hspace : ' ' ∈ (join " AND " (t :: u :: rest)).toList := by
      simp [Text.join]
    rw [htext] at hspace
    exact absurd hspace (by decide)

namespace Select

/-- The conditions that say something. -/
def telling (texts : List String) : List String :=
  texts.filter (· ≠ tautology)

theorem conjunction_eq (texts : List String) : conjunction texts =
    if telling texts = [] then tautology else Text.join " AND " (telling texts) :=
  rfl

theorem telling_append (ts us : List String) : telling (ts ++ us) = telling ts ++ telling us :=
  List.filter_append _ _

theorem telling_conjunction (texts : List String) : telling [conjunction texts] =
    if telling texts = [] then [] else [Text.join " AND " (telling texts)] := by
  have htelling : ∀ t ∈ telling texts, t ≠ tautology := by
    intro t ht
    simpa using (List.mem_filter.1 ht).2
  rw [conjunction_eq]
  split
  · rfl
  · rename_i hne
    exact List.filter_cons_of_pos (by simpa using join_ne_tautology hne htelling)

/-- A conjunction among other conditions can be taken apart. -/
theorem conjunction_middle (ts us vs : List String) :
    conjunction (ts ++ ([conjunction us] ++ vs)) = conjunction (ts ++ (us ++ vs)) := by
  rw [conjunction_eq (ts ++ ([conjunction us] ++ vs)), conjunction_eq (ts ++ (us ++ vs))]
  simp only [telling_append, telling_conjunction]
  by_cases hu : telling us = []
  · rw [if_pos hu, hu]
  · rw [if_neg hu, if_neg (by simp), if_neg (by simp [hu])]
    exact join_middle " AND " _ _ hu

theorem conjunction_flatten (ts : List String) (tss : List (List String)) :
    conjunction (ts ++ tss.map conjunction) = conjunction (ts ++ tss.flatten) := by
  induction tss generalizing ts with
  | nil => rfl
  | cons us tss ih =>
    have hhead := conjunction_middle ts us (tss.map conjunction)
    rw [List.map_cons, List.flatten_cons, ← List.singleton_append, hhead, ← List.append_assoc, ih,
      List.append_assoc]

end Select

def Term.paramCount (ts : List Term) : Nat :=
  Fragment.paramCount (ts.map fragment)

/-- The texts of conditions, numbered on from a cursor. -/
def Term.texts (d : Dialect) (c : Nat) (ts : List Term) : List String :=
  (Fragment.partsList d c (ts.map fragment)).map (Placeholder.write d)

/-- The texts of conditions that are added in several lots. -/
def Term.textLots (d : Dialect) : Nat → List (List Term) → List (List String)
  | _, [] => []
  | c, ts :: rest => texts d c ts :: textLots d (c + paramCount ts) rest

namespace Term

theorem paramCount_append (ts us : List Term) :
    paramCount (ts ++ us) = paramCount ts + paramCount us := by
  rw [paramCount, List.map_append, Fragment.paramCount_append]
  rfl

theorem texts_append (d : Dialect) (c : Nat) (ts us : List Term) :
    texts d c (ts ++ us) = texts d c ts ++ texts d (c + paramCount ts) us := by
  rw [texts, List.map_append, Fragment.partsList_append, List.map_append]
  rfl

/-- The numbers run on from one lot to the next. -/
theorem flatten_textLots (d : Dialect) (c : Nat) (tss : List (List Term)) :
    (textLots d c tss).flatten = texts d c tss.flatten := by
  induction tss generalizing c with
  | nil => rfl
  | cons ts tss ih => rw [textLots, List.flatten_cons, List.flatten_cons, ih, texts_append]

theorem ne_tautology_of_mem_texts {d : Dialect} {c : Nat} {ts : List Term} {t : String}
    (h : t ∈ texts d c ts) : t ≠ tautology := by
  have hspace : ' ' ∈ t.toList := by
    induction ts generalizing c with
    | nil => cases h
    | cons term ts ih =>
      cases h with
      | head => exact Fragment.space_mem_text c
      | tail _ h => exact ih h
  rintro rfl
  exact absurd hspace (by decide)

end Term

namespace Select

variable {s : Select} {d : Dialect} {ss : List Search} {ts : List Term} {tss : List (List Term)}

theorem conjunction_texts {ts : List Term} (h : ts ≠ []) (d : Dialect) (c : Nat) :
    conjunction (Term.texts d c ts) = Text.join " AND " (Term.texts d c ts) := by
  have hall : telling (Term.texts d c ts) = Term.texts d c ts := by
    apply List.filter_eq_self.2
    intro t ht
    simpa using Term.ne_tautology_of_mem_texts ht
  have hne : Term.texts d c ts ≠ [] := by
    cases ts with
    | nil => exact absurd rfl h
    | cons => exact List.cons_ne_nil _ _
  rw [conjunction_eq, hall, if_neg hne]

theorem written_terms (s : Select) (ts : List Term) :
    s.written (.ofTerms ts []) = conjunction (Term.texts s.dialect s.cursor ts) := by
  have hparts : (Compiled.ofTerms ts []).parts s.dialect s.cursor =
      Fragments.mainParts s.dialect s.cursor (ts.map Term.fragment) := if_pos rfl
  rw [written, hparts, Fragments.mainParts]
  by_cases hts : ts = []
  · rw [hts]
    exact Placeholder.write_fixedParts _ _
  · rw [if_neg (by simpa using hts), conjunction_texts hts, Fragment.conjunctionParts,
      Placeholder.write_intercalate, Placeholder.write_fixedParts]
    rfl

theorem groupText_makes {search : Search} (h : search.Makes s.dialect ts) :
    s.groupText search.group = .ok (conjunction (Term.texts s.dialect s.cursor ts),
      s.cursor + Term.paramCount ts, ts.flatMap Term.values) := by
  have hall : (Compiled.ofTerms ts []).all = ts.map Term.fragment := List.append_nil _
  have hvalues : (Compiled.ofTerms ts []).values = ts.flatMap Term.values := by
    rw [Compiled.ofTerms, List.flatten_nil, List.append_nil]
  have hcount : (Compiled.ofTerms ts []).placeholderCount = Term.paramCount ts := by
    rw [Fragments.placeholderCount, hall, Term.paramCount]
  have hwritten := s.written_terms ts
  rw [written] at hwritten
  rw [groupText_eq, search.group_compile h.compile]
  change (Fragment.checks s.dialect (Compiled.ofTerms ts []).all).map _ = _
  rw [hall, h.checks, hwritten, hcount, hvalues]
  rfl

/-- What conditions are about. -/
inductive Scope where
  | rows
  | groups

namespace Scope

def slot : Scope → Slot
  | rows => .filter
  | groups => .having

def step : Scope → Group → Step
  | rows => .filter
  | groups => .having

end Scope

def addTexts (s : Select) : Scope → List String → Select
  | .rows, texts => { s with filters := s.filters ++ texts }
  | .groups, texts => { s with havings := s.havings ++ texts }

/-- The state after conditions that were added in several lots. -/
def added (s : Select) (scope : Scope) (tss : List (List Term)) : Select :=
  { (s.addValues scope.slot (tss.flatten.flatMap Term.values)).addTexts scope
      ((Term.textLots s.dialect s.cursor tss).map conjunction) with
    cursor := s.cursor + Term.paramCount tss.flatten }

theorem apply_makes (scope : Scope) {search : Search} (h : search.Makes s.dialect ts) :
    s.apply (scope.step search.group) = s.added scope [ts] := by
  cases scope with
  | rows =>
    change s.filter search.group = _
    rw [filter, groupText_makes h]
    simp [added, addTexts, addValues, Scope.slot, Term.textLots]
  | groups =>
    change s.having search.group = _
    rw [having, groupText_makes h]
    simp [added, addTexts, addValues, Scope.slot, Term.textLots]

theorem dialect_added (s : Select) (scope : Scope) (tss : List (List Term)) :
    (s.added scope tss).dialect = s.dialect := by
  cases scope <;> rfl

theorem added_nil (s : Select) (scope : Scope) : s.added scope [] = s := by
  cases scope <;>
    simp [added, addTexts, addValues, Term.textLots, Term.paramCount, Fragment.paramCount]

/-- The first lot is added before the others. -/
theorem added_cons (s : Select) (scope : Scope) (ts : List Term) (tss : List (List Term)) :
    s.added scope (ts :: tss) = (s.added scope [ts]).added scope tss := by
  cases scope <;>
    simp [added, addTexts, addValues, Term.textLots, Term.paramCount_append, Nat.add_assoc]

theorem applyAll_makes (scope : Scope) (h : List.Forall₂ (Search.Makes d) ss tss)
    (hd : s.dialect = d) :
    s.applyAll (ss.map fun search => scope.step search.group) = s.added scope tss := by
  induction h generalizing s with
  | nil => exact (s.added_nil scope).symm
  | @cons search ts ss tss hsearch _ ih =>
    change (s.apply (scope.step search.group)).applyAll (ss.map _) = _
    rw [apply_makes scope (hd ▸ hsearch), s.added_cons scope ts tss]
    exact ih ((s.dialect_added scope [ts]).trans hd)

/-- Two states that come to the same statement, and number on from the same place. -/
structure SameQuery (s t : Select) : Prop where
  build : s.build = t.build
  cursor : s.cursor = t.cursor

/-- A statement depends on its conditions through their conjunctions, and on whether there are any.
-/
theorem build_conditions {xs xs' ys ys' : List String} (hx : conjunction xs = conjunction xs')
    (hxne : xs ≠ [] ↔ xs' ≠ []) (hy : conjunction ys = conjunction ys')
    (hyne : ys ≠ [] ↔ ys' ≠ []) : ({ s with filters := xs, havings := ys } : Select).build =
      ({ s with filters := xs', havings := ys' } : Select).build := by
  simp only [build, clauseTexts, hx, hxne, hy, hyne]
  rfl

theorem conjunction_lots (texts : List String) (d : Dialect) (c : Nat) (tss : List (List Term)) :
    conjunction (texts ++ (Term.textLots d c tss).map conjunction) =
      conjunction (texts ++ (Term.textLots d c [tss.flatten]).map conjunction) := by
  rw [conjunction_flatten, conjunction_flatten, Term.flatten_textLots, Term.flatten_textLots]
  simp

theorem lots_ne_nil (texts : List String) (d : Dialect) (c : Nat) (hne : tss ≠ []) :
    texts ++ (Term.textLots d c tss).map conjunction ≠ [] := by
  cases tss with
  | nil => exact absurd rfl hne
  | cons => simp [Term.textLots]

/-- It makes no difference whether lots are added at once. -/
theorem added_flatten (s : Select) (scope : Scope) (hne : tss ≠ []) :
    (s.added scope tss).SameQuery (s.added scope [tss.flatten]) := by
  have hflatten : [tss.flatten].flatten = tss.flatten := List.append_nil _
  constructor
  · have hlots (texts : List String) : texts ++ (Term.textLots s.dialect s.cursor tss).map
        conjunction ≠ [] ↔ texts ++ (Term.textLots s.dialect s.cursor [tss.flatten]).map
          conjunction ≠ [] :=
      iff_of_true (lots_ne_nil _ _ _ hne) (lots_ne_nil _ _ _ (List.cons_ne_nil _ _))
    rw [added, added, hflatten]
    cases scope with
    | rows => exact build_conditions (conjunction_lots _ _ _ _) (hlots _) rfl Iff.rfl
    | groups => exact build_conditions rfl Iff.rfl (conjunction_lots _ _ _ _) (hlots _)
  · rw [added, added, hflatten]

theorem applyAll_concat (s : Select) (scope : Scope) (hne : ss ≠ [])
    (hkeys : (ss.flatMap Search.keys).Nodup) (hrenders : ∀ search ∈ ss, search.Renders s.dialect) :
    (s.applyAll (ss.map fun search => scope.step search.group)).SameQuery
      (s.apply (scope.step (Search.concat ss).group)) := by
  obtain ⟨tss, hmakes⟩ := Search.exists_makes hrenders
  have htss : tss ≠ [] := by
    rintro rfl
    cases hmakes
    exact hne rfl
  rw [applyAll_makes scope hmakes rfl, apply_makes scope (Search.concat_makes hkeys hmakes)]
  exact s.added_flatten scope htss

/-- Conditions on different fields can be added one search after another or all at once, whatever
was added to the SELECT before. -/
theorem filter_concat (s : Select) (ss : List Search) (hne : ss ≠ [])
    (hkeys : ∀ search ∈ ss, search.keys.Nodup)
    (hdisjoint : ss.Pairwise fun a b => a.keys.Disjoint b.keys)
    (hrenders : ∀ search ∈ ss, search.Renders s.dialect) :
    (s.applyAll (ss.map fun search => .filter search.group)).SameQuery
        (s.filter (Search.concat ss).group) ∧
      (s.applyAll (ss.map fun search => .having search.group)).SameQuery
        (s.having (Search.concat ss).group) := by
  have hnodup : (ss.flatMap Search.keys).Nodup := List.nodup_flatMap.2 ⟨hkeys, hdisjoint⟩
  constructor
  · exact s.applyAll_concat .rows hne hnodup hrenders
  · exact s.applyAll_concat .groups hne hnodup hrenders

/-- Both clauses have values already, those of the groups were added first. -/
def openOrders : Select :=
  (new .unnumbered (.table "orders")).applyAll [
    .having ⟨⟨[("COUNT(*)", .object [.between (.int 2) (.int 4)])]⟩, none⟩,
    .filter ⟨⟨[("state", .value (.text "open"))]⟩, none⟩]

def largeSearches : List Search :=
  [⟨[("total", .object [.between (.int 5) (.int 9)])]⟩, .empty, ⟨[("customer", .value (.int 7))]⟩]

theorem filter_concat_openOrders :
    (openOrders.applyAll (largeSearches.map fun search => .filter search.group)).SameQuery
        (openOrders.filter (Search.concat largeSearches).group) ∧
      (openOrders.applyAll (largeSearches.map fun search => .having search.group)).SameQuery
        (openOrders.having (Search.concat largeSearches).group) ∧
      (openOrders.filter (Search.concat largeSearches).group).build.toOption.map Statement.sql =
        some ("SELECT * FROM orders WHERE state = ? AND total BETWEEN ? AND ? AND customer = ? " ++
          "HAVING COUNT(*) BETWEEN ? AND ?") := by
  have hdisjoint : largeSearches.Pairwise fun a b => a.keys.Disjoint b.keys := by
    simp [largeSearches, Search.keys, Search.empty]
  obtain ⟨hfilter, hhaving⟩ := openOrders.filter_concat largeSearches
    (List.cons_ne_nil _ _) (by decide) hdisjoint (by decide +kernel)
  exact ⟨hfilter, hhaving, by decide +kernel⟩

end Select

end Quarry
