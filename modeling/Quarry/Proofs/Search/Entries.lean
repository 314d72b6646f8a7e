import Mathlib.Data.Finset.Card
import Quarry.Proofs.Search.Document

namespace Quarry.Search

/-- What each step sets: the filter of its field, whatever that had before. -/
inductive Step.Sets : Step → String → Filter → Prop where
  | value (key : String) (v : Value) : Sets (.value key v) key (.value v)
  | valueIfGiven (key : String) (v : Value) : Sets (.valueIfGiven key (some v)) key (.value v)
  | isNull (key : String) : Sets (.isNull key) key (.value .null)
  | condition (key : String) (c : Condition) : Sets (.condition key c) key (.object [c])
  | conditionIfGiven (key : String) (c : Condition) :
      Sets (.conditionIfGiven key (some c)) key (.object [c])
  | conditions (key : String) (cs : List Condition) :
      Sets (.conditions key cs) key (.objects (cs.map fun c => [c]))
  | object (key : String) (cs : List Condition) : Sets (.object key cs) key (.object cs)
  | objects (key : String) (css : List (List Condition)) :
      Sets (.objects key css) key (.objects css)

/-- What is absent sets nothing. -/
inductive Step.Skips : Step → Prop where
  | value (key : String) : Skips (.valueIfGiven key none)
  | condition (key : String) : Skips (.conditionIfGiven key none)

/-- The filters that steps set, one after another. -/
inductive Settings : List Step → List (String × Filter) → Prop where
  | nil : Settings [] []
  | set {step : Step} {key : String} {f : Filter} {steps : List Step}
      {es : List (String × Filter)} (h : step.Sets key f) (hrest : Settings steps es) :
      Settings (step :: steps) ((key, f) :: es)
  | skip {step : Step} {steps : List Step} {es : List (String × Filter)} (h : step.Skips)
      (hrest : Settings steps es) : Settings (step :: steps) es

section

variable {s : Search} {key : String} {es : List (String × Filter)}

theorem keys_replace (key : String) (f : Filter) (es : List (String × Filter)) :
    (replace key f es).map Prod.fst =
      if key ∈ es.map Prod.fst then es.map Prod.fst else es.map Prod.fst ++ [key] := by
  induction es with
  | nil => rfl
  | cons e es ih =>
    obtain ⟨k, g⟩ := e
    by_cases hk : k = key
    · simp [replace, hk]
    · have hne : key ≠ k := Ne.symm hk
      simp only [replace, if_neg hk, List.map_cons, ih, List.mem_cons, hne, false_or]
      split <;> rfl

theorem lookup_cons_eq (key : String) (f : Filter) (es : List (String × Filter)) (name : String) :
    ((key, f) :: es).lookup name = if name = key then some f else es.lookup name := by
  by_cases hname : name = key
  · rw [if_pos hname, hname, List.lookup_cons_self]
  · rw [if_neg hname, List.lookup_cons, beq_false_of_ne hname]

theorem lookup_replace (key : String) (f : Filter) (es : List (String × Filter)) (name : String) :
    (replace key f es).lookup name = if name = key then some f else es.lookup name := by
  induction es with
  | nil => exact lookup_cons_eq key f [] name
  | cons e es ih =>
    obtain ⟨k, g⟩ := e
    by_cases hk : k = key
    · subst hk
      rw [replace, if_pos rfl, lookup_cons_eq, lookup_cons_eq]
      split <;> rfl
    · rw [replace, if_neg hk, lookup_cons_eq, ih, lookup_cons_eq]
      by_cases hname : name = k
      · rw [if_pos hname, if_pos hname, if_neg (hname ▸ hk)]
      · rw [if_neg hname, if_neg hname]

/-- A new name comes last; a name that is there keeps its place. -/
theorem keys_insert (s : Search) (key : String) (f : Filter) :
    (s.insert key f).keys = if key ∈ s.keys then s.keys else s.keys ++ [key] :=
  keys_replace key f s.entries

theorem get?_insert (s : Search) (key : String) (f : Filter) (name : String) :
    (s.insert key f).get? name = if name = key then some f else s.get? name :=
  lookup_replace key f s.entries name

/-- The entry of a name that stands for it alone is found. -/
theorem get?_of_mem (h : s.keys.Nodup) {e : String × Filter} (he : e ∈ s.entries) :
    s.get? e.1 = some e.2 := by
  obtain ⟨before, after, hentries⟩ := List.append_of_mem he
  rw [keys, hentries, List.map_append, List.map_cons] at h
  rw [get?, hentries, List.lookup_eq_some_iff]
  refine ⟨before, after, rfl, ?_⟩
  intro d hd
  have hdisjoint := (List.nodup_append.1 h).2.2
  have hne := hdisjoint d.1 (List.mem_map_of_mem hd) e.1 (.head _)
  exact bne_iff_ne.2 hne.symm

/-- The filter that a name is given last. -/
def last? (es : List (String × Filter)) (key : String) : Option Filter :=
  es.reverse.lookup key

theorem last?_snoc (es : List (String × Filter)) (key : String) (f : Filter) (name : String) :
    last? (es ++ [(key, f)]) name = if name = key then some f else last? es name := by
  rw [last?, List.reverse_concat, lookup_cons_eq, last?]

theorem last?_eq_none_iff : last? es key = none ↔ key ∉ es.map Prod.fst := by
  simp only [last?, List.lookup_eq_none_iff, List.mem_reverse, bne_iff_ne, List.mem_map, not_exists,
    not_and]
  constructor
  · intro h e he hkey
    exact h e he hkey.symm
  · intro h e he hkey
    exact h e he hkey.symm

/-- A search that settings have led to. -/
structure Holds (s : Search) (es : List (String × Filter)) : Prop where
  nodup : s.keys.Nodup
  keys : s.keys = (es.map Prod.fst).eraseDups
  get? : ∀ key, s.get? key = last? es key

theorem holds_empty : empty.Holds [] :=
  ⟨.nil, rfl, fun _ => rfl⟩

theorem Holds.mem_keys (h : s.Holds es) : key ∈ s.keys ↔ key ∈ es.map Prod.fst := by
  rw [h.keys, List.mem_eraseDups]

theorem Holds.insert (h : s.Holds es) (key : String) (f : Filter) :
    (s.insert key f).Holds (es ++ [(key, f)]) := by
  constructor
  · rw [keys_insert]
    split
    · exact h.nodup
    · rename_i hnew
      rw [← List.concat_eq_append]
      exact h.nodup.concat hnew
  · rw [keys_insert, List.map_append, List.eraseDups_append, ← h.keys]
    by_cases hkey : key ∈ s.keys
    · have hold := h.mem_keys.1 hkey
      rw [if_pos hkey]
      simp [List.removeAll, hold]
    · have hnew := mt h.mem_keys.2 hkey
      rw [if_neg hkey]
      simp [List.removeAll, hnew, List.eraseDups_cons]
  · intro name
    rw [get?_insert, last?_snoc, h.get?]

theorem Holds.insertAll (h : s.Holds es) (fs : List (String × Filter)) :
    (s.insertAll fs).Holds (es ++ fs) := by
  induction fs generalizing s es with
  | nil =>
    rw [List.append_nil]
    exact h
  | cons e fs ih =>
    rw [List.append_cons]
    exact ih (h.insert e.1 e.2)

theorem Holds.size_eq (h : s.Holds es) : s.size = (es.map Prod.fst).toFinset.card := by
  have hlength : s.size = s.keys.length := (List.length_map Prod.fst).symm
  have hsame : s.keys.toFinset = (es.map Prod.fst).toFinset := by
    ext name
    rw [List.mem_toFinset, List.mem_toFinset, h.mem_keys]
  rw [hlength, ← List.toFinset_card_of_nodup h.nodup, hsame]

theorem Step.sets_or_skips (step : Step) : (∃ key f, step.Sets key f) ∨ step.Skips := by
  cases step with
  | value key v => exact .inl ⟨_, _, .value key v⟩
  | valueIfGiven key v =>
    cases v with
    | none => exact .inr (.value key)
    | some v => exact .inl ⟨_, _, .valueIfGiven key v⟩
  | isNull key => exact .inl ⟨_, _, .isNull key⟩
  | condition key c => exact .inl ⟨_, _, .condition key c⟩
  | conditionIfGiven key c =>
    cases c with
    | none => exact .inr (.condition key)
    | some c => exact .inl ⟨_, _, .conditionIfGiven key c⟩
  | conditions key cs => exact .inl ⟨_, _, .conditions key cs⟩
  | object key cs => exact .inl ⟨_, _, .object key cs⟩
  | objects key css => exact .inl ⟨_, _, .objects key css⟩

theorem exists_settings (steps : List Step) : ∃ es, Settings steps es := by
  induction steps with
  | nil => exact ⟨[], .nil⟩
  | cons step steps ih =>
    obtain ⟨es, hrest⟩ := ih
    rcases step.sets_or_skips with ⟨key, f, h⟩ | h
    · exact ⟨_, .set h hrest⟩
    · exact ⟨_, .skip h hrest⟩

theorem apply_of_sets {step : Step} {f : Filter} (h : step.Sets key f) (s : Search) :
    s.apply step = s.insert key f := by
  cases h <;> rfl

theorem apply_of_skips {step : Step} (h : step.Skips) (s : Search) : s.apply step = s := by
  cases h <;> rfl

theorem Settings.foldl_apply {steps : List Step} (h : Settings steps es) (s : Search) :
    steps.foldl apply s = s.insertAll es := by
  induction h generalizing s with
  | nil => rfl
  | set h _ ih =>
    rw [List.foldl_cons, ih, apply_of_sets h]
    rfl
  | skip h _ ih => rw [List.foldl_cons, ih, apply_of_skips h]

theorem Settings.holds {steps : List Step} (h : Settings steps es) : (ofSteps steps).Holds es := by
  have hall := holds_empty.insertAll es
  rwa [List.nil_append, ← h.foldl_apply] at hall

/-- Whatever filter a name is to get, one of the steps gives it. -/
theorem exists_step (key : String) (f : Filter) : ∃ step : Step, step.Sets key f := by
  cases f with
  | value v => exact ⟨_, .value key v⟩
  | object cs => exact ⟨_, .object key cs⟩
  | objects css => exact ⟨_, .objects key css⟩

/-- A search is a map that keeps the order in which its names came first. Each name stands once and
has the filter that it was given last, a name that was never given one has none, and the search is
as long as there are names. Setting any filter of any name is such a step. -/
theorem ofSteps_ordered (steps : List Step) :
    (∃ es, Settings steps es) ∧
      (∀ es, Settings steps es →
        (ofSteps steps).keys.Nodup ∧
          (ofSteps steps).keys = (es.map Prod.fst).eraseDups ∧
          (∀ e ∈ (ofSteps steps).entries, last? es e.1 = some e.2) ∧
          (∀ key, (ofSteps steps).get? key = last? es key) ∧
          (∀ key, (ofSteps steps).get? key = none ↔ key ∉ es.map Prod.fst) ∧
          (ofSteps steps).size = (es.map Prod.fst).toFinset.card) ∧
      ∀ (s : Search) key f, ∃ step : Step, step.Sets key f ∧ s.apply step = s.insert key f := by
  refine ⟨exists_settings steps, fun es hsettings => ?_, fun s key f => ?_⟩
  · have h := hsettings.holds
    refine ⟨h.nodup, h.keys, ?_, h.get?, ?_, h.size_eq⟩
    · intro e he
      rw [← h.get?]
      exact get?_of_mem h.nodup he
    · intro key
      rw [h.get?, last?_eq_none_iff]
  · obtain ⟨step, hstep⟩ := exists_step key f
    exact ⟨step, hstep, apply_of_sets hstep s⟩

/-- Two steps set nothing, and `a` is set again in its place. -/
theorem ofSteps_ordered_resets :
    let range := [Condition.between (.int 1) (.int 9), .custom "~" (.text "x")]
    let steps : List Step := [.value "a" (.int 1), .valueIfGiven "b" none, .conditions "c" range,
      .conditionIfGiven "d" none, .isNull "a", .valueIfGiven "b" (some (.int 2)),
      .conditionIfGiven "e" (some .isNull)]
    let es : List (String × Filter) := [("a", .value (.int 1)),
      ("c", .objects (range.map fun c => [c])), ("a", .value .null), ("b", .value (.int 2)),
      ("e", .object [.isNull])]
    Settings steps es ∧ (ofSteps steps).keys = ["a", "c", "b", "e"] ∧
      (ofSteps steps).get? "a" = some (.value .null) ∧
      (ofSteps steps).get? "c" = some (.objects (range.map fun c => [c])) ∧
      (ofSteps steps).get? "d" = none ∧ (ofSteps steps).size = 4 := by
  intro range steps es
  have hsettings : Settings steps es :=
    .set (.value _ _) <| .skip (.value _) <| .set (.conditions _ _) <| .skip (.condition _) <|
      .set (.isNull _) <| .set (.valueIfGiven _ _) <| .set (.conditionIfGiven _ _) .nil
  obtain ⟨_, hkeys, _, hget, hnone, hsize⟩ := (ofSteps_ordered steps).2.1 es hsettings
  refine ⟨hsettings, ?_, ?_, ?_, ?_, ?_⟩
  · rw [hkeys]
    decide
  · rw [hget]
    rfl
  · rw [hget]
    rfl
  · rw [hnone]
    decide
  · rw [hsize]
    decide

end

end Quarry.Search
