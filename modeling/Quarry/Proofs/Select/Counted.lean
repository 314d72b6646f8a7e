import Quarry.Proofs.Search.Compiled
import Quarry.Select.History

namespace Quarry

def Bound.valuesOf (slot : Slot) (bs : List Bound) : List Value :=
  (bs.filter fun b => b.slot = slot).map Bound.value

namespace Bound

@[simp] theorem valuesOf_append (slot : Slot) (as bs : List Bound) :
    valuesOf slot (as ++ bs) = valuesOf slot as ++ valuesOf slot bs := by
  simp [valuesOf]

@[simp] theorem valuesOf_map_mk (slot slot' : Slot) (vs : List Value) :
    valuesOf slot (vs.map (mk slot')) = if slot' = slot then vs else [] := by
  induction vs with
  | nil => simp [valuesOf]
  | cons v vs ih =>
    simp only [valuesOf] at ih
    by_cases h : slot' = slot
    · simpa [valuesOf, h] using ih
    · simp [valuesOf, h]

/-- Without the source, the other clauses keep their values. -/
theorem valuesOf_filter_ne (slot : Slot) (bs : List Bound) :
    valuesOf slot (bs.filter fun b => b.slot ≠ .source) =
      if slot = .source then [] else valuesOf slot bs := by
  split
  · rename_i h
    subst h
    simp [valuesOf, List.filter_filter]
  · rename_i h
    rw [valuesOf, List.filter_filter, valuesOf]
    congr 2
    funext b
    by_cases hb : b.slot = slot
    · simp [hb, h]
    · simp [hb]

theorem length_filter_ne (bs : List Bound) :
    (bs.filter fun b => b.slot ≠ .source).length + (valuesOf .source bs).length = bs.length := by
  induction bs with
  | nil => rfl
  | cons b bs ih =>
    simp only [valuesOf, List.length_map] at ih ⊢
    by_cases h : b.slot = .source
    · simp [h] at ih ⊢
      omega
    · simp [h] at ih ⊢
      omega

theorem length_slots (bs : List Bound) :
    ([Slot.source, .filter, .having].flatMap fun slot => valuesOf slot bs).length = bs.length := by
  induction bs with
  | nil => rfl
  | cons b bs ih =>
    have hcons (slot : Slot) :
        valuesOf slot (b :: bs) =
          (if b.slot = slot then [b.value] else []) ++ valuesOf slot bs := by
      by_cases h : b.slot = slot <;> simp [valuesOf, h]
    simp only [List.flatMap_cons, List.flatMap_nil, List.length_append, hcons] at ih ⊢
    cases b.slot <;> simp at ih ⊢ <;> omega

end Bound

namespace Select

structure Counted (s : Select) : Prop where
  cursor : s.cursor = s.bound.length
  source : s.sourceParams = (Bound.valuesOf .source s.bound).length

section

variable {s : Select}

theorem length_orderedValues (hc : s.Counted) : s.orderedValues.length = s.cursor := by
  rw [hc.cursor, orderedValues]
  split
  · exact List.length_map _
  · exact Bound.length_slots s.bound

/-- Values that are all of one clause are in order in either dialect. -/
theorem orderedValues_of_slot {slot : Slot} {vs : List Value}
    (h : s.bound = vs.map (Bound.mk slot)) :
    s.orderedValues = vs := by
  rw [orderedValues, h]
  split
  · rw [List.map_map]
    exact List.map_id _
  · have hslot (slot' : Slot) := Bound.valuesOf_map_mk slot' slot vs
    simp only [Bound.valuesOf] at hslot
    cases slot <;> simp [hslot]

/-- A group is compiled and checked, and then its parts are written from the cursor on. -/
theorem groupText_eq (s : Select) (g : Group) :
    s.groupText g = g.compile >>= fun c => (Fragment.checks s.dialect c.all).map fun _ =>
      (Placeholder.write s.dialect (c.parts s.dialect s.cursor), s.cursor + c.placeholderCount,
        c.values) := by
  rw [groupText]
  congr 1
  funext c
  rw [Fragments.text_eq_checks]
  cases Fragment.checks s.dialect c.all <;> rfl

/-- What a group is written as, with its placeholders numbered on from the cursor. -/
def written (s : Select) (c : Compiled) : String :=
  Placeholder.write s.dialect (c.parts s.dialect s.cursor)

def addFilter (s : Select) (c : Compiled) : Select :=
  { s.addValues .filter c.values with
    filters := s.filters ++ [s.written c]
    cursor := s.cursor + c.placeholderCount }

def addHaving (s : Select) (c : Compiled) : Select :=
  { s.addValues .having c.values with
    havings := s.havings ++ [s.written c]
    cursor := s.cursor + c.placeholderCount }

/-- What a group that can be written in a dialect is compiled to. -/
structure Writes (d : Dialect) (g : Group) (c : Compiled) : Prop where
  compile : g.compile = .ok c
  valid : c.Valid
  checks : Fragment.checks d c.all = .ok ()

theorem groupText_cases (s : Select) (g : Group) :
    (∃ c, Writes s.dialect g c ∧
      s.groupText g = .ok (s.written c, s.cursor + c.placeholderCount, c.values)) ∨
    ∃ why, s.groupText g = .error why := by
  rw [groupText_eq]
  cases hc : g.compile with
  | error why => exact .inr ⟨why, rfl⟩
  | ok c =>
    change (∃ _, _ ∧ (Fragment.checks s.dialect c.all).map _ = _) ∨
      ∃ _, (Fragment.checks s.dialect c.all).map _ = _
    cases hchecks : Fragment.checks s.dialect c.all with
    | error why => exact .inr ⟨why, rfl⟩
    | ok => exact .inl ⟨c, ⟨hc, g.valid_of_compile hc, hchecks⟩, rfl⟩

/-- All that adding conditions can come to. -/
theorem filter_cases (s : Select) (g : Group) :
    (∃ c, Writes s.dialect g c ∧ s.filter g = s.addFilter c) ∨
      ∃ why, s.filter g = s.reject why := by
  obtain ⟨c, hc, htext⟩ | ⟨why, htext⟩ := s.groupText_cases g
  · exact .inl ⟨c, hc, by rw [Select.filter, htext]; rfl⟩
  · exact .inr ⟨why, by rw [Select.filter, htext]⟩

theorem having_cases (s : Select) (g : Group) :
    (∃ c, Writes s.dialect g c ∧ s.having g = s.addHaving c) ∨
      ∃ why, s.having g = s.reject why := by
  obtain ⟨c, hc, htext⟩ | ⟨why, htext⟩ := s.groupText_cases g
  · exact .inl ⟨c, hc, by rw [Select.having, htext]; rfl⟩
  · exact .inr ⟨why, by rw [Select.having, htext]⟩

theorem join_cases (s : Select) (kind : JoinKind) (j : Join) :
    (j.text kind = .ok (j.sql kind) ∧ s.join kind j = { s with joins := s.joins ++ [j.sql kind] }) ∨
    ∃ why, s.join kind j = s.reject why := by
  rw [Select.join, Join.text]
  cases naming j.check with
  | error why => exact .inr ⟨why, rfl⟩
  | ok => exact .inl ⟨rfl, rfl⟩

theorem Counted.reject (h : s.Counted) (why : Invalid) : (s.reject why).Counted :=
  ⟨h.cursor, h.source⟩

/-- Binding values moves the cursor by as many numbers. -/
theorem Counted.addValues (h : s.Counted) (slot : Slot) (hslot : slot ≠ .source) (vs : List Value) :
    ({ s.addValues slot vs with cursor := s.cursor + vs.length } : Select).Counted := by
  constructor
  · simp [Select.addValues, h.cursor]
  · simp [Select.addValues, h.source, hslot]

theorem Counted.filter (h : s.Counted) (g : Group) : (s.filter g).Counted := by
  obtain ⟨c, hc, hfilter⟩ | ⟨why, hfilter⟩ := s.filter_cases g
  · rw [hfilter]
    have hadd := h.addValues .filter nofun c.values
    rw [hc.valid.values] at hadd
    exact ⟨hadd.cursor, hadd.source⟩
  · rw [hfilter]
    exact h.reject why

theorem Counted.having (h : s.Counted) (g : Group) : (s.having g).Counted := by
  obtain ⟨c, hc, hhaving⟩ | ⟨why, hhaving⟩ := s.having_cases g
  · rw [hhaving]
    have hadd := h.addValues .having nofun c.values
    rw [hc.valid.values] at hadd
    exact ⟨hadd.cursor, hadd.source⟩
  · rw [hhaving]
    exact h.reject why

theorem Counted.dropSource (h : s.Counted) : s.dropSource.Counted := by
  have hlength := Bound.length_filter_ne s.bound
  constructor
  · change s.cursor - s.sourceParams = (s.bound.filter fun b => b.slot ≠ .source).length
    rw [h.cursor, h.source]
    omega
  · change 0 = (Bound.valuesOf .source (s.bound.filter fun b => b.slot ≠ .source)).length
    rw [Bound.valuesOf_filter_ne, if_pos rfl]
    rfl

theorem Counted.setSource (h : s.Counted) (hzero : s.sourceParams = 0) (src : Source) :
    (s.setSource src).Counted := by
  unfold Select.setSource
  split
  · exact ⟨h.cursor, h.source⟩
  · split
    · exact h.reject _
    · rename_i sub _
      have hnone : Bound.valuesOf .source s.bound = [] := by
        rw [← List.length_eq_zero_iff, ← h.source, hzero]
      constructor
      · simp [Select.addValues, h.cursor]
      · simp [Select.addValues, hnone]

theorem Counted.fromSource (h : s.Counted) (src : Source) : (s.fromSource src).Counted := by
  rw [Select.fromSource]
  split
  · rename_i hzero
    exact h.setSource hzero src
  · split
    · exact h.reject _
    · exact h.dropSource.setSource rfl src

theorem counted_new (d : Dialect) (src : Source) : (new d src).Counted :=
  Counted.fromSource ⟨rfl, rfl⟩ src

theorem Counted.count (h : s.Counted) : s.count.Counted := by
  have hunpaged : s.unpaged.Counted := ⟨h.cursor, h.source⟩
  unfold Select.count
  simp only
  split
  · exact ⟨h.cursor, h.source⟩
  · split
    · rename_i sub _
      have hnew := counted_new s.unpaged.dialect (.subquery sub)
      exact ⟨hnew.cursor, hnew.source⟩
    · exact hunpaged.reject _

theorem Counted.apply (h : s.Counted) (st : Step) : (s.apply st).Counted := by
  cases st with
  | source src => exact h.fromSource src
  | join kind j =>
    change (s.join kind j).Counted
    obtain ⟨-, hjoin⟩ | ⟨why, hjoin⟩ := s.join_cases kind j
    · rw [hjoin]
      exact ⟨h.cursor, h.source⟩
    · rw [hjoin]
      exact h.reject why
  | filter g => exact h.filter g
  | having g => exact h.having g
  | count => exact h.count
  | _ => exact ⟨h.cursor, h.source⟩

theorem Counted.applyAll (h : s.Counted) (steps : List Step) : (s.applyAll steps).Counted := by
  induction steps generalizing s with
  | nil => exact h
  | cons st steps ih => exact ih (h.apply st)

end

end Select

end Quarry
