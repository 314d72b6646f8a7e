import Quarry.Proofs.Select.Reached
import Quarry.Proofs.Statement.Binding

namespace Quarry

open Text Placeholder

namespace Compiled

/-- The passage of a group that stands alone. -/
def passage (d : Dialect) (c : Compiled) : Passage :=
  Passage.fill (c.parts d 0) c.values

section

variable {c : Compiled} {d : Dialect}

theorem numbers_parts_zero (hv : c.Valid) :
    numbers (c.parts d 0) = List.range' 1 c.values.length := by
  rw [Fragments.numbers_parts, hv.values]

theorem parts_passage (hv : c.Valid) : Passage.parts (c.passage d) = c.parts d 0 := by
  apply Passage.parts_fill
  rw [numbers_parts_zero hv, List.length_range']

theorem values_passage (hv : c.Valid) : Passage.values (c.passage d) = c.values := by
  apply Passage.values_fill
  rw [numbers_parts_zero hv, List.length_range']

theorem binds_passage (hv : c.Valid) (e : Dialect) : Passage.Binds e c.values (c.passage d) :=
  Passage.binds_fill (numbers_parts_zero hv)

theorem parts_shift_passage (hv : c.Valid) (k : Nat) :
    Passage.parts (Passage.shift k (c.passage d)) = c.parts d k := by
  rw [Passage.parts_shift, parts_passage hv, ← Fragments.parts_shift, Nat.zero_add]

theorem legible_passage (hv : c.Valid) (hc : Fragment.checks d c.all = .ok ()) (k : Nat) :
    Legible d (Passage.parts (Passage.shift k (c.passage d))) := by
  rw [parts_shift_passage hv]
  exact Fragments.legible_parts hv.fragments hc k

end

end Compiled

def Source.inlined (d : Dialect) : Source → List Glyph
  | table text => Glyph.ofText text
  | subquery sub =>
    Glyph.ofText "(" ++ Placeholder.inlined d sub.sql sub.values ++ Glyph.ofText ") AS " ++
      Glyph.ofText sub.name

inductive Source.Legible (d : Dialect) (cursor : Nat) : Source → Prop where
  | table {text : String} (h : Inert d text.toList) : Legible d cursor (table text)
  | subquery {sub : Subquery} {ps : Passage}
      (h : (⟨sub.sql, sub.values⟩ : Statement).Says sub.dialect ps)
      (hfits : cursor = 0 ∨ sub.Fits) : Legible d cursor (subquery sub)

namespace Select

structure Reads (d : Dialect) (texts : List String) (ps : List Passage) : Prop where
  texts : texts = ps.map (Passage.text d)
  legible : ∀ p ∈ ps, Legible d (Passage.parts p)

theorem Reads.snoc {d : Dialect} {texts : List String} {ps : List Passage} {p : Passage}
    (h : Reads d texts ps) (hp : Legible d (Passage.parts p)) :
    Reads d (texts ++ [p.text d]) (ps ++ [p]) := by
  refine ⟨by rw [h.texts, List.map_append]; rfl, fun q hq => ?_⟩
  rcases List.mem_append.1 hq with hq | hq
  · exact h.legible q hq
  · cases List.mem_singleton.1 hq
    exact hp

structure Layout where
  source : Passage := []
  filters : List Passage := []
  havings : List Passage := []

def Layout.whole (l : Layout) : Passage :=
  l.source ++ (l.filters.flatten ++ l.havings.flatten)

structure Follows (s : Select) (l : Layout) : Prop where
  source : Reads s.dialect [s.source] [l.source]
  filters : Reads s.dialect s.filters l.filters
  havings : Reads s.dialect s.havings l.havings
  /-- Numbered values stand in the order in which they were bound, whatever their clauses. -/
  numbered : s.dialect = .numbered → l.whole.Binds .numbered (s.bound.map Bound.value)
  sourceValues : s.dialect = .unnumbered → Bound.valuesOf .source s.bound = l.source.values
  filterValues : Bound.valuesOf .filter s.bound = Passage.values l.filters.flatten
  havingValues : Bound.valuesOf .having s.bound = Passage.values l.havings.flatten
  block : s.dialect = .numbered →
    ∃ first, (numbers (Passage.parts l.source)).Perm (List.range' first s.sourceParams)

/-- What the layout of a SELECT depends on. -/
def bindings (s : Select) : Dialect × String × Nat × List String × List String × List Bound :=
  (s.dialect, s.source, s.sourceParams, s.filters, s.havings, s.bound)

section

variable {s t : Select} {l : Layout} {src : Source}

/-- A step that binds nothing leaves the layout alone. -/
theorem Follows.frame (h : s.Follows l) (ht : t.bindings = s.bindings) : t.Follows l := by
  simp only [bindings, Prod.mk.injEq] at ht
  obtain ⟨hdialect, hsource, hparams, hfilters, hhavings, hbound⟩ := ht
  constructor
  · rw [hdialect, hsource]
    exact h.source
  · rw [hdialect, hfilters]
    exact h.filters
  · rw [hdialect, hhavings]
    exact h.havings
  · rw [hdialect, hbound]
    exact h.numbered
  · rw [hdialect, hbound]
    exact h.sourceValues
  · rw [hbound]
    exact h.filterValues
  · rw [hbound]
    exact h.havingValues
  · rw [hdialect, hparams]
    exact h.block

theorem Follows.binds (h : s.Follows l) : l.whole.Binds s.dialect s.orderedValues := by
  cases hd : s.dialect with
  | numbered =>
    have hvalues : s.orderedValues = s.bound.map Bound.value := by
      simp only [orderedValues, hd]
    rw [hvalues]
    exact h.numbered hd
  | unnumbered =>
    refine ⟨fun h => absurd h (by decide), fun h => absurd h (by decide), fun _ => ?_⟩
    have hvalues : s.orderedValues =
        [Slot.source, .filter, .having].flatMap fun slot => Bound.valuesOf slot s.bound := by
      simp only [orderedValues, hd]
      rfl
    rw [hvalues]
    simp [h.sourceValues hd, h.filterValues, h.havingValues, Layout.whole]

theorem length_values (hc : s.Counted) : (s.bound.map Bound.value).length = s.cursor := by
  rw [List.length_map, hc.cursor]

theorem snoc_group {texts : List String} {ps : List Passage} {c : Compiled}
    (h : Reads s.dialect texts ps) (hv : c.Valid)
    (hchecks : Fragment.checks s.dialect c.all = .ok ()) :
    Reads s.dialect (texts ++ [s.written c])
      (ps ++ [Passage.shift s.cursor (c.passage s.dialect)]) := by
  have hq := Compiled.legible_passage hv hchecks s.cursor
  have hsnoc := h.snoc hq
  rwa [Passage.text, Compiled.parts_shift_passage hv] at hsnoc

theorem Follows.filter (hc : s.Counted) (h : s.Follows l) {g : Group}
    (hok : (s.filter g).error = none) :
    ∃ c : Compiled, g.compile = .ok c ∧ c.Valid ∧ Fragment.checks s.dialect c.all = .ok () ∧
      (s.filter g).Follows
        { l with filters := l.filters ++ [Passage.shift s.cursor (c.passage s.dialect)] } := by
  obtain ⟨c, ⟨hcompile, hv, hchecks⟩, hfilter⟩ := of_accepted hok (s.filter_cases g)
  have hfilters := snoc_group h.filters hv hchecks
  rw [hfilter]
  refine ⟨c, hcompile, hv, hchecks, h.source, hfilters, h.havings,
    fun hd => ?_, fun hd => ?_, ?_, ?_, h.block⟩
  · have hold := h.numbered hd
    rw [Layout.whole, ← List.append_assoc] at hold
    have hnew := hold.splice (Compiled.binds_passage (d := s.dialect) hv .numbered)
    rw [length_values hc] at hnew
    simpa [Layout.whole, addFilter, Select.addValues, Function.comp_def] using hnew
  · simpa [addFilter, Select.addValues] using h.sourceValues hd
  · simp [addFilter, Select.addValues, h.filterValues, Compiled.values_passage hv]
  · simpa [addFilter, Select.addValues] using h.havingValues

theorem Follows.having (hc : s.Counted) (h : s.Follows l) {g : Group}
    (hok : (s.having g).error = none) :
    ∃ c : Compiled, g.compile = .ok c ∧ c.Valid ∧ Fragment.checks s.dialect c.all = .ok () ∧
      (s.having g).Follows
        { l with havings := l.havings ++ [Passage.shift s.cursor (c.passage s.dialect)] } := by
  obtain ⟨c, ⟨hcompile, hv, hchecks⟩, hhaving⟩ := of_accepted hok (s.having_cases g)
  have hhavings := snoc_group h.havings hv hchecks
  rw [hhaving]
  refine ⟨c, hcompile, hv, hchecks, h.source, h.filters, hhavings,
    fun hd => ?_, fun hd => ?_, ?_, ?_, h.block⟩
  · have hold := h.numbered hd
    rw [← List.append_nil l.whole] at hold
    have hnew := hold.splice (Compiled.binds_passage (d := s.dialect) hv .numbered)
    rw [length_values hc] at hnew
    simpa [Layout.whole, addHaving, Select.addValues, Function.comp_def] using hnew
  · simpa [addHaving, Select.addValues] using h.sourceValues hd
  · simpa [addHaving, Select.addValues] using h.filterValues
  · simp [addHaving, Select.addValues, h.havingValues, Compiled.values_passage hv]

theorem hasOtherValues_eq_false (h : s.hasOtherValues = false) :
    ∀ b ∈ s.bound, b.slot = .source := by
  simpa [hasOtherValues] using h

/-- With its values the source leaves the layout. -/
theorem Follows.dropSource (hc : s.Counted) (h : s.Follows l)
    (hok : s.sourceParams = 0 ∨ s.dialect = .unnumbered ∨ s.hasOtherValues = false) :
    ({ s.dropSource with source := "" } : Select).Follows { l with source := [] } := by
  refine ⟨⟨rfl, fun p hp => ?_⟩, h.filters, h.havings, fun hd => ?_, fun _ => ?_, ?_, ?_,
    fun _ => ?_⟩
  · cases List.mem_singleton.1 hp
    exact .nil
  · change Passage.Binds .numbered (s.dropSource.bound.map Bound.value)
      (l.filters.flatten ++ l.havings.flatten)
    rcases hok with hzero | hd' | hother
    · obtain ⟨first, hblock⟩ := h.block hd
      have hnone : l.source.values = [] := by
        rw [← List.length_eq_zero_iff, ← Passage.length_numbers, hblock.length_eq,
          List.length_range', hzero]
      rw [dropSource_eq_self hc hzero]
      exact (Passage.binds_append_iff hnone).1 (h.numbered hd)
    · exact absurd (hd.symm.trans hd') (by decide)
    · have hslot := hasOtherValues_eq_false hother
      have hbound : s.dropSource.bound = [] :=
        List.filter_eq_nil_iff.2 fun b hb => by simp [hslot b hb]
      rw [hbound]
      have hnone (slot : Slot) (hne : slot ≠ .source) : Bound.valuesOf slot s.bound = [] := by
        rw [Bound.valuesOf, List.filter_eq_nil_iff.2 fun b hb => ?_, List.map_nil]
        simpa [hslot b hb] using hne.symm
      apply Passage.binds_nil
      rw [Passage.values_append, ← h.filterValues, ← h.havingValues, hnone .filter (by decide),
        hnone .having (by decide)]
      rfl
  · exact (Bound.valuesOf_filter_ne ..).trans (if_pos rfl)
  · exact (Bound.valuesOf_filter_ne ..).trans ((if_neg (by decide)).trans h.filterValues)
  · exact (Bound.valuesOf_filter_ne ..).trans ((if_neg (by decide)).trans h.havingValues)
  · exact ⟨0, .refl _⟩

/-- The passage of a subquery in parentheses, with its name. -/
def renamed (name : String) (ps : Passage) : Passage :=
  Passage.ofText "(" ++ (ps ++ (Passage.ofText ") AS " ++ Passage.ofText name))

theorem apart_renamed (d : Dialect) : Apart d ") AS " := by
  cases d <;> decide

theorem legible_renamed {d : Dialect} {name : String} {ps : Passage} (hname : Inert d name.toList)
    (h : Legible d (Passage.parts ps)) : Legible d (Passage.parts (renamed name ps)) := by
  have hrest := (apart_renamed d).between h (legible_fixedParts hname)
  have hall := (Fragment.apart_open d).before hrest
  simpa [renamed] using hall

theorem Follows.table (h : s.Follows { l with source := [] }) {text : String}
    (ht : Inert s.dialect text.toList) (hzero : s.sourceParams = 0) :
    ({ s with source := text } : Select).Follows { l with source := Passage.ofText text } := by
  refine ⟨⟨by simp, fun p hp => ?_⟩, h.filters, h.havings, fun hd => ?_, fun hd => ?_,
    h.filterValues, h.havingValues, fun _ => ⟨0, ?_⟩⟩
  · cases List.mem_singleton.1 hp
    rw [Passage.parts_ofText]
    exact legible_fixedParts ht
  · exact (Passage.binds_append_iff (Passage.values_ofText text)).2 (h.numbered hd)
  · exact (h.sourceValues hd).trans (Passage.values_ofText text).symm
  · simp [hzero]

theorem shift_text {q : Statement} {d : Dialect} {ps : Passage} {k : Nat} (h : q.Says d ps)
    (hfits : k = 0 ∨ q.values.length < UInt64.size) :
    Placeholder.shift d q.sql k = Passage.text d (Passage.shift k ps) := by
  rw [h.text, Passage.text, shift_write h.legible, ← Passage.parts_shift, Passage.text]
  intro hd hk n hn
  have hrange := (h.binds.numbers hd).subset hn
  rw [List.mem_range'_1] at hrange
  have hfits := hfits.resolve_left hk
  omega

theorem Follows.subquery (hc : s.Counted) (h : s.Follows { l with source := [] })
    {sub : Subquery} {ps : Passage}
    (hps : (⟨sub.sql, sub.values⟩ : Statement).Says s.dialect ps)
    (hfits : s.cursor = 0 ∨ sub.Fits) (hok : (s.setSource (.subquery sub)).error = none) :
    (s.setSource (.subquery sub)).Follows
      { l with source := renamed sub.name (Passage.shift s.cursor ps) } := by
  obtain ⟨-, hname, heq⟩ := setSource_accepted hok
  have hlegible : Legible s.dialect (Passage.parts (Passage.shift s.cursor ps)) := by
    rw [Passage.parts_shift]
    exact hps.legible.shift s.cursor
  rw [heq, shift_text hps hfits]
  refine ⟨⟨?_, fun p hp => ?_⟩, h.filters, h.havings, fun hd => ?_, fun hd => ?_, ?_, ?_,
    fun hd => ⟨1 + s.cursor, ?_⟩⟩
  · simp [renamed, String.append_assoc, Select.addValues]
  · cases List.mem_singleton.1 hp
    exact legible_renamed (Name.inert_of_checkAlias hname) hlegible
  · have hold := h.numbered hd
    have hrest : Passage.values (Passage.ofText ") AS " ++ Passage.ofText sub.name) = [] := by simp
    have hbase := (Passage.binds_append_iff (Passage.values_ofText "(")).2
      ((Passage.binds_append_iff hrest).2 hold)
    have hnew := hbase.splice (hd ▸ hps.binds)
    rw [length_values hc] at hnew
    simpa [Layout.whole, renamed, Select.addValues, Function.comp_def] using hnew
  · have hold : Bound.valuesOf .source s.bound = [] := h.sourceValues hd
    have hvalues : sub.values = Passage.values ps := hps.binds.inOrder hd
    simp [Select.addValues, hold, renamed, hvalues]
  · simpa [Select.addValues] using h.filterValues
  · simpa [Select.addValues] using h.havingValues
  · have hnumbers := (hps.binds.numbers hd).map (· + s.cursor)
    rw [Passage.map_add_range'_one] at hnumbers
    simpa [renamed, numbers_shift] using hnumbers

/-- What was selected from before does not matter. -/
theorem setSource_eq (h : (s.setSource src).error = none) :
    s.setSource src = ({ s with source := "" } : Select).setSource src := by
  cases src with
  | table text => rfl
  | subquery sub =>
    obtain ⟨hd, hname, heq⟩ := setSource_accepted h
    have hcheck : ({ s with source := "" } : Select).checkSubquery sub = .ok () := by
      rw [checkSubquery, if_pos hd, hname]
      rfl
    rw [heq, setSource, hcheck]
    rfl

/-- Puts a source in the place of the one before. -/
theorem Follows.fromSource (hc : s.Counted) (h : s.Follows l)
    (hsrc : src.Legible s.dialect s.dropSource.cursor) (hok : (s.fromSource src).error = none) :
    ∃ p : Passage, p.glyphs = src.inlined s.dialect ∧
      (s.fromSource src).Follows { l with source := p } := by
  obtain ⟨hdrop, heq⟩ := fromSource_accepted hc hok
  rw [heq] at hok ⊢
  have hempty := h.dropSource hc hdrop
  have hcounted : ({ s.dropSource with source := "" } : Select).Counted :=
    ⟨hc.dropSource.cursor, hc.dropSource.source⟩
  have hset := setSource_eq hok
  rw [hset] at hok ⊢
  cases hsrc with
  | table ht => exact ⟨_, Passage.glyphs_ofText _, hempty.table ht rfl⟩
  | subquery hps hfits =>
    have hd : _ = s.dialect := (setSource_accepted hok).1
    rw [hd] at hps
    refine ⟨_, ?_, hempty.subquery hcounted hps hfits hok⟩
    have hinlined := hps.binds.inlined_text hps.legible
    rw [← hps.text] at hinlined
    simp [renamed, Source.inlined, ← hinlined]

theorem follows_initial (d : Dialect) : ({ dialect := d } : Select).Follows {} := by
  refine ⟨⟨rfl, fun p hp => ?_⟩, ⟨rfl, nofun⟩, ⟨rfl, nofun⟩, fun _ => Passage.binds_nil rfl,
    fun _ => rfl, rfl, rfl, fun _ => ⟨0, .refl _⟩⟩
  cases List.mem_singleton.1 hp
  exact .nil

end

end Select

end Quarry
