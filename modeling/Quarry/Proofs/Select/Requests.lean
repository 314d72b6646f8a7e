import Quarry.Proofs.Select.Placeholders

namespace Quarry

open Text Placeholder

/-- The glyphs of a group that stands alone; there are none for a group without conditions. -/
def Group.inlined (d : Dialect) (g : Group) : Except Invalid (Option (List Glyph)) := do
  let c ← g.compile
  let (text, _) ← c.text d 0
  return if c.isEmpty then none else some (Placeholder.inlined d text c.values)

/-- Groups set together; those without conditions count only if there are no others. -/
def Glyph.conjoined (gs : List (Option (List Glyph))) : List Glyph :=
  match gs.filterMap id with
  | [] => Glyph.ofText tautology
  | kept => (Glyph.ofText " AND ").intercalate kept

namespace Select

/-- What was asked of each clause, on its own. -/
structure Requests where
  source : Source
  columns : List String := []
  joins : List (JoinKind × Join) := []
  filters : List Group := []
  havings : List Group := []
  groups : List String := []
  order : Option (List OrderItem) := none
  sortable : Option Sortable := none
  page : Option Page := none
  config : PageConfig := {}

namespace Requests

def add (r : Requests) : Step → Requests
  | .columns names => { r with columns := names }
  | .source new => { r with source := new }
  | .join kind j => { r with joins := r.joins ++ [(kind, j)] }
  | .filter g => { r with filters := r.filters ++ [g] }
  | .having g => { r with havings := r.havings ++ [g] }
  | .groupBy names => { r with groups := r.groups ++ names }
  | .orderBy items => { r with order := some items }
  | .sortable fields => { r with sortable := some fields }
  | .paginate p => { r with page := some p }
  | .configure c => { r with config := c }
  | .count => r

def ofSteps (source : Source) (steps : List Step) : Requests :=
  steps.foldl add { source }

def orderText (r : Requests) : Except Invalid String :=
  match r.order with
  | some items => orderClause items r.sortable
  | none => .ok ""

def clauseIf (present : Bool) (gs : List Glyph) : List (List Glyph) :=
  if present then [gs] else []

/-- The clauses in the order of the text, each from what was asked of it. -/
def clauses (r : Requests) (d : Dialect) : Except Invalid (List (List Glyph)) := do
  let joins ← r.joins.mapM fun e => e.2.text e.1
  let filters ← r.filters.mapM (Group.inlined d)
  let havings ← r.havings.mapM (Group.inlined d)
  let order ← r.orderText
  return [Glyph.ofText "SELECT " ++ Glyph.ofText (columnList r.columns) ++
      Glyph.ofText " FROM " ++ r.source.inlined d] ++
    joins.map Glyph.ofText ++
    clauseIf (!r.filters.isEmpty) (Glyph.ofText "WHERE " ++ Glyph.conjoined filters) ++
    clauseIf (r.groups ≠ []) (Glyph.ofText ("GROUP BY " ++ Text.join ", " r.groups)) ++
    clauseIf (!r.havings.isEmpty) (Glyph.ofText "HAVING " ++ Glyph.conjoined havings) ++
    clauseIf (order ≠ "") (Glyph.ofText order) ++
    match r.page with
    | some p => [Glyph.ofText (p.clause r.config)]
    | none => []

def inlined (r : Requests) (d : Dialect) : Except Invalid (List Glyph) := do
  return (Glyph.ofText " ").intercalate (← r.clauses d)

end Requests

/-- A plain table, or a subquery from a SELECT of plain texts. -/
inductive Grounded : Source → Prop where
  | table {text : String} (h : Plain text) : Grounded (.table text)
  | subquery {t : Select} {name : String} {sub : Subquery} (ht : Reached Plain t)
      (hsub : t.toSubquery name = .ok sub) (hfits : sub.Fits) : Grounded (.subquery sub)

structure Step.Grounded (st : Step) : Prop where
  rawTexts : ∀ text ∈ st.rawTexts, Plain text
  source : ∀ src, st = .source src → Select.Grounded src

section

variable {s : Select} {l : Layout} {src : Source} {d : Dialect}

theorem Grounded.legible (h : Grounded src) (d : Dialect) (cursor : Nat) :
    src.Legible d cursor := by
  cases h with
  | table h => exact .table (h.inert d)
  | subquery ht hsub hfits =>
    obtain ⟨-, hbuild, -, -⟩ := build_of_toSubquery hsub
    obtain ⟨l, hl⟩ := ht.follows (error_of_build hbuild)
    obtain ⟨ps, hps⟩ := hl.toSubquery ht.tidy hsub
    exact .subquery hps (.inr hfits)

/-- The glyphs of a passage; there are none for a group without conditions. -/
def shown (d : Dialect) (p : Passage) : Option (List Glyph) :=
  if p.text d = tautology then none else some p.glyphs

/-- Wherever its placeholders are numbered from, a group shows the same. -/
theorem inlined_of_compile {g : Group} {c : Compiled} (hc : g.compile = .ok c) (hv : c.Valid)
    (hchecks : Fragment.checks d c.all = .ok ()) (k : Nat) :
    g.inlined d = .ok (shown d (Passage.shift k (c.passage d))) := by
  have hlegible : Legible d (Passage.parts (c.passage d)) := by
    rw [Compiled.parts_passage hv]
    exact Fragments.legible_parts hv.fragments hchecks 0
  have hinlined := (Compiled.binds_passage hv d).inlined_text hlegible
  rw [Passage.text, Compiled.parts_passage hv] at hinlined
  have htautology : (Passage.shift k (c.passage d)).text d = tautology ↔ c.isEmpty := by
    rw [Passage.text, Compiled.parts_shift_passage hv]
    exact Fragments.write_parts_eq_tautology ..
  rw [Group.inlined, hc]
  simp only [bind, Except.bind, Fragments.text_eq_checks, hchecks, Except.map, hinlined, shown,
    htautology, Passage.glyphs_shift]
  rfl

theorem filterMap_shown (ps : List Passage) :
    (ps.map (shown d)).filterMap id = (Passage.kept d ps).map Passage.glyphs := by
  induction ps with
  | nil => rfl
  | cons p ps ih =>
    simp only [Passage.kept] at ih ⊢
    by_cases hp : p.text d = tautology
    · simpa [shown, hp] using ih
    · simpa [shown, hp] using ih

theorem conjoined_shown (ps : List Passage) :
    Glyph.conjoined (ps.map (shown d)) = (Passage.conjoined d ps).glyphs := by
  unfold Glyph.conjoined Passage.conjoined
  rw [filterMap_shown]
  cases hkept : Passage.kept d ps with
  | nil => exact (Passage.glyphs_ofText _).symm
  | cons p ps =>
    have hglyphs := Passage.glyphs_intercalate (Passage.ofText " AND ") (p :: ps)
    rw [Passage.glyphs_ofText] at hglyphs
    exact hglyphs.symm

/-- A SELECT that is what was asked for. -/
structure Answers (s : Select) (d : Dialect) (r : Requests) : Prop where
  dialect : s.dialect = d
  columns : s.columns = r.columns
  joins : (r.joins.mapM fun e => e.2.text e.1) = .ok s.joins
  groups : s.groups = r.groups
  order : s.order = r.order
  sortable : s.sortable = r.sortable
  page : s.page = r.page
  config : s.config = r.config
  layout : ∃ l : Layout, s.Follows l ∧ l.source.glyphs = r.source.inlined d ∧
    r.filters.mapM (Group.inlined d) = .ok (l.filters.map (shown d)) ∧
    r.havings.mapM (Group.inlined d) = .ok (l.havings.map (shown d))

theorem mapM_snoc {α β ε : Type} {f : α → Except ε β} {xs : List α} {ys : List β} {x : α} {y : β}
    (h : xs.mapM f = .ok ys) (hx : f x = .ok y) : (xs ++ [x]).mapM f = .ok (ys ++ [y]) := by
  rw [List.mapM_append, h, List.mapM_cons, hx]
  rfl

variable {r : Requests}

/-- A source takes the place of the one before and leaves the other clauses alone. -/
theorem fromSource_frame (hc : s.Counted) (hok : (s.fromSource src).error = none) :
    ∃ source sourceParams bound cursor,
      s.fromSource src = { s with source, sourceParams, bound, cursor } := by
  obtain ⟨-, heq⟩ := fromSource_accepted hc hok
  rw [heq] at hok ⊢
  cases src with
  | table text => exact ⟨_, _, _, _, rfl⟩
  | subquery sub =>
    obtain ⟨-, -, hset⟩ := setSource_accepted hok
    exact ⟨_, _, _, _, hset⟩

theorem Answers.fromSource (hc : s.Counted) (h : s.Answers d r) (hsrc : Grounded src)
    (hok : (s.fromSource src).error = none) :
    (s.fromSource src).Answers d { r with source := src } := by
  obtain ⟨l, hl, -, hfilters, hhavings⟩ := h.layout
  obtain ⟨p, hp, hnew⟩ := hl.fromSource hc (hsrc.legible _ _) hok
  rw [h.dialect] at hp
  obtain ⟨source, sourceParams, bound, cursor, heq⟩ := fromSource_frame hc hok
  rw [heq] at hnew ⊢
  exact ⟨h.dialect, h.columns, h.joins, h.groups, h.order, h.sortable, h.page, h.config,
    _, hnew, hp, hfilters, hhavings⟩

theorem answers_new (hsrc : Grounded src) (hok : (new d src).error = none) :
    (new d src).Answers d { source := src } := by
  obtain ⟨p, hp, hnew⟩ := Follows.new (hsrc.legible d 0) hok
  obtain ⟨source, sourceParams, bound, cursor, heq⟩ :=
    fromSource_frame (s := { dialect := d }) ⟨rfl, rfl⟩ hok
  have heq : new d src = _ := heq
  rw [heq] at hnew ⊢
  exact ⟨rfl, rfl, rfl, rfl, rfl, rfl, rfl, rfl, _, hnew, hp, rfl, rfl⟩

theorem Answers.filter (hc : s.Counted) (h : s.Answers d r) {g : Group}
    (hok : (s.filter g).error = none) :
    (s.filter g).Answers d { r with filters := r.filters ++ [g] } := by
  obtain ⟨l, hl, hsource, hfilters, hhavings⟩ := h.layout
  obtain ⟨c, hcompile, hv, hchecks, hnew⟩ := hl.filter hc hok
  rw [h.dialect] at hchecks hnew
  have hg := mapM_snoc hfilters (inlined_of_compile hcompile hv hchecks s.cursor)
  rw [← List.map_singleton, ← List.map_append] at hg
  obtain ⟨c', -, heq⟩ := of_accepted hok (s.filter_cases g)
  rw [heq] at hnew ⊢
  exact ⟨h.dialect, h.columns, h.joins, h.groups, h.order, h.sortable, h.page, h.config,
    _, hnew, hsource, hg, hhavings⟩

theorem Answers.having (hc : s.Counted) (h : s.Answers d r) {g : Group}
    (hok : (s.having g).error = none) :
    (s.having g).Answers d { r with havings := r.havings ++ [g] } := by
  obtain ⟨l, hl, hsource, hfilters, hhavings⟩ := h.layout
  obtain ⟨c, hcompile, hv, hchecks, hnew⟩ := hl.having hc hok
  rw [h.dialect] at hchecks hnew
  have hg := mapM_snoc hhavings (inlined_of_compile hcompile hv hchecks s.cursor)
  rw [← List.map_singleton, ← List.map_append] at hg
  obtain ⟨c', -, heq⟩ := of_accepted hok (s.having_cases g)
  rw [heq] at hnew ⊢
  exact ⟨h.dialect, h.columns, h.joins, h.groups, h.order, h.sortable, h.page, h.config,
    _, hnew, hsource, hfilters, hg⟩

theorem Answers.join (h : s.Answers d r) {kind : JoinKind} {j : Join}
    (hok : (s.join kind j).error = none) :
    (s.join kind j).Answers d { r with joins := r.joins ++ [(kind, j)] } := by
  obtain ⟨hsql, hjoin⟩ := of_accepted hok (s.join_cases kind j)
  obtain ⟨l, hl, hsource, hfilters, hhavings⟩ := h.layout
  have hjoins : (r.joins ++ [(kind, j)]).mapM (fun e => e.2.text e.1) =
      .ok (s.joins ++ [j.sql kind]) :=
    mapM_snoc h.joins hsql
  rw [hjoin]
  exact ⟨h.dialect, h.columns, hjoins, h.groups, h.order, h.sortable, h.page, h.config,
    l, hl.frame rfl, hsource, hfilters, hhavings⟩

theorem Answers.apply (hc : s.Counted) (h : s.Answers d r) {st : Step} (hst : st.Grounded)
    (hcount : st ≠ .count) (hok : (s.apply st).error = none) :
    (s.apply st).Answers d (r.add st) := by
  obtain ⟨l, hl, hlayout⟩ := h.layout
  have hgroups (names : List String) : s.groups ++ names = r.groups ++ names := by rw [h.groups]
  cases st with
  | source src => exact h.fromSource hc (hst.source src rfl) hok
  | join kind j => exact h.join hok
  | filter g => exact h.filter hc hok
  | having g => exact h.having hc hok
  | count => exact absurd rfl hcount
  | columns names =>
    exact ⟨h.dialect, rfl, h.joins, h.groups, h.order, h.sortable, h.page, h.config, l,
      hl.frame rfl, hlayout⟩
  | groupBy names =>
    exact ⟨h.dialect, h.columns, h.joins, hgroups names, h.order, h.sortable, h.page, h.config, l,
      hl.frame rfl, hlayout⟩
  | orderBy items =>
    exact ⟨h.dialect, h.columns, h.joins, h.groups, rfl, h.sortable, h.page, h.config, l,
      hl.frame rfl, hlayout⟩
  | sortable fields =>
    exact ⟨h.dialect, h.columns, h.joins, h.groups, h.order, rfl, h.page, h.config, l,
      hl.frame rfl, hlayout⟩
  | paginate p =>
    exact ⟨h.dialect, h.columns, h.joins, h.groups, h.order, h.sortable, rfl, h.config, l,
      hl.frame rfl, hlayout⟩
  | configure c =>
    exact ⟨h.dialect, h.columns, h.joins, h.groups, h.order, h.sortable, h.page, rfl, l,
      hl.frame rfl, hlayout⟩

/-- A run of steps of which none is rejected answers all its requests. -/
theorem Answers.applyAll {steps : List Step} (hc : s.Counted) (h : s.Answers d r)
    (hsteps : ∀ st ∈ steps, st.Grounded ∧ st ≠ .count)
    (hok : (s.applyAll steps).error = none) :
    (s.applyAll steps).Answers d (steps.foldl Requests.add r) := by
  induction steps generalizing s r with
  | nil => exact h
  | cons st steps ih =>
    obtain ⟨hst, hcount⟩ := hsteps st (.head _)
    have hnext := h.apply hc hst hcount (error_of_applyAll hok)
    exact ih (hc.apply st) hnext (fun st hst => hsteps st (.tail _ hst)) hok

theorem length_of_mapM {α β ε : Type} {f : α → Except ε β} {xs : List α} {ys : List β}
    (h : xs.mapM f = .ok ys) : xs.length = ys.length := by
  induction xs generalizing ys with
  | nil =>
    cases h
    rfl
  | cons x xs ih =>
    rw [List.mapM_cons] at h
    obtain ⟨y, _, h⟩ := of_bind h
    obtain ⟨ys, hys, h⟩ := of_bind h
    cases h
    rw [List.length_cons, List.length_cons, ih hys]

theorem present_eq {gs : List Group} {texts : List String} {ps : List Passage}
    (hg : gs.mapM (Group.inlined d) = .ok (ps.map (shown d))) (ht : Reads s.dialect texts ps) :
    decide (texts ≠ []) = !gs.isEmpty := by
  have hlength : gs.length = texts.length := by
    rw [length_of_mapM hg, ht.texts, List.length_map, List.length_map]
  cases gs with
  | nil => simp [List.length_eq_zero_iff.1 hlength.symm]
  | cons g gs =>
    cases texts with
    | nil => cases hlength
    | cons t ts => rfl

/-- The statement is the one that was asked for. -/
theorem Answers.passage (h : s.Answers d r) {order : String} (ho : s.orderText = .ok order) :
    ∃ l, s.Follows l ∧ r.inlined d = .ok (s.passage l order).glyphs := by
  obtain ⟨l, hl, hsource, hfilters, hhavings⟩ := h.layout
  refine ⟨l, hl, ?_⟩
  have horder : r.orderText = .ok order := by
    rw [Select.orderText] at ho
    rw [Requests.orderText]
    rw [← h.order, ← h.sortable]
    exact ho
  have hjoins : (s.joins.map Passage.ofText).map Passage.glyphs = s.joins.map Glyph.ofText := by
    simp [Function.comp_def]
  rw [Select.passage, Passage.glyphs_intercalate, Passage.glyphs_ofText, clausePassages]
  simp only [List.map_append, map_passageIf, hjoins, Passage.glyphs_append,
    Passage.glyphs_ofText, List.map_cons, List.map_nil, present_eq hfilters hl.filters,
    present_eq hhavings hl.havings, hsource, h.dialect, ← conjoined_shown, h.columns, h.groups,
    h.page, h.config]
  rw [Requests.inlined, Requests.clauses, h.joins, hfilters, hhavings, horder]
  simp only [bind, Except.bind, pure, Except.pure, Requests.clauseIf, List.append_assoc]
  cases r.page with
  | none => rfl
  | some p => simp only [List.map_cons, List.map_nil, Passage.glyphs_ofText]

theorem Grounded.reached (h : Grounded src) (d : Dialect) : Reached Plain (new d src) := by
  cases h with
  | table h => exact .table d h
  | subquery ht hsub hfits => exact .subquery d ht hsub

theorem Reached.apply (h : Reached Plain s) {st : Step} (hst : st.Grounded) :
    Reached Plain (s.apply st) := by
  cases st with
  | source src =>
    cases hst.source src rfl with
    | table ht => exact h.step hst.rawTexts rfl
    | subquery ht hsub hfits => exact h.splice ht hsub hfits
  | _ => exact h.step hst.rawTexts rfl

theorem Reached.applyAll {steps : List Step} (h : Reached Plain s)
    (hsteps : ∀ st ∈ steps, st.Grounded) : Reached Plain (s.applyAll steps) := by
  induction steps generalizing s with
  | nil => exact h
  | cons st steps ih =>
    exact ih (h.apply (hsteps st (.head _))) fun st hst => hsteps st (.tail _ hst)

theorem Answers.build (h : s.Answers d r) (ht : s.Tidy) {q : Statement} (hq : s.build = .ok q) :
    ∃ ps : Passage, q.Says d ps ∧ r.inlined d = .ok ps.glyphs := by
  obtain ⟨l, hl, -⟩ := h.layout
  obtain ⟨order, horder, -⟩ := says_of_build hl ht hq
  obtain ⟨l, hl, hinlined⟩ := h.passage horder
  obtain ⟨order', horder', hread⟩ := says_of_build hl ht hq
  rw [horder] at horder'
  cases horder'
  exact ⟨_, h.dialect ▸ hread, hinlined⟩

/-- Sources and steps that a statement can be made of, counting apart. -/
structure Admissible (src : Source) (steps : List Step) : Prop where
  source : Grounded src
  steps : ∀ st ∈ steps, st.Grounded ∧ st ≠ .count

theorem Admissible.build {steps : List Step} (h : Admissible src steps) {q : Statement}
    (hq : ((new d src).applyAll steps).build = .ok q) :
    ∃ ps : Passage, q.Says d ps ∧ (Requests.ofSteps src steps).inlined d = .ok ps.glyphs := by
  have hok := error_of_build hq
  have hreached := (h.source.reached d).applyAll fun st hst => (h.steps st hst).1
  have hnew := answers_new h.source (error_of_applyAll hok)
  exact (hnew.applyAll (counted_new d src) h.steps hok).build hreached.tidy hq

/-- Each value of a statement stands where it was asked for, and two runs with the same requests
for each clause bind the same values, in the same order where placeholders have no numbers. -/
theorem build_inlined {steps : List Step} {q : Statement} (h : Admissible src steps)
    (hq : ((new d src).applyAll steps).build = .ok q) :
    (Requests.ofSteps src steps).inlined d = .ok (Placeholder.inlined d q.sql q.values) ∧
      ∀ src' steps' q', Admissible src' steps' →
        Requests.ofSteps src' steps' = Requests.ofSteps src steps →
        ((new d src').applyAll steps').build = .ok q' →
          Placeholder.inlined d q'.sql q'.values = Placeholder.inlined d q.sql q.values ∧
            q'.values.Perm q.values ∧ (d = .unnumbered → q'.values = q.values) := by
  obtain ⟨ps, hps, hrequests⟩ := h.build hq
  have hinlined := hps.binds.inlined_text hps.legible
  rw [← hps.text] at hinlined
  refine ⟨hinlined ▸ hrequests, fun src' steps' q' h' hsame hq' => ?_⟩
  obtain ⟨ps', hps', hrequests'⟩ := h'.build hq'
  have hinlined' := hps'.binds.inlined_text hps'.legible
  rw [← hps'.text] at hinlined'
  rw [hsame, hrequests] at hrequests'
  have hglyphs : ps.glyphs = ps'.glyphs := Except.ok.inj hrequests'
  have hvalues : ps'.values = ps.values := by
    rw [← Passage.values_glyphs, ← Passage.values_glyphs, hglyphs]
  refine ⟨by rw [hinlined, hinlined', hglyphs], ?_, fun hd => ?_⟩
  · exact hps'.binds.perm.symm.trans (hvalues ▸ hps.binds.perm)
  · rw [hps'.binds.inOrder hd, hps.binds.inOrder hd, hvalues]

def paid : Step :=
  .filter ⟨⟨[("paid", .value (.bool true))]⟩, none⟩

def byCustomer : Step :=
  .groupBy ["customer"]

def frequent : Step :=
  .having ⟨⟨[("COUNT(*)", .object [.compare .gte (.int 2) rfl])]⟩, none⟩

/-- The condition on groups may come before the one on rows. -/
theorem build_inlined_having_first :
    ∃ q q',
      ((new .numbered (.table "orders")).applyAll [paid, byCustomer, frequent]).build = .ok q ∧
      ((new .numbered (.table "orders")).applyAll [frequent, byCustomer, paid]).build = .ok q' ∧
      q.sql = "SELECT * FROM orders WHERE paid = $1 GROUP BY customer HAVING COUNT(*) >= $2" ∧
      q'.sql = "SELECT * FROM orders WHERE paid = $2 GROUP BY customer HAVING COUNT(*) >= $1" ∧
      (Requests.ofSteps (.table "orders") [paid, byCustomer, frequent]).inlined .numbered =
        .ok (Placeholder.inlined .numbered q.sql q.values) ∧
      Placeholder.inlined .numbered q'.sql q'.values =
        Placeholder.inlined .numbered q.sql q.values ∧
      q'.values.Perm q.values := by
  have hsql : ((new .numbered (.table "orders")).applyAll
      [paid, byCustomer, frequent]).build.toOption.map Statement.sql =
      some "SELECT * FROM orders WHERE paid = $1 GROUP BY customer HAVING COUNT(*) >= $2" := by
    decide +kernel
  have hsql' : ((new .numbered (.table "orders")).applyAll
      [frequent, byCustomer, paid]).build.toOption.map Statement.sql =
      some "SELECT * FROM orders WHERE paid = $2 GROUP BY customer HAVING COUNT(*) >= $1" := by
    decide +kernel
  obtain ⟨q, hq, hsql⟩ := Option.map_eq_some_iff.1 hsql
  obtain ⟨q', hq', hsql'⟩ := Option.map_eq_some_iff.1 hsql'
  have hsource : Grounded (.table "orders") := .table (by decide)
  have hgrounded {st : Step} (hraw : ∀ text ∈ st.rawTexts, Plain text)
      (hsource : ∀ src, st ≠ .source src) : st.Grounded :=
    ⟨hraw, fun src h => absurd h (hsource src)⟩
  have hpaid : paid.Grounded ∧ paid ≠ .count :=
    ⟨hgrounded (List.forall_mem_nil _) (by simp [paid]), by simp [paid]⟩
  have hfrequent : frequent.Grounded ∧ frequent ≠ .count :=
    ⟨hgrounded (List.forall_mem_nil _) (by simp [frequent]), by simp [frequent]⟩
  have hcustomer : byCustomer.Grounded ∧ byCustomer ≠ .count :=
    ⟨hgrounded (List.forall_mem_singleton.2 (by decide)) (by simp [byCustomer]),
      by simp [byCustomer]⟩
  have hsteps : Admissible (.table "orders") [paid, byCustomer, frequent] :=
    ⟨hsource, by simp [hpaid, hfrequent, hcustomer]⟩
  have hsteps' : Admissible (.table "orders") [frequent, byCustomer, paid] :=
    ⟨hsource, by simp [hpaid, hfrequent, hcustomer]⟩
  obtain ⟨hinlined, hother⟩ := build_inlined hsteps (of_toOption hq)
  obtain ⟨hsame, hperm, -⟩ := hother _ _ q' hsteps' rfl (of_toOption hq')
  exact ⟨q, q', of_toOption hq, of_toOption hq', hsql, hsql', hinlined, hsame, hperm⟩

end

end Select

end Quarry
