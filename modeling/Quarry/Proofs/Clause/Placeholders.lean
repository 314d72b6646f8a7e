import Quarry.Proofs.Clause.Shows

namespace Quarry

open Text Placeholder

/-- The end of the numbers does not depend on the dialect. -/
theorem Fragments.next_of_text {g : Fragments} {d : Dialect} {k next : Nat} {text : String}
    (h : g.text d k = .ok (text, next)) : next = k + g.placeholderCount := by
  rw [text_eq_checks] at h
  obtain ⟨_, _, h⟩ := of_map h
  cases h
  rfl

/-- The texts of the conditions of a group, each with the placeholders for its operands. -/
structure Group.Spread (g : Group) (c : Compiled) (d : Dialect) (k : Nat) (text : String)
    (next : Nat) (ts : List String) : Prop where
  texts : Fragment.texts d k c.all = .ok (ts, next)
  split : placeholders d text = ts.flatMap (placeholders d)
  operands : ts.map (fun t => (placeholders d t).length) =
    g.conditions.map fun e => e.2.bound.length

/-- The values of a compiled group are the operands that are bound, in the order of the
conditions, and they answer the placeholders one by one. -/
structure Group.Answered (g : Group) (c : Compiled) : Prop where
  length : c.values.length = c.placeholderCount
  filled : ∀ v ∈ c.values, v.isNull = false
  keys : c.all.map Fragment.key = g.conditions.map Prod.fst
  values : c.values = g.conditions.flatMap fun e => e.2.bound
  /-- A single quote stands only inside quoted names, and so opens no text. -/
  unquoted : ∀ d k text next, c.text d k = .ok (text, next) → some '\'' ∉ mask text
  placeholders : ∀ d k text next, c.text d k = .ok (text, next) →
    placeholders d text = (List.range' (k + 1) c.values.length).map d.placeholder
  spread : ∀ d k text next, c.text d k = .ok (text, next) → ∃ ts, g.Spread c d k text next ts

namespace Fragment

theorem lengths_partsList (d : Dialect) (c : Nat) (fs : List Fragment) :
    (partsList d c fs).map (fun ps => (numbers ps).length) = fs.map fun f => f.operator.arity := by
  induction fs generalizing c with
  | nil => rfl
  | cons f fs ih =>
    rw [partsList, List.map_cons, ih, numbers_parts, List.length_range', List.map_cons]

/-- The fragments of a list have the placeholders with the numbers that are theirs. -/
theorem placeholders_partsList {d : Dialect} {fs : List Fragment} (hv : ∀ f ∈ fs, f.Valid)
    (hc : checks d fs = .ok ()) (c : Nat) :
    ((partsList d c fs).map (write d)).map (placeholders d) =
      (partsList d c fs).map fun ps => (numbers ps).map d.placeholder := by
  rw [List.map_map]
  apply List.map_congr_left
  intro ps hps
  exact placeholders_write (legible_partsList hv hc c ps hps)

end Fragment

theorem Group.Made.arities {g : Group} {c : Compiled} {terms : List Term} (h : g.Made c terms) :
    (c.all.map fun f => f.operator.arity) = g.conditions.map fun e => e.2.bound.length := by
  have hbound := congrArg (List.map fun e => e.2.length) h.bound
  rw [List.map_map, List.map_map] at hbound
  rw [h.fragments, List.map_map]
  apply Eq.trans _ hbound
  apply List.map_congr_left
  intro t ht
  exact (h.valid t ht).values.symm

theorem Group.Made.spread {g : Group} {c : Compiled} {terms : List Term} (h : g.Made c terms)
    (hv : c.Valid) {d : Dialect} {k next : Nat} {text : String}
    (ht : c.text d k = .ok (text, next)) : ∃ ts, g.Spread c d k text next ts := by
  rw [Fragments.text_eq_checks] at ht
  obtain ⟨_, hc, ht⟩ := of_map ht
  cases ht
  have hplaceholders := Fragment.placeholders_partsList hv.fragments hc k
  refine ⟨(Fragment.partsList d k c.all).map (write d), ?_, ?_, ?_⟩
  · rw [Fragment.texts_eq_checks, hc]
    rfl
  · rw [placeholders_write (Fragments.legible_parts hv.fragments hc k), Fragments.numbers_parts,
      Fragments.placeholderCount, ← Fragment.numbers_partsList d k, List.map_flatMap, List.flatMap,
      List.flatMap, hplaceholders]
  · have hlengths := congrArg (List.map List.length) hplaceholders
    rw [← h.arities, ← Fragment.lengths_partsList d k]
    simpa only [List.map_map, Function.comp_def, List.length_map] using hlengths

theorem Group.answered_of_compile {g : Group} {c : Compiled} (h : g.compile = .ok c) :
    g.Answered c := by
  obtain ⟨ts, hts⟩ := g.made_of_compile h
  have hvalid := g.valid_of_compile h
  have hvalues : c.values = g.conditions.flatMap fun e => e.2.bound := by
    have hbound := congrArg (List.flatMap Prod.snd) hts.bound
    rw [List.flatMap_map, List.flatMap_map] at hbound
    rw [hts.values]
    exact hbound
  constructor
  case length => exact hvalid.values
  case filled =>
    intro v hv
    rw [hvalues] at hv
    obtain ⟨e, -, hv⟩ := List.mem_flatMap.1 hv
    simpa using (List.mem_filter.1 hv).2
  case keys =>
    have hbound := congrArg (List.map Prod.fst) hts.bound
    rw [List.map_map, List.map_map] at hbound
    rw [hts.fragments, List.map_map]
    exact hbound
  case values => exact hvalues
  case unquoted =>
    intro d k text next ht
    rw [Fragments.text_eq_checks] at ht
    obtain ⟨_, _, ht⟩ := of_map ht
    cases ht
    intro hmem
    have hshows := Fragments.shows_parts Fragment.palette_isUnquoted (d := d)
      (Fragment.allShow_isUnquoted hvalid.fragments) k
    exact absurd (hshows.chars _ hmem) (by decide)
  case placeholders =>
    intro d k text next ht
    rw [Fragments.text_eq_checks] at ht
    obtain ⟨_, hc, ht⟩ := of_map ht
    cases ht
    rw [placeholders_write (Fragments.legible_parts hvalid.fragments hc k), Fragments.numbers_parts,
      hvalid.values]
  case spread =>
    intro d k text next ht
    exact hts.spread hvalid ht

/-- Writing a group moves the cursor by the number of its placeholders, in both dialects. The values
of a group that was compiled answer the placeholders, from the first to the last. -/
theorem Group.placeholders_answered :
    (∀ (g : Fragments) (d : Dialect) (k next : Nat) (text : String),
      g.text d k = .ok (text, next) → next = k + g.placeholderCount) ∧
    ∀ (g : Group) (c : Compiled), g.compile = .ok c → g.Answered c := by
  constructor
  · intro g d k next text h
    exact Fragments.next_of_text h
  · intro g c h
    exact g.answered_of_compile h

def Group.pricedOrFrequent : Group where
  search := ⟨[("\"price$1?\"", .object [.between (.int 1) (.int 5)]), ("deleted", .value .null),
    ("tags", .object [.custom "?|" (.array [.text "a"])])]⟩
  alternatives := some [⟨[("COUNT(*)", .object [.inList [.int 2, .int 3]])]⟩,
    ⟨[("state", .value (.text "new"))]⟩]

theorem Group.placeholders_answered_pricedOrFrequent :
    ∃ c text, pricedOrFrequent.compile = .ok c ∧ c.text .numbered 2 = .ok (text, 7) ∧
      text = "\"price$1?\" BETWEEN $3 AND $4 AND deleted IS NULL AND tags ?| $5" ++
        " AND ((COUNT(*) = ANY($6)) OR (state = $7))" ∧
      c.values.length = 5 ∧ placeholders .numbered text = ["$3", "$4", "$5", "$6", "$7"] := by
  have hwritten : (pricedOrFrequent.compile.toOption.bind fun c =>
      (c.text .numbered 2).toOption) =
      some ("\"price$1?\" BETWEEN $3 AND $4 AND deleted IS NULL AND tags ?| $5" ++
        " AND ((COUNT(*) = ANY($6)) OR (state = $7))", 7) := by
    decide +kernel
  obtain ⟨c, hc, htext⟩ := Option.bind_eq_some_iff.1 hwritten
  have hc := of_toOption hc
  have htext := of_toOption htext
  have hanswered := placeholders_answered.2 _ c hc
  have hcount := placeholders_answered.1 _ _ _ _ _ htext
  have hlength : c.values.length = 5 := by
    rw [hanswered.length]
    omega
  have hplaceholders := hanswered.placeholders _ _ _ _ htext
  rw [hlength] at hplaceholders
  exact ⟨c, _, hc, htext, rfl, hlength, hplaceholders.trans (by decide)⟩

/-- Renumbering the text of a group is writing the group from a later cursor. -/
theorem Fragments.shift_text {g : Fragments} (hv : ∀ f ∈ g.all, f.Valid) {d : Dialect}
    {k next : Nat} {text : String} (h : g.text d k = .ok (text, next))
    (hfits : next < UInt64.size) (m : Nat) :
    g.text d (k + m) = .ok (shift d text m, next + m) := by
  have hnext := g.next_of_text h
  rw [text_eq_checks] at h
  obtain ⟨_, hc, h⟩ := of_map h
  cases h
  have hshift : shift d (write d (g.parts d k)) m = write d (g.parts d (k + m)) := by
    rw [parts_shift]
    apply shift_write (legible_parts hv hc k)
    intro _ _ n hn
    rw [numbers_parts, List.mem_range'_1] at hn
    omega
  rw [text_eq_checks, hc, hshift, Nat.add_right_comm k]
  rfl

/-- A group that was compiled can be written from a later cursor or renumbered after it was written:
its text and the cursor after it are the same. -/
theorem Group.text_renumbered {g : Group} {c : Compiled} {d : Dialect} {k m next : Nat}
    {text : String} (hg : g.compile = .ok c) (h : c.text d k = .ok (text, next))
    (hfits : next + m < UInt64.size) :
    c.text d (k + m) = .ok (shift d text m, next + m) := by
  have hvalid := g.valid_of_compile hg
  have hnext : next < UInt64.size := Nat.lt_of_le_of_lt (Nat.le_add_right next m) hfits
  exact Fragments.shift_text hvalid.fragments h hnext m

/-- Fields that look like placeholders, like quoted texts and like functions of both. -/
def Group.confusing : Group where
  search := ⟨[("price$1", .object [.custom "<>" (.int 1)]),
    ("o.\"it's $2\"\"\"", .object [.between (.int 2) (.int 3)]),
    ("MAX( DISTINCT \"$3\" )", .object [.notInList [.int 4]])]⟩
  alternatives := none

theorem Group.text_renumbered_confusing :
    ∃ c, confusing.compile = .ok c ∧
      c.text .numbered 0 = .ok ("price$1 <> $1 AND o.\"it's $2\"\"\" BETWEEN $2 AND $3" ++
        " AND NOT (MAX( DISTINCT \"$3\" ) = ANY($4))", 4) ∧
      c.text .numbered (0 + 7) = .ok ("price$1 <> $8 AND o.\"it's $2\"\"\" BETWEEN $9 AND $10" ++
        " AND NOT (MAX( DISTINCT \"$3\" ) = ANY($11))", 4 + 7) := by
  have hwritten : (confusing.compile.toOption.bind fun c => (c.text .numbered 0).toOption) =
      some ("price$1 <> $1 AND o.\"it's $2\"\"\" BETWEEN $2 AND $3" ++
        " AND NOT (MAX( DISTINCT \"$3\" ) = ANY($4))", 4) := by
    decide +kernel
  obtain ⟨c, hc, htext⟩ := Option.bind_eq_some_iff.1 hwritten
  have hc := of_toOption hc
  have htext := of_toOption htext
  have hmoved := text_renumbered hc htext (m := 7) (by decide)
  refine ⟨c, hc, htext, hmoved.trans ?_⟩
  decide +kernel

end Quarry
