import Quarry.Proofs.Checked
import Quarry.Proofs.Clause.Parts
import Quarry.Proofs.Search.Condition

namespace Quarry

structure Term.Valid (t : Term) : Prop where
  fragment : t.fragment.Valid
  values : t.values.length = t.fragment.operator.arity

/-- Only the sign of a custom operator has to be checked. -/
theorem Fragment.Valid.of_ne {key : String} {op : Operator} {sign : Option String}
    (hk : Name.checkField key = .ok ()) (hop : op ≠ .custom) : Valid ⟨key, op, sign⟩ :=
  ⟨hk, fun h => absurd h hop⟩

theorem Term.Valid.nullCheck {key : String} {op : Operator} (hk : Name.checkField key = .ok ())
    (hop : op.arity = 0) : Valid ⟨⟨key, op, none⟩, []⟩ := by
  refine ⟨.of_ne hk ?_, hop.symm⟩
  rintro rfl
  cases hop

/-- A condition that compiles is sound, and its term is the one term that it can have. -/
theorem Condition.of_compile {key : String} {c : Condition} {t : Term} (h : c.compile key = .ok t) :
    c.Sound ∧ t = c.term key := by
  have hreports := c.reports_compile key
  exact ⟨faults_eq_nil.1 (hreports.exists_ok_iff.1 ⟨t, h⟩), hreports.of_ok h⟩

theorem Condition.Sound.fragment {key : String} {c : Condition} (h : c.Sound)
    (hk : Name.checkField key = .ok ()) :
    Fragment.Valid ⟨key, c.operator, if c.operator = .custom then c.sign else none⟩ := by
  refine ⟨hk, fun hop => ?_⟩
  obtain ⟨-, s, hs, hsign⟩ := h.custom hop
  obtain ⟨_, hcheck⟩ := (Operator.reports_checkSign key s).exists_ok_iff.2
    (faultIf_eq_nil.2 (not_not_intro hsign))
  exact ⟨s, (if_pos hop).trans hs, hcheck⟩

theorem Condition.valid_of_compile {key : String} {c : Condition} {t : Term}
    (hk : Name.checkField key = .ok ()) (h : c.compile key = .ok t) : t.Valid := by
  obtain ⟨hsound, rfl⟩ := of_compile h
  rw [term]
  split
  · exact .nullCheck hk (by split <;> rfl)
  · exact ⟨hsound.fragment hk, c.operands.length_toList.trans c.count_operands⟩

/-- The operands that are bound: a null one becomes part of the operator. -/
def Condition.bound (c : Condition) : List Value :=
  c.operands.toList.filter fun v => !v.isNull

theorem Condition.Sound.bound {c : Condition} (h : c.Sound) :
    c.bound = if c.operands.isNull then [] else c.operands.toList := by
  obtain ⟨op, sign, operands, hcount⟩ := c
  have hbounds : operands.hasNullBound = false := h.bounds
  cases operands with
  | none => rfl
  | one v => cases hv : v.isNull <;> simp [Condition.bound, Operands.isNull, Operands.toList, hv]
  | two v w =>
    obtain ⟨hv, hw⟩ := Bool.or_eq_false_iff.1 hbounds
    simp [Condition.bound, Operands.isNull, Operands.toList, hv, hw]

theorem Condition.bound_of_compile {key : String} {c : Condition} {t : Term}
    (h : c.compile key = .ok t) : t.fragment.key = key ∧ t.values = c.bound := by
  obtain ⟨hsound, rfl⟩ := of_compile h
  rw [hsound.bound, term]
  split <;> exact ⟨rfl, rfl⟩

/-- The conditions of a filter: a plain value is compared for equality. -/
def Filter.conditions : Filter → List Condition
  | value v => [.compare .eq v rfl]
  | object cs => cs
  | objects css => css.flatten

/-- The conditions of a search, each with its field. -/
def Search.conditions (s : Search) : List (String × Condition) :=
  s.entries.flatMap fun e => e.2.conditions.map fun c => (e.1, c)

def Group.conditions (g : Group) : List (String × Condition) :=
  g.search.conditions ++ (g.alternatives.getD []).flatMap Search.conditions

def Condition.compileField (e : String × Condition) : Except Invalid Term := do
  naming (Name.checkField e.1)
  e.2.compile e.1

theorem Filter.mapM_compileObject {key : String} {cs : List Condition} {ts : List Term}
    (h : compileObject key cs = .ok ts) : cs.mapM (·.compile key) = .ok ts := by
  rw [compileObject] at h
  split at h
  · cases h
  · exact h

theorem Filter.mapM_conditions {key : String} {f : Filter} {ts : List Term}
    (h : f.compile key = .ok ts) : f.conditions.mapM (·.compile key) = .ok ts := by
  unfold compile at h
  split at h
  · exact h
  · rename_i v hv
    cases h
    cases v <;> first | rfl | exact absurd rfl hv
  · exact mapM_compileObject h
  · split at h
    · cases h
    · obtain ⟨tss, htss, h⟩ := of_bind h
      cases h
      have hflat := mapM_flatMap (h := id) (fun _ _ => mapM_compileObject) htss
      rwa [List.flatMap_id] at hflat

theorem Search.mapM_conditions {s : Search} {ts : List Term} (h : s.compile = .ok ts) :
    s.conditions.mapM Condition.compileField = .ok ts := by
  obtain ⟨tss, htss, h⟩ := of_bind h
  cases h
  refine mapM_flatMap (fun e us he => ?_) htss
  obtain ⟨_, hname, he⟩ := of_bind he
  have hfield : (Condition.compileField ∘ fun c => (e.1, c)) = fun c => c.compile e.1 := by
    funext c
    rw [Function.comp_apply, Condition.compileField, hname]
    rfl
  rw [List.mapM_map, hfield]
  exact Filter.mapM_conditions he

theorem Group.mapM_compileAlternatives {ss : List Search} {index : Nat} {tss : List (List Term)}
    (h : compileAlternatives index ss = .ok tss) : ss.mapM Search.compile = .ok tss := by
  induction ss generalizing index tss with
  | nil => exact h
  | cons s ss ih =>
    rw [compileAlternatives] at h
    obtain ⟨ts, hts, h⟩ := of_bind h
    split at h
    · cases h
    · obtain ⟨rest, hrest, h⟩ := of_bind h
      cases h
      rw [List.mapM_cons, hts, ih hrest]
      rfl

/-- The terms that a group was compiled to, one for each condition. -/
structure Group.Made (g : Group) (c : Compiled) (ts : List Term) : Prop where
  terms : g.conditions.mapM Condition.compileField = .ok ts
  fragments : c.all = ts.map Term.fragment
  values : c.values = ts.flatMap Term.values

theorem Group.made_of_compile {g : Group} {c : Compiled} (h : g.compile = .ok c) :
    ∃ ts, g.Made c ts := by
  obtain ⟨main, hmain, h⟩ := of_bind h
  have hmain := g.search.mapM_conditions hmain
  split at h
  · rename_i halts
    cases h
    refine ⟨main, ?_, ?_, ?_⟩
    · simpa [conditions, halts] using hmain
    · simp [Compiled.ofTerms, Fragments.all]
    · simp [Compiled.ofTerms]
  · rename_i list halts
    split at h
    · cases h
    · obtain ⟨tss, htss, h⟩ := of_bind h
      cases h
      have halternatives :=
        mapM_flatMap (fun s _ => s.mapM_conditions) (mapM_compileAlternatives htss)
      refine ⟨main ++ tss.flatten, ?_, ?_, rfl⟩
      · simp [conditions, halts, List.mapM_append, hmain, halternatives, bind, Except.bind, pure,
          Except.pure]
      · simp [Compiled.ofTerms, Fragments.all]

theorem Group.Made.valid {g : Group} {c : Compiled} {ts : List Term} (h : g.Made c ts) :
    ∀ t ∈ ts, t.Valid := by
  intro t ht
  obtain ⟨e, -, he⟩ := exists_of_mapM h.terms ht
  obtain ⟨_, hname, he⟩ := of_bind he
  exact e.2.valid_of_compile (of_naming hname) he

theorem Group.Made.bound {g : Group} {c : Compiled} {ts : List Term} (h : g.Made c ts) :
    ts.map (fun t => (t.fragment.key, t.values)) = g.conditions.map fun e => (e.1, e.2.bound) := by
  apply map_of_mapM _ h.terms
  intro e t ht
  obtain ⟨_, _, ht⟩ := of_bind ht
  obtain ⟨hkey, hvalues⟩ := e.2.bound_of_compile ht
  rw [hkey, hvalues]

theorem Term.length_values {ts : List Term} (h : ∀ t ∈ ts, t.Valid) :
    (ts.flatMap Term.values).length = Fragment.paramCount (ts.map Term.fragment) := by
  induction ts with
  | nil => rfl
  | cons t ts ih =>
    rw [List.flatMap_cons, List.length_append, ih fun u hu => h u (.tail _ hu), List.map_cons,
      Fragment.paramCount, (h t (.head _)).values]

/-- Every fragment is checked, and there are as many values as placeholders. -/
structure Compiled.Valid (c : Compiled) : Prop where
  fragments : ∀ f ∈ c.all, f.Valid
  values : c.values.length = c.placeholderCount

theorem Group.valid_of_compile {g : Group} {c : Compiled} (h : g.compile = .ok c) : c.Valid := by
  obtain ⟨ts, hts⟩ := g.made_of_compile h
  refine ⟨fun f hf => ?_, ?_⟩
  · rw [hts.fragments] at hf
    obtain ⟨t, ht, rfl⟩ := List.mem_map.1 hf
    exact (hts.valid t ht).fragment
  · rw [Fragments.placeholderCount, hts.fragments, hts.values]
    exact Term.length_values hts.valid

end Quarry
