import Mathlib.Data.List.Nodup
import Quarry.Proofs.Clause.Parts
import Quarry.Proofs.Search.Document

namespace Quarry

namespace Search

/-- A search without alternatives. -/
def group (s : Search) : Group :=
  ⟨s, none⟩

/-- The entries of searches one after another, as one search. -/
def concat (ss : List Search) : Search :=
  empty.insertAll (ss.flatMap entries)

/-- The search can be compiled, and written in a dialect. -/
def Renders (d : Dialect) (s : Search) : Prop :=
  ∃ c r, s.group.compile = .ok c ∧ c.text d 0 = .ok r

/-- What a search that can be written in a dialect is compiled to. -/
structure Makes (d : Dialect) (s : Search) (ts : List Term) : Prop where
  compile : s.compile = .ok ts
  checks : Fragment.checks d (ts.map Term.fragment) = .ok ()

section

variable {d : Dialect} {s : Search} {ss : List Search} {ts : List Term} {tss : List (List Term)}

theorem group_compile (h : s.compile = .ok ts) : s.group.compile = .ok (.ofTerms ts []) := by
  rw [Group.compile, group, h]
  rfl

theorem renders_iff : s.Renders d ↔
    (s.group.compile.toOption.bind fun c => (c.text d 0).toOption).isSome := by
  rw [Option.isSome_iff_exists]
  constructor
  · intro h
    obtain ⟨c, r, hcompile, htext⟩ := h
    exact ⟨r, by rw [hcompile, Except.toOption, Option.bind_some, htext, Except.toOption]⟩
  · intro h
    obtain ⟨r, h⟩ := h
    obtain ⟨c, hcompile, htext⟩ := Option.bind_eq_some_iff.1 h
    exact ⟨c, r, of_toOption hcompile, of_toOption htext⟩

instance : Decidable (s.Renders d) :=
  decidable_of_iff _ renders_iff.symm

theorem Renders.makes (h : s.Renders d) : ∃ ts, s.Makes d ts := by
  obtain ⟨c, r, hcompile, htext⟩ := h
  rw [Group.compile, group] at hcompile
  obtain ⟨ts, hts, hcompile⟩ := of_bind hcompile
  cases hcompile
  rw [Fragments.text_eq_checks] at htext
  obtain ⟨_, hchecks, _⟩ := of_map htext
  have hall : (Compiled.ofTerms ts []).all = ts.map Term.fragment := List.append_nil _
  rw [hall] at hchecks
  exact ⟨ts, hts, hchecks⟩

theorem entries_concat (h : (ss.flatMap keys).Nodup) :
    (concat ss).entries = ss.flatMap entries := by
  have hkeys : (empty.entries ++ ss.flatMap entries).map Prod.fst = ss.flatMap keys :=
    List.map_flatMap
  rw [concat, entries_insertAll (hkeys ▸ h)]
  rfl

theorem compile_flatMap (h : List.Forall₂ (Makes d) ss tss) :
    (⟨ss.flatMap entries⟩ : Search).compile = .ok tss.flatten := by
  induction h with
  | nil => rfl
  | @cons s ts ss tss hs _ ih =>
    have hcompile := hs.compile
    rw [compile] at ih hcompile ⊢
    obtain ⟨xs, hxs, hts⟩ := of_bind hcompile
    obtain ⟨ys, hys, htss⟩ := of_bind ih
    cases hts
    have hrest : tss.flatten = ys.flatten := (Except.ok.inj htss).symm
    rw [List.flatMap_cons, List.mapM_append, hxs, hys, List.flatten_cons, hrest,
      ← List.flatten_append]
    rfl

theorem checks_flatten (h : List.Forall₂ (Makes d) ss tss) :
    Fragment.checks d (tss.flatten.map Term.fragment) = .ok () := by
  induction h with
  | nil => rfl
  | cons hs _ ih =>
    rw [List.flatten_cons, List.map_append, Fragment.checks_append, hs.checks]
    exact ih

theorem exists_makes (h : ∀ s ∈ ss, s.Renders d) : ∃ tss, List.Forall₂ (Makes d) ss tss := by
  induction ss with
  | nil => exact ⟨[], .nil⟩
  | cons s ss ih =>
    obtain ⟨ts, hts⟩ := (h s (.head _)).makes
    obtain ⟨tss, htss⟩ := ih fun s hs => h s (.tail _ hs)
    exact ⟨ts :: tss, .cons hts htss⟩

/-- Searches with keys of their own make together what they make one after another. -/
theorem concat_makes (hkeys : (ss.flatMap keys).Nodup) (h : List.Forall₂ (Makes d) ss tss) :
    (concat ss).Makes d tss.flatten := by
  have hconcat : concat ss = ⟨ss.flatMap entries⟩ := by
    rw [← entries_concat hkeys]
  rw [hconcat]
  exact ⟨compile_flatMap h, checks_flatten h⟩

end

end Search

end Quarry
