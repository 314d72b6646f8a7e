import Quarry.Proofs.Clause.Parts
import Quarry.Proofs.Name.Outer
import Quarry.Proofs.Search.Compiled

namespace Quarry

open Text Placeholder

/-- Characters among which are those that names and placeholders show. -/
structure Palette (p : Char → Bool) : Prop where
  quote : p '"' = false
  outer : ∀ c, Name.isOuter c → p c
  mark : p '?'
  tautology : tautology.toList.all p

theorem Palette.shows {p : Char → Bool} {t : String} (hp : Palette p)
    (h : t.toList.all Name.isOuter) : Shows p t.toList :=
  (Name.outer_of_all h).mono hp.outer

/-- The characters other than those given. -/
def isNone (cs : List Char) (c : Char) : Bool :=
  !cs.contains c

theorem palette_isNone {cs : List Char} (hquote : '"' ∈ cs) (hmark : '?' ∉ cs)
    (houter : cs.all fun c => !Name.isOuter c) (ht : tautology.toList.all (isNone cs)) :
    Palette (isNone cs) where
  quote := by simpa [isNone] using hquote
  outer := by
    intro c hc
    have hmem : c ∉ cs := by
      intro hmem
      have hnot := List.all_eq_true.1 houter c hmem
      simp [hc] at hnot
    simpa [isNone] using hmem
  mark := by simpa [isNone] using hmark
  tautology := ht

theorem Palette.shows_placeholder {p : Char → Bool} (hp : Palette p) (d : Dialect) (n : Nat) :
    Shows p (d.placeholder n).toList := by
  apply shows_of_all hp.quote
  apply List.all_eq_true.2
  intro c hc
  rcases Dialect.isWord_of_mem_placeholder hc with hc | rfl
  · exact hp.outer c (by simp [Name.isOuter, hc])
  · exact hp.mark

namespace Operator

def Blank.shows (p : Char → Bool) : Blank → Bool
  | .words s => s.toList.all p
  | _ => true

theorem shows_fill {p : Char → Bool} {d : Dialect} {key sign : String} {bs : List Blank}
    (hp : Palette p) (hk : Shows p key.toList) (hs : .sign ∈ bs → Shows p sign.toList)
    (hb : bs.all (Blank.shows p)) (c : Nat) : Shows p (fill d key sign c bs).toList := by
  induction bs generalizing c with
  | nil => exact .nil
  | cons b bs ih =>
    rw [List.all_cons, Bool.and_eq_true] at hb
    have hrest (c : Nat) := ih (fun h => hs (.tail _ h)) hb.2 c
    cases b with
    | key => exact shows_append hk (hrest c)
    | sign => exact shows_append (hs (.head _)) (hrest c)
    | words s => exact shows_append (shows_of_all hp.quote hb.1) (hrest c)
    | param => exact shows_append (hp.shows_placeholder d (c + 1)) (hrest (c + 1))

end Operator

namespace Fragment

section

variable {p : Char → Bool} {d : Dialect} {f : Fragment}

theorem shows (hp : Palette p) (hv : f.Valid)
    (hs : f.operator = .custom → Shows p (f.operator.signText f.sign).toList)
    (ht : (f.operator.template d).all (Operator.Blank.shows p)) (c : Nat) :
    Shows p (write d (f.parts d c)).toList := by
  rw [parts, Operator.write_parts]
  have hkey : Shows p f.key.toList := (Name.spelled_of_checkField hv.key).outer.mono hp.outer
  exact Operator.shows_fill hp hkey (fun h => hs (sign_template h)) ht c

theorem isSign_of_valid (hv : f.Valid) (hop : f.operator = .custom) :
    Operator.IsSign (f.operator.signText f.sign) := by
  obtain ⟨s, hs, hsign⟩ := hv.sign hop
  rw [hop, hs]
  exact (Operator.of_checkSign hsign).2

/-- Quotes stand only inside quoted names. -/
def isUnquoted : Char → Bool :=
  isNone ['\'', '"']

theorem palette_isUnquoted : Palette isUnquoted :=
  palette_isNone (by decide) (by decide) (by decide) (by decide)

theorem shows_template_isUnquoted (op : Operator) (d : Dialect) :
    (op.template d).all (Operator.Blank.shows isUnquoted) := by
  cases op <;> cases d <;> decide

theorem shows_isUnquoted (hv : f.Valid) (c : Nat) :
    Shows isUnquoted (write d (f.parts d c)).toList := by
  apply shows palette_isUnquoted hv _ (shows_template_isUnquoted ..)
  intro hop
  apply shows_of_all palette_isUnquoted.quote
  apply List.all_eq_true.2
  intro x hx
  have hsigns : Invalid.signChars.toList.all isUnquoted := by decide
  exact List.all_eq_true.1 hsigns x (isSign_of_valid hv hop x hx)

/-- What holds of a fragment at any cursor holds of the fragments of a list at theirs. -/
theorem forall_partsList {P : List Part → Prop} {Q : Fragment → Prop} {fs : List Fragment}
    (h : ∀ f ∈ fs, ∀ c, P (f.parts d c) ↔ Q f) (c : Nat) :
    (∀ ps ∈ partsList d c fs, P ps) ↔ ∀ f ∈ fs, Q f := by
  induction fs generalizing c with
  | nil => simp [partsList]
  | cons f fs ih =>
    have hrest := ih (fun g hg => h g (.tail _ hg)) (c + f.operator.arity)
    rw [partsList, List.forall_mem_cons, List.forall_mem_cons, h f (.head _), hrest]

/-- Each of the fragments shows only such characters, wherever its placeholders start. -/
def AllShow (p : Char → Bool) (d : Dialect) (fs : List Fragment) : Prop :=
  ∀ f ∈ fs, ∀ c, Shows p (write d (f.parts d c)).toList

theorem allShow_isUnquoted {fs : List Fragment} (hv : ∀ f ∈ fs, f.Valid) :
    AllShow isUnquoted d fs := by
  intro f hf c
  exact shows_isUnquoted (hv f hf) c

theorem shows_conjunctionParts {fs : List Fragment} (hp : Palette p) (hf : AllShow p d fs)
    (c : Nat) : Shows p (write d (conjunctionParts d c fs)).toList := by
  rw [conjunctionParts, write_intercalate, write_fixedParts]
  refine shows_join (hp.shows (by decide)) fun t ht => ?_
  obtain ⟨ps, hps, rfl⟩ := List.mem_map.1 ht
  have htrue (f : Fragment) (h : f ∈ fs) (c : Nat) :
      Shows p (write d (f.parts d c)).toList ↔ True :=
    iff_true_intro (hf f h c)
  exact (forall_partsList (P := fun ps => Shows p (write d ps).toList) htrue c).2
    (fun _ _ => trivial) ps hps

theorem shows_alternativesParts {fss : List (List Fragment)} (hp : Palette p)
    (hf : ∀ fs ∈ fss, AllShow p d fs) (c : Nat) :
    ∀ ps ∈ alternativesParts d c fss, Shows p (write d ps).toList := by
  induction fss generalizing c with
  | nil => exact nofun
  | cons fs fss ih =>
    intro ps hps
    cases hps with
    | head =>
      rw [write_append, write_append, write_fixedParts, write_fixedParts]
      have hinner := shows_conjunctionParts hp (hf fs (.head _)) c
      exact shows_append (shows_append (hp.shows (by decide)) hinner) (hp.shows (by decide))
    | tail _ hps => exact ih (fun gs hg => hf gs (.tail _ hg)) _ ps hps

theorem shows_alternatives {fss : List (List Fragment)} (hp : Palette p)
    (hf : ∀ fs ∈ fss, AllShow p d fs) (c : Nat) :
    Shows p (join " OR " ((alternativesParts d c fss).map (write d))).toList := by
  apply shows_join (hp.shows (by decide))
  intro t ht
  obtain ⟨ps, hps, rfl⟩ := List.mem_map.1 ht
  exact shows_alternativesParts hp hf c ps hps

end

end Fragment

namespace Fragments

open Fragment

section

variable {p : Char → Bool} {d : Dialect}

theorem shows_mainParts {fs : List Fragment} (hp : Palette p) (hf : AllShow p d fs) (c : Nat) :
    Shows p (write d (mainParts d c fs)).toList := by
  rw [mainParts]
  split
  · rw [write_fixedParts]
    exact shows_of_all hp.quote hp.tautology
  · exact shows_conjunctionParts hp hf c

theorem allShow_alternatives {g : Fragments} (hf : AllShow p d g.all) :
    ∀ fs ∈ g.alternatives, AllShow p d fs := by
  intro fs hfs f h
  exact hf f (List.mem_append_right _ (List.mem_flatten.2 ⟨fs, hfs, h⟩))

theorem shows_parts {g : Fragments} (hp : Palette p) (hf : AllShow p d g.all) (c : Nat) :
    Shows p (write d (g.parts d c)).toList := by
  have hmain := shows_mainParts hp (fun f h => hf f (List.mem_append_left _ h)) c
  by_cases halts : g.alternatives = []
  · rw [parts, if_pos halts]
    exact hmain
  · have hopen : Shows p " AND (".toList := hp.shows (by decide)
    have hclose : Shows p ")".toList := hp.shows (by decide)
    have hrest := shows_alternatives hp (allShow_alternatives hf) (c + paramCount g.main)
    rw [write_parts halts]
    exact shows_append (shows_append (shows_append hmain hopen) hrest) hclose

end

end Fragments

end Quarry
