import Mathlib.Data.List.Chain
import Quarry.Proofs.Clause.Shows
import Quarry.Search.Document

namespace Quarry

open Text Placeholder

/-- Two characters that open a comment when they stand side by side. -/
def OpensComment (a b : Option Char) : Prop :=
  (a = some '-' ∧ b = some '-') ∨ (a = some '/' ∧ b = some '*')

/-- A text in which no comment is opened outside quoted names. -/
def Live (text : String) : Prop :=
  (mask text).IsChain fun a b => ¬OpensComment a b

instance (a b : Option Char) : Decidable (OpensComment a b) :=
  inferInstanceAs (Decidable (_ ∨ _))

instance (text : String) : Decidable (Live text) :=
  inferInstanceAs (Decidable (List.IsChain _ _))

/-- A text that opens no comment with anything that stands next to it. -/
structure Quiet (sep : String) : Prop where
  nonempty : sep.toList ≠ []
  chars : sep.toList.all (isNone ['-', '/', '*', '"'])

instance (sep : String) : Decidable (Quiet sep) :=
  decidable_of_iff (sep.toList ≠ [] ∧ sep.toList.all (isNone ['-', '/', '*', '"']))
    ⟨fun h => ⟨h.1, h.2⟩, fun h => ⟨h.nonempty, h.chars⟩⟩

section

variable {s t sep : String} {ts : List String}

/-- An element that may stand next to any other one splits a chain. -/
theorem isChain_around {α : Type} {R : α → α → Prop} {xs zs : List α} {y : α}
    (hy : ∀ x, R x y ∧ R y x) : (xs ++ y :: zs).IsChain R ↔ xs.IsChain R ∧ zs.IsChain R := by
  rw [List.isChain_append, List.isChain_cons]
  constructor
  · rintro ⟨hxs, ⟨-, hzs⟩, -⟩
    exact ⟨hxs, hzs⟩
  · rintro ⟨hxs, hzs⟩
    refine ⟨hxs, ⟨fun z _ => (hy z).2, hzs⟩, fun x _ z hz => ?_⟩
    cases hz
    exact (hy x).1

theorem isChain_between {α : Type} {R : α → α → Prop} {xs ys zs : List α} (hne : ys ≠ [])
    (hys : ∀ y ∈ ys, ∀ x, R x y ∧ R y x) :
    (xs ++ ys ++ zs).IsChain R ↔ xs.IsChain R ∧ zs.IsChain R := by
  induction ys generalizing xs with
  | nil => exact absurd rfl hne
  | cons y ys ih =>
    have hy := hys y (.head _)
    rw [List.append_assoc, List.cons_append, isChain_around hy]
    cases ys with
    | nil => rfl
    | cons y' ys =>
      have hrest := @ih [] nofun fun z hz => hys z (.tail _ hz)
      rw [List.nil_append] at hrest
      rw [hrest, and_iff_right List.IsChain.nil]

theorem Quiet.mask_eq (h : Quiet sep) : Closed sep.toList ∧ mask sep = sep.toList.map some := by
  apply maskFrom_of_forall
  intro hmem
  exact absurd (List.all_eq_true.1 h.chars _ hmem) (by decide)

theorem Quiet.opensComment (h : Quiet sep) {y : Option Char} (hy : y ∈ mask sep) (x : Option Char) :
    ¬OpensComment x y ∧ ¬OpensComment y x := by
  rw [h.mask_eq.2] at hy
  obtain ⟨c, hc, rfl⟩ := List.mem_map.1 hy
  have hquiet := List.all_eq_true.1 h.chars c hc
  obtain ⟨hdash, hslash, hstar, -⟩ : c ≠ '-' ∧ c ≠ '/' ∧ c ≠ '*' ∧ c ≠ '"' := by
    simpa [isNone] using hquiet
  constructor
  · rintro (⟨-, h⟩ | ⟨-, h⟩)
    · exact hdash (Option.some.inj h)
    · exact hstar (Option.some.inj h)
  · rintro (⟨h, -⟩ | ⟨h, -⟩)
    · exact hdash (Option.some.inj h)
    · exact hslash (Option.some.inj h)

/-- A quiet text keeps apart what stands before it and what stands after it. -/
theorem Quiet.live_between (h : Quiet sep) (hs : Closed s.toList) :
    Live (s ++ sep ++ t) ↔ Live s ∧ Live t := by
  have hclosed : Closed (s ++ sep).toList := by
    rw [String.toList_append]
    exact hs.append h.mask_eq.1
  have hne : mask sep ≠ [] := by
    rw [h.mask_eq.2]
    simpa using h.nonempty
  rw [Live, mask_append hclosed, mask_append hs]
  apply isChain_between hne
  intro y hy x
  exact h.opensComment hy x

theorem Quiet.live_before (h : Quiet sep) : Live (sep ++ t) ↔ Live t := by
  have hbetween := h.live_between (t := t) (s := "") .nil
  rwa [String.empty_append, and_iff_right .nil] at hbetween

theorem Quiet.live_after (h : Quiet sep) (hs : Closed s.toList) : Live (s ++ sep) ↔ Live s := by
  have hbetween := h.live_between hs (t := "")
  rwa [String.append_empty, and_iff_left .nil] at hbetween

theorem Quiet.live_join (h : Quiet sep) (hts : ∀ t ∈ ts, Closed t.toList) :
    Live (join sep ts) ↔ ∀ t ∈ ts, Live t := by
  induction ts with
  | nil => simp [join, Live, mask, maskFrom]
  | cons t ts ih =>
    cases ts with
    | nil => simp [join]
    | cons u ts =>
      have ih := ih fun v hv => hts v (.tail _ hv)
      rw [join, h.live_between (hts t (.head _)), ih]
      simp

end

theorem isChain_of_forall {α : Type} {R : α → α → Prop} {xs : List α} (h : ∀ x ∈ xs, ∀ y, R x y) :
    xs.IsChain R := by
  induction xs with
  | nil => exact .nil
  | cons x xs ih =>
    rw [List.isChain_cons]
    exact ⟨fun y _ => h x (.head _) y, ih fun y hy => h y (.tail _ hy)⟩

def isCalm : Char → Bool :=
  isNone ['-', '/', '"']

theorem palette_isCalm : Palette isCalm :=
  palette_isNone (by decide) (by decide) (by decide) (by decide)

theorem live_of_shows {text : String} (h : Shows isCalm text.toList) : Live text := by
  apply isChain_of_forall
  rintro x hx y (⟨rfl, -⟩ | ⟨rfl, -⟩)
  · exact absurd (h.chars _ hx) (by decide)
  · exact absurd (h.chars _ hx) (by decide)

namespace Fragment

/-- A fragment whose sign, if it has one of its own, opens no comment. -/
def Clear (f : Fragment) : Prop :=
  ∀ s, f.operator = .custom → f.sign = some s → Live s

theorem shows_template_isCalm (op : Operator) (d : Dialect) :
    (op.template d).all (Operator.Blank.shows isCalm) := by
  cases op <;> cases d <;> decide

section

variable {d : Dialect} {f : Fragment}

theorem clear_iff {s : String} (hop : f.operator = .custom) (hs : f.sign = some s) :
    f.Clear ↔ Live s := by
  constructor
  · intro h
    exact h s hop hs
  · intro h s' _ hs'
    cases hs.symm.trans hs'
    exact h

/-- The sign of a custom operator has a blank on either side, and nothing else opens a comment. -/
theorem live_iff_clear (hv : f.Valid) (c : Nat) : Live (write d (f.parts d c)) ↔ f.Clear := by
  by_cases hop : f.operator = .custom
  · obtain ⟨s, hs, hcheck⟩ := hv.sign hop
    have hkey : Shows isCalm f.key.toList :=
      (Name.spelled_of_checkField hv.key).outer.mono palette_isCalm.outer
    have hquote : '"' ∉ s.toList := by
      intro hmem
      exact absurd ((Operator.of_checkSign hcheck).2 _ hmem) (by decide)
    have hsign : Closed s.toList := (maskFrom_of_forall hquote).1
    have hplaceholder := live_of_shows (palette_isCalm.shows_placeholder d (c + 1))
    have hblank : Quiet " " := by decide
    rw [parts, Operator.write_parts, hop, hs, clear_iff hop hs]
    simp only [Operator.template, Operator.fill, Operator.signText]
    rw [String.append_empty, ← String.append_assoc, hblank.live_between hkey.closed,
      ← String.append_assoc, hblank.live_between hsign]
    simp [live_of_shows hkey, hplaceholder]
  · have hcustom (h : f.operator = .custom) : Shows isCalm (f.operator.signText f.sign).toList :=
      absurd h hop
    have hshows := shows palette_isCalm hv hcustom (shows_template_isCalm f.operator d) c
    exact iff_of_true (live_of_shows hshows) fun _ h => absurd h hop

theorem live_conjunctionParts {fs : List Fragment} (hv : ∀ f ∈ fs, f.Valid) (c : Nat) :
    Live (write d (conjunctionParts d c fs)) ↔ ∀ f ∈ fs, f.Clear := by
  have hsep : Quiet " AND " := by decide
  have hfragments : (∀ ps ∈ partsList d c fs, Live (write d ps)) ↔ ∀ f ∈ fs, f.Clear :=
    forall_partsList (fun f hf c => live_iff_clear (hv f hf) c) c
  have hclosed : (∀ ps ∈ partsList d c fs, Closed (write d ps).toList) ↔ ∀ f ∈ fs, True :=
    forall_partsList (P := fun ps => Closed (write d ps).toList)
      (fun f hf c => iff_true_intro (shows_isUnquoted (hv f hf) c).closed) c
  rw [conjunctionParts, write_intercalate, write_fixedParts, hsep.live_join]
  · rw [List.forall_mem_map, hfragments]
  · rw [List.forall_mem_map, hclosed]
    exact fun _ _ => trivial

theorem live_alternativesParts {fss : List (List Fragment)} (hv : ∀ fs ∈ fss, ∀ f ∈ fs, f.Valid)
    (c : Nat) :
    (∀ ps ∈ alternativesParts d c fss, Live (write d ps)) ↔ ∀ fs ∈ fss, ∀ f ∈ fs, f.Clear := by
  induction fss generalizing c with
  | nil => simp [alternativesParts]
  | cons fs fss ih =>
    have hopen : Quiet "(" := by decide
    have hclose : Quiet ")" := by decide
    have hfs := hv fs (.head _)
    have hinner := shows_conjunctionParts palette_isUnquoted (d := d) (allShow_isUnquoted hfs) c
    have hopened : Closed ("(" ++ write d (conjunctionParts d c fs)).toList := by
      rw [String.toList_append]
      exact hopen.mask_eq.1.append hinner.closed
    rw [alternativesParts, List.forall_mem_cons, List.forall_mem_cons,
      ih fun gs hg => hv gs (.tail _ hg), write_append, write_append, write_fixedParts,
      write_fixedParts, hclose.live_after hopened, hopen.live_before, live_conjunctionParts hfs]

end

end Fragment

namespace Fragments

open Fragment

section

variable {d : Dialect}

theorem live_mainParts {fs : List Fragment} (hv : ∀ f ∈ fs, f.Valid) (c : Nat) :
    Live (write d (mainParts d c fs)) ↔ ∀ f ∈ fs, f.Clear := by
  rw [mainParts]
  split
  · rename_i hfs
    rw [write_fixedParts, hfs]
    have htautology : Live tautology := by decide
    simpa using htautology
  · exact live_conjunctionParts hv c

theorem live_parts {g : Fragments} (hv : ∀ f ∈ g.all, f.Valid) (c : Nat) :
    Live (write d (g.parts d c)) ↔ ∀ f ∈ g.all, f.Clear := by
  have hvmain : ∀ f ∈ g.main, f.Valid := fun f hf => hv f (List.mem_append_left _ hf)
  have hvalternatives : ∀ fs ∈ g.alternatives, ∀ f ∈ fs, f.Valid := by
    intro fs hfs f hf
    exact hv f (List.mem_append_right _ (List.mem_flatten.2 ⟨fs, hfs, hf⟩))
  rw [all, List.forall_mem_append, List.forall_mem_flatten, ← live_mainParts (d := d) hvmain c]
  by_cases halts : g.alternatives = []
  · rw [parts, if_pos halts, halts]
    simp
  · have hopen : Quiet " AND (" := by decide
    have hclose : Quiet ")" := by decide
    have hor : Quiet " OR " := by decide
    have hshown := allShow_isUnquoted (d := d) hv
    have hmain := shows_mainParts palette_isUnquoted (allShow_isUnquoted (d := d) hvmain) c
    have halternatives := allShow_alternatives hshown
    have hjoined := shows_alternatives palette_isUnquoted halternatives (c + paramCount g.main)
    have hopened := shows_append hmain (palette_isUnquoted.shows (t := " AND (") (by decide))
    rw [write_parts halts, hclose.live_after (shows_append hopened hjoined).closed,
      hopen.live_between hmain.closed, hor.live_join, List.forall_mem_map,
      live_alternativesParts hvalternatives]
    intro t ht
    obtain ⟨ps, hps, rfl⟩ := List.mem_map.1 ht
    exact (shows_alternativesParts palette_isUnquoted halternatives _ ps hps).closed

end

end Fragments

namespace Group

/-- The text of a group is live exactly when the signs of its custom operators are. A sign is
checked one character at a time, so it may be one that opens a comment. -/
theorem live_text_iff {g : Group} {c : Compiled} {d : Dialect} {k next : Nat} {text : String}
    (h : g.compile = .ok c) (ht : c.text d k = .ok (text, next)) :
    Live text ↔ ∀ f ∈ c.all, ∀ s, f.operator = .custom → f.sign = some s → Live s := by
  rw [Fragments.text_eq_checks] at ht
  obtain ⟨_, _, ht⟩ := of_map ht
  cases ht
  exact Fragments.live_parts (g.valid_of_compile h).fragments k

def nearby : Group :=
  ⟨⟨[("place", .object [.custom "<->" (.text "here")]), ("\"--\"", .value (.int 1))]⟩, none⟩

theorem live_text_iff_nearby :
    ∃ c, nearby.compile = .ok c ∧
      c.text .numbered 0 = .ok ("place <-> $1 AND \"--\" = $2", 2) ∧
      Live "place <-> $1 AND \"--\" = $2" := by
  have hcompiled : nearby.compile.toOption.map Compiled.toFragments =
      some ⟨[⟨"place", .custom, some "<->"⟩, ⟨"\"--\"", .eq, none⟩], []⟩ := by
    decide +kernel
  obtain ⟨c, hc, hfragments⟩ := Option.map_eq_some_iff.1 hcompiled
  have hc := of_toOption hc
  have htext : c.text .numbered 0 = .ok ("place <-> $1 AND \"--\" = $2", 2) := by
    rw [hfragments]
    rfl
  have hall : c.all = [⟨"place", .custom, some "<->"⟩, ⟨"\"--\"", .eq, none⟩] := by
    rw [hfragments]
    rfl
  have hsign : Live "<->" := by decide
  have hlive := live_text_iff hc htext
  simp only [hall, List.forall_mem_cons] at hlive
  exact ⟨c, hc, htext, hlive.2 (by simp [hsign])⟩

def dashes : Json :=
  .obj [("note", .obj [("$custom", .arr [.str "--", .int 1])])]

/-- A document whose text comments out its own placeholder, and what is written after it. -/
theorem exists_not_live :
    ∃ s c, Search.ofJson dashes = .ok s ∧ (Group.mk s none).compile = .ok c ∧
      c.text .numbered 0 = .ok ("note -- $1", 1) ∧ ¬Live "note -- $1" := by
  have hcompiled : (Search.ofJson dashes).toOption.bind
      (fun s => (Group.mk s none).compile.toOption.map Compiled.toFragments) =
      some ⟨[⟨"note", .custom, some "--"⟩], []⟩ := by
    decide +kernel
  obtain ⟨s, hs, hcompiled⟩ := Option.bind_eq_some_iff.1 hcompiled
  obtain ⟨c, hc, hfragments⟩ := Option.map_eq_some_iff.1 hcompiled
  refine ⟨s, c, of_toOption hs, of_toOption hc, ?_, by decide⟩
  rw [hfragments]
  rfl

end Group

end Quarry
