import Quarry.Proofs.Operator.Words
import Quarry.Proofs.Search.Compiled

namespace Quarry

open Text Placeholder

namespace Fragment

def words (d : Dialect) (c : Nat) (f : Fragment) : List String :=
  Text.words (write d (f.parts d c))

/-- The words of further fragments, each after an `AND`. -/
def furtherWords (d : Dialect) (c : Nat) (fs : List Fragment) : List String :=
  ((partsList d c fs).map (write d)).flatMap fun t => "AND" :: Text.words t

/-- The words of the fragments of a group, or of the tautology that stands for none. -/
def mainWords (d : Dialect) (c : Nat) : List Fragment → List String
  | [] => [tautology]
  | f :: fs => f.words d c ++ furtherWords d (c + f.operator.arity) fs

/-- What may come after the fragments of a group: nothing, or a text in parentheses. -/
inductive Ends : List String → Prop where
  | nothing : Ends []
  | enclosed {w : String} (hw : startsWith '(' w) : Ends ["AND", w]

section

variable {d : Dialect} {f g : Fragment} {fs gs : List Fragment} {r s : List String}

theorem furtherWords_cons (d : Dialect) (c : Nat) (f : Fragment) (fs : List Fragment) :
    furtherWords d c (f :: fs) =
      "AND" :: (f.words d c ++ furtherWords d (c + f.operator.arity) fs) := by
  rw [furtherWords, partsList, List.map_cons, List.flatMap_cons]
  rfl

theorem line_words_of_mem {t : String} (hv : ∀ f ∈ fs, f.Valid) (c : Nat)
    (ht : t ∈ (partsList d c fs).map (write d)) : line (Text.words t) = t := by
  induction fs generalizing c with
  | nil => cases ht
  | cons f fs ih =>
    cases ht with
    | head => exact (spelled (hv f (.head _)) d c).line
    | tail _ ht => exact ih (fun g hg => hv g (.tail _ hg)) _ ht

theorem write_conjunctionParts (hv : ∀ f ∈ fs, f.Valid) (hne : fs ≠ []) (c : Nat) :
    write d (conjunctionParts d c fs) = line (mainWords d c fs) := by
  cases fs with
  | nil => exact absurd rfl hne
  | cons f fs =>
    rw [conjunctionParts, write_intercalate, write_fixedParts, partsList, List.map_cons]
    apply join_eq_line "AND"
    · exact (spelled (hv f (.head _)) d c).line
    · intro t ht
      exact line_words_of_mem (fun g hg => hv g (.tail _ hg)) _ ht

theorem write_mainParts (hv : ∀ f ∈ fs, f.Valid) (c : Nat) :
    write d (Fragments.mainParts d c fs) = line (mainWords d c fs) := by
  rw [Fragments.mainParts]
  split
  · rename_i hfs
    rw [write_fixedParts, hfs]
    rfl
  · rename_i hfs
    exact write_conjunctionParts hv hfs c

theorem solid_furtherWords (hv : ∀ f ∈ fs, f.Valid) (c : Nat) :
    AllSolid (furtherWords d c fs) := by
  induction fs generalizing c with
  | nil => exact .nil
  | cons f fs ih =>
    have hand : Solid "AND".toList := rfl
    have hrest := ih (fun g hg => hv g (.tail _ hg)) (c + f.operator.arity)
    rw [furtherWords_cons]
    exact .cons hand ((spelled (hv f (.head _)) d c).solid.append hrest)

theorem solid_mainWords (hv : ∀ f ∈ fs, f.Valid) (c : Nat) : AllSolid (mainWords d c fs) := by
  cases fs with
  | nil => exact .cons rfl .nil
  | cons f fs =>
    have hrest := solid_furtherWords (d := d) (fun g hg => hv g (.tail _ hg)) (c + f.operator.arity)
    exact (spelled (hv f (.head _)) d c).solid.append hrest

theorem mainWords_ne_nil (d : Dialect) (c : Nat) (fs : List Fragment) : mainWords d c fs ≠ [] := by
  cases fs with
  | nil => exact nofun
  | cons f fs => simp [mainWords, words, words_ne_nil]

theorem words_append_injective (hv : f.Valid) (hw : g.Valid) {c c' : Nat}
    (h : f.words d c ++ r = g.words d c' ++ s) : f.canonical = g.canonical ∧ r = s := by
  have hf := (spelled hv d c).read r
  have hg := (spelled hw d c').read s
  rw [← words, h, words, hg] at hf
  obtain ⟨hcanonical, hrest⟩ := Prod.mk.inj (Option.some.inj hf)
  exact ⟨hcanonical.symm, hrest.symm⟩

/-- Fragments begin with a name, a keyword or a function. -/
theorem exists_first (hv : f.Valid) (c : Nat) :
    ∃ w ws, f.words d c = w :: ws ∧ w.toList.head?.any Name.isFirst := by
  have hfirst := (spelled hv d c).first
  rw [words]
  cases hwords : Text.words (write d (f.parts d c)) with
  | nil => exact absurd hwords (words_ne_nil _)
  | cons w ws =>
    rw [hwords] at hfirst
    exact ⟨w, ws, rfl, hfirst⟩

theorem startsWith_eq_false {w : String} {x : Char} (hw : w.toList.head?.any Name.isFirst)
    (hx : Name.isFirst x = false) : startsWith x w = false := by
  apply Bool.eq_false_iff.2
  intro h
  rw [startsWith, decide_eq_true_eq] at h
  rw [h] at hw
  simp [hx] at hw

theorem Ends.ne_furtherWords (h : Ends r) (hv : f.Valid) (c : Nat) (ws : List String) :
    r ≠ furtherWords d c (f :: fs) ++ ws := by
  obtain ⟨w, vs, hwords, hfirst⟩ := exists_first (d := d) hv c
  rw [furtherWords_cons, hwords]
  cases h with
  | nothing => exact nofun
  | enclosed hw =>
    intro h
    have hne := startsWith_eq_false hfirst (x := '(') (by decide)
    simp only [List.cons_append, List.cons.injEq, true_and] at h
    rw [← h.1, hw] at hne
    cases hne

theorem furtherWords_injective (hv : ∀ f ∈ fs, f.Valid) (hw : ∀ g ∈ gs, g.Valid) (hr : Ends r)
    (hs : Ends s) {c c' : Nat} (h : furtherWords d c fs ++ r = furtherWords d c' gs ++ s) :
    fs.map canonical = gs.map canonical ∧ r = s := by
  induction fs generalizing c c' gs with
  | nil =>
    cases gs with
    | nil => exact ⟨rfl, h⟩
    | cons g gs => exact absurd h (hr.ne_furtherWords (hw g (.head _)) c' s)
  | cons f fs ih =>
    cases gs with
    | nil => exact absurd h.symm (hs.ne_furtherWords (hv f (.head _)) c r)
    | cons g gs =>
      rw [furtherWords_cons, furtherWords_cons] at h
      simp only [List.cons_append, List.append_assoc, List.cons.injEq, true_and] at h
      obtain ⟨hfirst, hrest⟩ := words_append_injective (hv f (.head _)) (hw g (.head _)) h
      obtain ⟨hcanonical, hends⟩ :=
        ih (fun f hf => hv f (.tail _ hf)) (fun g hg => hw g (.tail _ hg)) hrest
      exact ⟨by rw [List.map_cons, List.map_cons, hfirst, hcanonical], hends⟩

theorem tautology_ne_mainWords (hv : f.Valid) (c : Nat) :
    tautology :: r ≠ mainWords d c (f :: fs) ++ s := by
  obtain ⟨w, ws, hwords, hfirst⟩ := exists_first (d := d) hv c
  have hne := startsWith_eq_false hfirst (x := '1') (by decide)
  intro h
  rw [mainWords, hwords] at h
  simp only [List.cons_append, List.cons.injEq] at h
  rw [← h.1] at hne
  exact absurd hne (by decide)

theorem mainWords_injective (hv : ∀ f ∈ fs, f.Valid) (hw : ∀ g ∈ gs, g.Valid) (hr : Ends r)
    (hs : Ends s) {c c' : Nat} (h : mainWords d c fs ++ r = mainWords d c' gs ++ s) :
    fs.map canonical = gs.map canonical ∧ r = s := by
  cases fs with
  | nil =>
    cases gs with
    | nil => exact ⟨rfl, (List.cons.inj h).2⟩
    | cons g gs => exact absurd h (tautology_ne_mainWords (hw g (.head _)) c')
  | cons f fs =>
    cases gs with
    | nil => exact absurd h.symm (tautology_ne_mainWords (hv f (.head _)) c)
    | cons g gs =>
      rw [mainWords, mainWords, List.append_assoc, List.append_assoc] at h
      obtain ⟨hfirst, hrest⟩ := words_append_injective (hv f (.head _)) (hw g (.head _)) h
      obtain ⟨hcanonical, hends⟩ := furtherWords_injective
        (fun f hf => hv f (.tail _ hf)) (fun g hg => hw g (.tail _ hg)) hr hs hrest
      exact ⟨by rw [List.map_cons, List.map_cons, hfirst, hcanonical], hends⟩

theorem conjunctionParts_injective (hv : ∀ f ∈ fs, f.Valid) (hw : ∀ g ∈ gs, g.Valid)
    (hfs : fs ≠ []) (hgs : gs ≠ []) {c c' : Nat}
    (h : write d (conjunctionParts d c fs) = write d (conjunctionParts d c' gs)) :
    fs.map canonical = gs.map canonical := by
  rw [write_conjunctionParts hv hfs, write_conjunctionParts hw hgs] at h
  have hwords := line_injective (mainWords_ne_nil d c fs) (mainWords_ne_nil d c' gs)
    (solid_mainWords hv c) (solid_mainWords hw c') h
  have hnothing : mainWords d c fs ++ [] = mainWords d c' gs ++ [] := congrArg (· ++ []) hwords
  exact (mainWords_injective hv hw .nothing .nothing hnothing).1

/-- Fragments that an alternative can be made of. -/
structure Filled (fs : List Fragment) : Prop where
  nonempty : fs ≠ []
  valid : ∀ f ∈ fs, f.Valid

theorem alternativesParts_injective {fss gss : List (List Fragment)} (hv : ∀ fs ∈ fss, Filled fs)
    (hw : ∀ gs ∈ gss, Filled gs) {c c' : Nat}
    (h : (alternativesParts d c fss).map (write d) = (alternativesParts d c' gss).map (write d)) :
    fss.map (List.map canonical) = gss.map (List.map canonical) := by
  induction fss generalizing c c' gss with
  | nil =>
    cases gss with
    | nil => rfl
    | cons gs gss => cases h
  | cons fs fss ih =>
    cases gss with
    | nil => cases h
    | cons gs gss =>
      rw [alternativesParts, alternativesParts, List.map_cons, List.map_cons, List.cons.injEq] at h
      obtain ⟨hfirst, hrest⟩ := h
      simp only [write_append, write_fixedParts] at hfirst
      have hfs := hv fs (.head _)
      have hgs := hw gs (.head _)
      have hcanonical := conjunctionParts_injective hfs.valid hgs.valid hfs.nonempty hgs.nonempty
        (enclosed_injective hfirst)
      have htail := ih (fun fs h => hv fs (.tail _ h)) (fun gs h => hw gs (.tail _ h)) hrest
      rw [List.map_cons, List.map_cons, hcanonical, htail]

/-- The text of an alternative is a single word. -/
theorem solid_alternativesParts {fss : List (List Fragment)} (hv : ∀ fs ∈ fss, Filled fs)
    (c : Nat) : AllSolid ((alternativesParts d c fss).map (write d)) := by
  induction fss generalizing c with
  | nil => exact .nil
  | cons fs fss ih =>
    have hfs := hv fs (.head _)
    have hline := balanced_line (solid_mainWords (d := d) hfs.valid c)
    rw [alternativesParts, List.map_cons, write_append, write_append, write_fixedParts,
      write_fixedParts, write_conjunctionParts hfs.valid hfs.nonempty]
    exact .cons (solid_enclosed hline) (ih (fun gs hg => hv gs (.tail _ hg)) _)

end

end Fragment

namespace Fragments

open Fragment

/-- Groups whose alternatives are not empty. -/
structure Filled (g : Fragments) : Prop where
  valid : ∀ f ∈ g.all, f.Valid
  nonempty : [] ∉ g.alternatives

section

variable {d : Dialect} {g h : Fragments}

theorem Filled.main (hg : g.Filled) : ∀ f ∈ g.main, f.Valid :=
  fun f hf => hg.valid f (List.mem_append_left _ hf)

theorem Filled.alternatives (hg : g.Filled) : ∀ fs ∈ g.alternatives, Fragment.Filled fs := by
  intro fs hfs
  constructor
  · rintro rfl
    exact hg.nonempty hfs
  · intro f hf
    exact hg.valid f (List.mem_append_right _ (List.mem_flatten.2 ⟨fs, hfs, hf⟩))

/-- The text of the alternatives of a group. -/
def alternativesText (d : Dialect) (c : Nat) (fss : List (List Fragment)) : String :=
  join " OR " ((alternativesParts d c fss).map (write d))

/-- The words after the main fragments of a group. -/
def endWords (d : Dialect) (c : Nat) (fss : List (List Fragment)) : List String :=
  if fss = [] then [] else ["AND", "(" ++ alternativesText d c fss ++ ")"]

theorem ends_endWords (d : Dialect) (c : Nat) (fss : List (List Fragment)) :
    Ends (endWords d c fss) := by
  rw [endWords]
  split
  · exact .nothing
  · exact .enclosed (by simp [startsWith])

theorem write_parts_eq_line (hg : g.Filled) (c : Nat) :
    write d (g.parts d c) =
      line (mainWords d c g.main ++ endWords d (c + paramCount g.main) g.alternatives) := by
  rw [endWords]
  split
  · rename_i halts
    rw [parts, if_pos halts, List.append_nil, Fragment.write_mainParts hg.main]
  · rename_i halts
    rw [write_parts halts, line_append (mainWords_ne_nil d c _) (List.cons_ne_nil _ _),
      Fragment.write_mainParts hg.main, ← alternativesText, ← String.toList_inj]
    simp [line, join]

theorem or_eq : " OR " = " " ++ "OR" ++ " " := rfl

theorem balanced_alternativesText {fss : List (List Fragment)} (hv : ∀ fs ∈ fss, Fragment.Filled fs)
    (c : Nat) : Balanced 1 (alternativesText d c fss).toList := by
  have hsolid := solid_alternativesParts (d := d) hv c
  rw [alternativesText, or_eq]
  cases hts : (alternativesParts d c fss).map (write d) with
  | nil => exact .nil
  | cons t ts =>
    have hor : Solid "OR".toList := rfl
    rw [hts] at hsolid
    rw [join_eq_line_of_solid "OR" t hsolid]
    exact balanced_line (.cons hsolid.head (hsolid.tail.flatMap_pair hor))

theorem solid_endWords (hg : g.Filled) (c : Nat) : AllSolid (endWords d c g.alternatives) := by
  rw [endWords]
  split
  · exact .nil
  · have hand : Solid "AND".toList := rfl
    exact .cons hand (.cons (solid_enclosed (balanced_alternativesText hg.alternatives c)) .nil)

theorem alternativesText_injective {fss gss : List (List Fragment)}
    (hv : ∀ fs ∈ fss, Fragment.Filled fs) (hw : ∀ gs ∈ gss, Fragment.Filled gs) (hf : fss ≠ [])
    (hg : gss ≠ []) {c c' : Nat} (heq : alternativesText d c fss = alternativesText d c' gss) :
    fss.map (List.map canonical) = gss.map (List.map canonical) := by
  have hfs := solid_alternativesParts (d := d) hv c
  have hgs := solid_alternativesParts (d := d) hw c'
  cases fss with
  | nil => exact absurd rfl hf
  | cons fs fss =>
    cases gss with
    | nil => exact absurd rfl hg
    | cons gs gss =>
      have hor : Solid "OR".toList := rfl
      exact alternativesParts_injective hv hw (join_injective hor hfs hgs heq)

theorem endWords_injective (hg : g.Filled) (hh : h.Filled) {c c' : Nat}
    (heq : endWords d c g.alternatives = endWords d c' h.alternatives) :
    g.alternatives.map (List.map canonical) = h.alternatives.map (List.map canonical) := by
  rw [endWords, endWords] at heq
  split at heq
  · rename_i hnone
    split at heq
    · rename_i hnone'
      rw [hnone, hnone']
    · cases heq
  · rename_i hsome
    split at heq
    · cases heq
    · rename_i hsome'
      simp only [List.cons.injEq, true_and, and_true] at heq
      exact alternativesText_injective hg.alternatives hh.alternatives hsome hsome'
        (enclosed_injective heq)

/-- The text of a group determines its fragments, up to the signs of operators in the table. -/
theorem parts_injective (hg : g.Filled) (hh : h.Filled) {c c' : Nat}
    (heq : write d (g.parts d c) = write d (h.parts d c')) :
    g.main.map canonical = h.main.map canonical ∧
      g.alternatives.map (List.map canonical) = h.alternatives.map (List.map canonical) := by
  have hne (c : Nat) (fs : List Fragment) (ws : List String) : mainWords d c fs ++ ws ≠ [] :=
    List.append_ne_nil_of_left_ne_nil (mainWords_ne_nil d c fs) ws
  rw [write_parts_eq_line hg, write_parts_eq_line hh] at heq
  have hwords := line_injective (hne _ _ _) (hne _ _ _)
    ((solid_mainWords hg.main c).append (solid_endWords hg _))
    ((solid_mainWords hh.main c').append (solid_endWords hh _)) heq
  obtain ⟨hmain, hends⟩ := mainWords_injective hg.main hh.main (ends_endWords ..)
    (ends_endWords ..) hwords
  exact ⟨hmain, endWords_injective hg hh hends⟩

end

end Fragments

namespace Group

theorem ne_nil_of_compileAlternatives {ss : List Search} {index : Nat} {tss : List (List Term)}
    (h : compileAlternatives index ss = .ok tss) : [] ∉ tss := by
  induction ss generalizing index tss with
  | nil =>
    cases h
    exact List.not_mem_nil
  | cons s ss ih =>
    rw [compileAlternatives] at h
    obtain ⟨ts, -, h⟩ := of_bind h
    split at h
    · cases h
    · rename_i hne
      obtain ⟨rest, hrest, h⟩ := of_bind h
      cases h
      rintro (_ | ⟨_, hmem⟩)
      · exact hne rfl
      · exact ih hrest hmem

theorem filled_of_compile {g : Group} {c : Compiled} (h : g.compile = .ok c) : c.Filled := by
  refine ⟨(g.valid_of_compile h).fragments, ?_⟩
  obtain ⟨main, -, h⟩ := of_bind h
  split at h
  · cases h
    exact List.not_mem_nil
  · split at h
    · cases h
    · obtain ⟨tss, htss, h⟩ := of_bind h
      cases h
      intro hmem
      obtain ⟨ts, hts, hnil⟩ := List.mem_map.1 hmem
      cases List.map_eq_nil_iff.1 hnil
      exact ne_nil_of_compileAlternatives htss hts

/-- Two groups with the same text filter by the same conditions, in the same places: no field and
no sign makes one of them read as the other. -/
theorem fragments_of_text {g g' : Group} {c c' : Compiled} {d : Dialect} {k k' next next' : Nat}
    {text : String} (h : g.compile = .ok c) (h' : g'.compile = .ok c')
    (ht : c.text d k = .ok (text, next)) (ht' : c'.text d k' = .ok (text, next')) :
    c.main.map Fragment.canonical = c'.main.map Fragment.canonical ∧
      c.alternatives.map (List.map Fragment.canonical) =
        c'.alternatives.map (List.map Fragment.canonical) := by
  rw [Fragments.text_eq_checks] at ht ht'
  obtain ⟨_, _, ht⟩ := of_map ht
  obtain ⟨_, _, ht'⟩ := of_map ht'
  have htext := (Prod.mk.inj ht).1.trans (Prod.mk.inj ht').1.symm
  exact Fragments.parts_injective (g.filled_of_compile h) (g'.filled_of_compile h') htext

def builtIn : Group where
  search := ⟨[("a", .value (.int 1))]⟩
  alternatives := some [⟨[("tags", .object [.compare .contains (.text "x") rfl])]⟩,
    ⟨[("b", .value .null)]⟩]

def spelledOut : Group where
  search := ⟨[("a", .object [.custom "=" (.int 1)])]⟩
  alternatives := some [⟨[("tags", .object [.custom "@>" (.text "x")])]⟩,
    ⟨[("b", .object [.isNull])]⟩]

theorem fragments_of_text_builtIn :
    ∃ c c', builtIn.compile = .ok c ∧ spelledOut.compile = .ok c' ∧
      c.text .numbered 0 = .ok ("a = $1 AND ((tags @> $2) OR (b IS NULL))", 2) ∧
      c'.text .numbered 0 = .ok ("a = $1 AND ((tags @> $2) OR (b IS NULL))", 2) ∧
      c.main.map Fragment.canonical = c'.main.map Fragment.canonical ∧
      c.alternatives.map (List.map Fragment.canonical) =
        c'.alternatives.map (List.map Fragment.canonical) := by
  have hbuilt : (builtIn.compile.toOption.bind fun c => (c.text .numbered 0).toOption) =
      some ("a = $1 AND ((tags @> $2) OR (b IS NULL))", 2) := by
    decide +kernel
  have hspelled : (spelledOut.compile.toOption.bind fun c => (c.text .numbered 0).toOption) =
      some ("a = $1 AND ((tags @> $2) OR (b IS NULL))", 2) := by
    decide +kernel
  obtain ⟨c, hc, ht⟩ := Option.bind_eq_some_iff.1 hbuilt
  obtain ⟨c', hc', ht'⟩ := Option.bind_eq_some_iff.1 hspelled
  have hsame := fragments_of_text (of_toOption hc) (of_toOption hc') (of_toOption ht)
    (of_toOption ht')
  exact ⟨c, c', of_toOption hc, of_toOption hc', of_toOption ht, of_toOption ht', hsame⟩

end Group

end Quarry
