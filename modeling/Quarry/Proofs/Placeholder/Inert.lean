import Quarry.Proofs.Placeholder.Part

namespace Quarry

namespace Placeholder

/-- A character that is neither a quote nor part of a placeholder. -/
def isInert (d : Dialect) (c : Char) : Bool :=
  !isQuote c && c ≠ '$' && !(Piece.plain c).isPlaceholder d

/-- Reading takes a text from one mode to another without a placeholder. -/
def Passes (d : Dialect) (m : Mode) (cs : List Char) (n : Mode) : Prop :=
  ∃ ps, chars ps = cs ∧ m.run ps = some n ∧ ∀ p ∈ ps, p.isPlaceholder d = false

def Mode.isBetween : Mode → Bool
  | free | word => true
  | _ => false

/-- A text without placeholders and open quotes, which anything but a number may stand before. -/
def Inert (d : Dialect) (cs : List Char) : Prop :=
  ∀ m : Mode, m.isBetween → ∃ n : Mode, n.isBetween ∧ Passes d m cs n

section Inert

variable {d : Dialect} {m k n : Mode} {cs ds : List Char} {c : Char}

theorem Mode.quote_of_isBetween (h : m.isBetween) : m.quote = none := by
  cases m <;> first | rfl | cases h

theorem Mode.isBetween_ofChar (c : Char) : (ofChar c).isBetween := by
  rw [ofChar]
  split <;> rfl

theorem Passes.nil : Passes d m [] m :=
  ⟨[], rfl, rfl, nofun⟩

theorem Passes.append (hc : Passes d m cs k) (hd : Passes d k ds n) : Passes d m (cs ++ ds) n := by
  obtain ⟨ps, rfl, hps, hp⟩ := hc
  obtain ⟨qs, rfl, hqs, hq⟩ := hd
  refine ⟨ps ++ qs, chars_append ps qs, Mode.run_append hps hqs, fun p h => ?_⟩
  exact (List.mem_append.1 h).elim (hp p) (hq p)

theorem Passes.step {p : Piece} (h : m.step p = some n) (hp : p.isPlaceholder d = false) :
    Passes d m p.chars n := by
  refine ⟨[p], by simp [chars], by simp [Mode.run, h], fun q hq => ?_⟩
  cases List.mem_singleton.1 hq
  exact hp

theorem Passes.plain (hm : m.isBetween) (hc : isInert d c) : Passes d m [c] (.ofChar c) := by
  simp only [isInert, Bool.and_eq_true, Bool.not_eq_true', decide_eq_true_eq] at hc
  obtain ⟨⟨hquote, hdollar⟩, hplaceholder⟩ := hc
  refine Passes.step (p := .plain c) ?_ hplaceholder
  cases m <;> simp_all [Mode.step, Mode.isBetween]

theorem isQuote_of_isWord (h : isWord c) : isQuote c = false := by
  refine Bool.eq_false_iff.2 fun hc => ?_
  simp only [isQuote, Bool.or_eq_true, decide_eq_true_eq] at hc
  rcases hc with rfl | rfl <;> exact absurd h (by decide)

theorem isPlaceholder_of_isWord (h : isWord c) : (Piece.plain c).isPlaceholder d = false := by
  cases d with
  | numbered => rfl
  | unnumbered =>
    refine decide_eq_false ?_
    rintro rfl
    exact absurd h (by decide)

/-- A word goes on with all its characters, dollar signs included. -/
theorem Passes.word (h : cs.all isWord) : Passes d .word cs .word := by
  induction cs with
  | nil => exact .nil
  | cons c cs ih =>
    simp only [List.all_cons, Bool.and_eq_true] at h
    have hfirst : Passes d .word [c] .word := by
      refine .step (p := .plain c) ?_ (isPlaceholder_of_isWord h.1)
      simp [Mode.step, isQuote_of_isWord h.1, Mode.ofChar, h.1]
    exact hfirst.append (ih h.2)

theorem isPlaceholder_quoted (d : Dialect) (c : Char) :
    (Piece.quoted c).isPlaceholder d = false := by
  cases d <;> rfl

theorem Passes.inQuotes (q c : Char) :
    Passes d (.quoted q) [c] (if c = q then .free else .quoted q) :=
  .step (p := .quoted c) rfl (isPlaceholder_quoted d c)

theorem Passes.openQuote (hm : m.isBetween) (hc : isQuote c) : Passes d m [c] (.quoted c) := by
  refine .step (p := .quoted c) ?_ (isPlaceholder_quoted d c)
  cases m <;> simp_all [Mode.step, Mode.isBetween]

theorem Inert.nil : Inert d [] :=
  fun m hm => ⟨m, hm, .nil⟩

theorem Inert.append (hc : Inert d cs) (hd : Inert d ds) : Inert d (cs ++ ds) := by
  intro m hm
  obtain ⟨k, hk, hc⟩ := hc m hm
  obtain ⟨n, hn, hd⟩ := hd k hk
  exact ⟨n, hn, hc.append hd⟩

theorem inert_of_all (h : cs.all (isInert d)) : Inert d cs := by
  induction cs with
  | nil => exact .nil
  | cons c cs ih =>
    simp only [List.all_cons, Bool.and_eq_true] at h
    have hfirst : Inert d [c] := fun m hm => ⟨.ofChar c, Mode.isBetween_ofChar c, .plain hm h.1⟩
    exact hfirst.append (ih h.2)

theorem pieces_of_passes {text : String} (h : Passes d .free text.toList n) :
    Mode.free.run (pieces text) = some n ∧ ∀ p ∈ pieces text, p.isPlaceholder d = false := by
  obtain ⟨ps, hps, hrun, hp⟩ := h
  have hpieces : pieces text = ps := by
    rw [← pieces_of_run hrun, hps, String.ofList_toList]
  exact ⟨hpieces ▸ hrun, hpieces ▸ hp⟩

theorem legible_fixedParts {text : String} (h : Inert d text.toList) :
    Legible d (fixedParts text) := by
  obtain ⟨n, hn, h⟩ := h .free rfl
  obtain ⟨hrun, hp⟩ := pieces_of_passes h
  refine ⟨⟨n, ?_, Mode.quote_of_isBetween hn⟩, fun p hmem => ?_⟩
  · simpa [fixedParts, Function.comp_def, Part.piece] using hrun
  · simp only [fixedParts, List.mem_map, Part.fixed.injEq, exists_eq_right] at hmem
    exact hp p hmem

theorem placeholders_of_inert {text : String} (h : Inert d text.toList) :
    placeholders d text = [] := by
  have hwrite := placeholders_write (legible_fixedParts h)
  rwa [write_fixedParts, numbers_fixedParts, List.map_nil] at hwrite

/-- A text that does not begin with a character of a word. -/
def startsApart (text : String) : Bool :=
  text.toList.head?.any fun c => !isWord c

/-- A text that does not end with a character of a word. -/
def endsApart (text : String) : Bool :=
  text.toList.getLast?.any fun c => !isWord c

theorem Mode.step_of_not_isWord {p : Piece} (hm : m.quote = none)
    (hp : ∀ c, p = .plain c → isWord c = false) (hn : ∀ ds, p ≠ .param ds) :
    m.step p = Mode.free.step p := by
  cases p with
  | quoted c => cases m <;> first | rfl | cases hm
  | plain c =>
    have hc := hp c rfl
    have hdollar : c ≠ '$' := by
      rintro rfl
      exact absurd hc (by decide)
    have hdigit : c.isDigit = false := by
      simp only [isWord, Char.isAlphanum, Bool.or_eq_false_iff] at hc
      exact hc.1.1.2
    cases m with
    | quoted q => cases hm
    | _ => simp [step, hdollar, hdigit]
  | param ds => exact absurd rfl (hn ds)

theorem opens_fixedParts {text : String} (h : startsApart text) : Opens d (fixedParts text) := by
  obtain ⟨c, hc, hword⟩ := (Option.any_eq_true _ _).1 h
  obtain ⟨cs, hcs⟩ := List.head?_eq_some_iff.1 hc
  have hchars := chars_pieces text
  have hmap : (fixedParts text).map (Part.piece d) = pieces text := by
    simp [fixedParts, Function.comp_def, Part.piece]
  intro m hm
  rw [hmap]
  cases hp : pieces text with
  | nil => simp [hp, hcs, chars] at hchars
  | cons p ps =>
    rw [hp, chars_cons, hcs] at hchars
    simp only [Mode.run, List.foldlM_cons]
    rw [Mode.step_of_not_isWord hm]
    · rintro x rfl
      cases hchars
      simpa using hword
    · rintro ds rfl
      cases hchars
      exact absurd hword (by decide)

theorem closes_fixedParts {text : String} (h : text.toList.all (isInert d)) (he : endsApart text) :
    Closes d (fixedParts text) := by
  obtain ⟨c, hc, hword⟩ := (Option.any_eq_true _ _).1 he
  obtain ⟨cs, hcs⟩ := List.getLast?_eq_some_iff.1 hc
  rw [hcs, List.all_append, Bool.and_eq_true] at h
  obtain ⟨n, hn, hinit⟩ := inert_of_all h.1 .free rfl
  have hlast : Passes d n [c] (.ofChar c) := .plain hn (by simpa using h.2)
  have hfree : Mode.ofChar c = .free := if_neg (by simpa using hword)
  rw [hfree] at hlast
  obtain ⟨hrun, -⟩ := pieces_of_passes (hcs ▸ hinit.append hlast)
  simpa [Closes, fixedParts, Function.comp_def, Part.piece] using hrun

/-- A text that is told apart from whatever stands next to it. -/
structure Apart (d : Dialect) (text : String) : Prop where
  inert : text.toList.all (isInert d)
  starts : startsApart text
  ends : endsApart text

instance (d : Dialect) (text : String) : Decidable (Apart d text) :=
  decidable_of_iff (text.toList.all (isInert d) ∧ startsApart text ∧ endsApart text)
    ⟨fun h => ⟨h.1, h.2.1, h.2.2⟩, fun h => ⟨h.inert, h.starts, h.ends⟩⟩

theorem Apart.legible {text : String} (h : Apart d text) : Legible d (fixedParts text) :=
  legible_fixedParts (inert_of_all h.inert)

theorem Apart.opens {text : String} (h : Apart d text) : Opens d (fixedParts text) :=
  opens_fixedParts h.starts

theorem Apart.closes {text : String} (h : Apart d text) : Closes d (fixedParts text) :=
  closes_fixedParts h.inert h.ends

theorem Apart.between {text : String} {ps qs : List Part} (h : Apart d text) (hp : Legible d ps)
    (hq : Legible d qs) : Legible d (ps ++ fixedParts text ++ qs) :=
  (hp.append_of_opens h.legible h.opens).append_of_closes hq (hp.closes_append h.closes h.opens)

theorem Apart.after {text : String} {ps : List Part} (h : Apart d text) (hp : Legible d ps) :
    Legible d (ps ++ fixedParts text) :=
  hp.append_of_opens h.legible h.opens

theorem legible_after {text : String} {ps : List Part} (h : text.toList.all (isInert d))
    (he : endsApart text) (hp : Legible d ps) : Legible d (fixedParts text ++ ps) :=
  (legible_fixedParts (inert_of_all h)).append_of_closes hp (closes_fixedParts h he)

theorem Apart.before {text : String} {ps : List Part} (h : Apart d text) (hp : Legible d ps) :
    Legible d (fixedParts text ++ ps) :=
  legible_after h.inert h.ends hp

theorem Apart.intercalate {text : String} {pss : List (List Part)} (h : Apart d text)
    (hp : ∀ ps ∈ pss, Legible d ps) : Legible d ((fixedParts text).intercalate pss) :=
  legible_intercalate h.legible h.opens h.closes hp

end Inert

end Placeholder

end Quarry
