import Quarry.Proofs.Name.Outer

namespace Quarry.Name

open Text Placeholder

/-- Parentheses in pairs, none inside another: no more are closed than were opened, and at most one
is open at a time. -/
structure Paired (ms : List (Option Char)) : Prop where
  within : ∀ pre, pre <+: ms → pre.count (some ')') ≤ pre.count (some '(') ∧
    pre.count (some '(') ≤ pre.count (some ')') + 1
  whole : ms.count (some '(') = ms.count (some ')')

/-- A text that stays apart from what stands around it: its quoted parts are closed, parentheses
are paired, and outside its quotes are no other quotes, separators and placeholders. -/
structure Contained (text : String) : Prop where
  closed : Closed text.toList
  paired : Paired (mask text)
  chars : ∀ c, some c ∈ mask text → isQuote c = false ∧ c ≠ ';' ∧ c ≠ ','
  placeholders : placeholders .numbered text = []

section

variable {cs : List Char} {ms : List (Option Char)}

theorem count_prefix_eq_zero {m : Option Char} {pre : List (Option Char)} (h : pre <+: ms)
    (hm : m ∉ ms) : pre.count m = 0 :=
  List.count_eq_zero.2 fun hmem => hm (h.subset hmem)

theorem paired_of_not_mem (hopen : some '(' ∉ ms) (hclose : some ')' ∉ ms) : Paired ms := by
  constructor
  · intro pre hpre
    rw [count_prefix_eq_zero hpre hopen, count_prefix_eq_zero hpre hclose]
    exact ⟨Nat.le_refl 0, Nat.zero_le _⟩
  · rw [List.count_eq_zero.2 hopen, List.count_eq_zero.2 hclose]

/-- One parenthesis that is opened, and closed at the end. -/
theorem paired_concat (hopen : ms.count (some '(') = 1) (hclose : some ')' ∉ ms) :
    Paired (ms ++ [some ')']) := by
  have hzero : ms.count (some ')') = 0 := List.count_eq_zero.2 hclose
  have hwhole : (ms ++ [some ')']).count (some '(') = (ms ++ [some ')']).count (some ')') := by
    simp [List.count_append, hopen, hzero]
  constructor
  · intro pre hpre
    rcases List.prefix_concat_iff.1 hpre with rfl | hpre
    · rw [hwhole]
      exact ⟨Nat.le_refl _, Nat.le_succ _⟩
    · have hle := hpre.sublist.count_le (some '(')
      rw [hopen] at hle
      rw [count_prefix_eq_zero hpre hclose]
      exact ⟨Nat.zero_le _, hle⟩
  · exact hwhole

theorem not_mem_of_inner (h : Shows isInner cs) :
    some '(' ∉ maskFrom false cs ∧ some ')' ∉ maskFrom false cs :=
  ⟨fun hmem => absurd (h.chars _ hmem) (by decide), fun hmem => absurd (h.chars _ hmem) (by decide)⟩

theorem Field.paired (h : Field cs) : Paired (maskFrom false cs) := by
  cases h with
  | path h =>
    obtain ⟨hopen, hclose⟩ := not_mem_of_inner h.inner
    exact paired_of_not_mem hopen hclose
  | @call func before arg after hfunc hbefore harg hafter =>
    have hinside : Shows isInner (before ++ (arg ++ after)) :=
      (inner_of_blanks hbefore).append (harg.inner.append (inner_of_blanks hafter))
    have hmask : maskFrom false (func ++ '(' :: (before ++ (arg ++ (after ++ [')'])))) =
        (maskFrom false func ++ some '(' :: maskFrom false (before ++ (arg ++ after))) ++
          [some ')'] := by
      have hrest := hinside.closed [')']
      simp only [List.append_assoc] at hrest
      rw [hfunc.inner.closed]
      simp [maskFrom, hrest]
    obtain ⟨hopen, hclose⟩ := not_mem_of_inner hfunc.inner
    obtain ⟨hopen', hclose'⟩ := not_mem_of_inner hinside
    rw [hmask]
    apply paired_concat
    · simp [List.count_eq_zero.2 hopen, List.count_eq_zero.2 hopen']
    · simp [hclose, hclose']

theorem chars_of_isOuter {c : Char} (h : isOuter c) : isQuote c = false ∧ c ≠ ';' ∧ c ≠ ',' := by
  have hsingle : c ≠ '\'' := ne_of_class h (by decide)
  have hdouble : c ≠ '"' := ne_of_class h (by decide)
  have hquote : isQuote c = false := by simp [isQuote, hsingle, hdouble]
  exact ⟨hquote, ne_of_class h (by decide), ne_of_class h (by decide)⟩

theorem Field.contained {name : String} (h : Field name.toList) : Contained name where
  closed := h.outer.closed
  paired := h.paired
  chars c hc := chars_of_isOuter (h.outer.chars c hc)
  placeholders := placeholders_of_inert h.inert

/-- A field that is accepted is an identifier or a function of one argument, and either form is
contained in the text that the field becomes part of. -/
theorem accepted_contained {name : String} (h : checkField name = .ok ()) :
    AcceptedField name.toList ∧ Contained name := by
  have haccepted := accepted_of_checkField h
  exact ⟨haccepted, haccepted.spelled.contained⟩

/-- A function whose argument has everything inside its quotes that must not stand outside them. -/
def tricky : String :=
  "count( Distinct \t o.\"a;b,((c)'$1\"\"\" )"

theorem accepted_contained_tricky : checkField tricky = .ok () ∧ Contained tricky := by
  have haccepted : (checkField tricky).toOption = some () := by decide +kernel
  have hchecked := of_toOption haccepted
  obtain ⟨-, hcontained⟩ := accepted_contained hchecked
  exact ⟨hchecked, hcontained⟩

end

end Quarry.Name
