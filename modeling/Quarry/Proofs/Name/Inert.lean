import Quarry.Proofs.Name.Grammar
import Quarry.Proofs.Placeholder.Inert

namespace Quarry

open Text Placeholder

namespace Name

section

variable {d : Dialect} {name : String} {cs : List Char}

/-- A character of a class is none of those that are not. -/
theorem ne_of_class {p : Char → Bool} {c x : Char} (hc : p c) (hx : p x = false) : c ≠ x := by
  rintro rfl
  exact absurd hc (Bool.eq_false_iff.1 hx)

theorem isBody_eq_isWord (c : Char) : isBody c = isWord c := by
  simp only [isBody, isWord]
  cases c.isAlphanum <;> cases decide (c = '_') <;> cases decide (c = '$') <;> rfl

theorem isWord_of_isStart {c : Char} (h : isStart c) : isWord c := by
  simp only [isStart, isWord, Char.isAlphanum, Bool.or_eq_true, decide_eq_true_eq] at h ⊢
  grind

theorem isInert_of_isStart {c : Char} (h : isStart c) : isInert d c := by
  have hw := isWord_of_isStart h
  have hdollar : c ≠ '$' := ne_of_class h (by decide)
  simp [isInert, isQuote_of_isWord hw, isPlaceholder_of_isWord hw, hdollar]

theorem Bare.inert (h : Bare cs) : Inert d cs := by
  intro m hm
  cases h with
  | @word c cs hc hcs =>
    have hfirst : Passes d m [c] (.ofChar c) := .plain hm (isInert_of_isStart hc)
    rw [Mode.ofChar, if_pos (isWord_of_isStart hc)] at hfirst
    rw [funext isBody_eq_isWord] at hcs
    exact ⟨.word, rfl, hfirst.append (.word hcs)⟩

theorem Inside.passes (h : Inside cs) : Passes d (.quoted '"') cs (.quoted '"') := by
  induction h with
  | nil => exact .nil
  | @char c cs hc _ ih =>
    have hfirst : Passes d (.quoted '"') [c] (.quoted '"') := by
      simpa [hc] using Passes.inQuotes (d := d) '"' c
    exact hfirst.append ih
  | pair _ ih =>
    have hclose : Passes d (.quoted '"') ['"'] .free := .inQuotes '"' '"'
    have hopen : Passes d .free ['"'] (.quoted '"') := .openQuote rfl (by decide)
    exact hclose.append (hopen.append ih)

theorem Part.inert (h : Part cs) : Inert d cs := by
  cases h with
  | bare h => exact h.inert
  | quoted h _ =>
    intro m hm
    have hopen : Passes d m ['"'] (.quoted '"') := .openQuote hm (by decide)
    have hclose : Passes d (.quoted '"') ['"'] .free := .inQuotes '"' '"'
    exact ⟨.free, rfl, hopen.append (h.passes.append hclose)⟩

theorem Path.inert (h : Path cs) : Inert d cs := by
  induction h with
  | part h => exact h.inert
  | dot hc _ ih =>
    have hdot : Inert d ['.'] := inert_of_all (by cases d <;> decide)
    exact hc.inert.append (hdot.append ih)

theorem isInert_of_ne {c : Char} (hsingle : c ≠ '\'') (hdouble : c ≠ '"') (hdollar : c ≠ '$')
    (hmark : c ≠ '?') : isInert d c := by
  cases d <;> simp [isInert, isQuote, Piece.isPlaceholder, hsingle, hdouble, hdollar, hmark]

theorem isInert_of_isBlank {c : Char} (h : isBlank c) : isInert d c :=
  isInert_of_ne (ne_of_class h (by decide)) (ne_of_class h (by decide))
    (ne_of_class h (by decide)) (ne_of_class h (by decide))

theorem inert_of_blanks (h : cs.all isBlank) : Inert d cs :=
  inert_of_all (List.all_eq_true.2 fun c hc => isInert_of_isBlank (List.all_eq_true.1 h c hc))

theorem Argument.inert (h : Argument cs) : Inert d cs := by
  cases h with
  | star => exact inert_of_all (by cases d <;> decide)
  | path h => exact h.inert
  | distinct hword hblanks h =>
    refine .append (inert_of_all (List.all_eq_true.2 fun c hc => ?_))
      ((inert_of_blanks hblanks).append h.inert)
    have hlower : c.toLower ∈ "distinct ".toList := hword ▸ List.mem_map_of_mem hc
    have hne {x : Char} (hx : x.toLower ∉ "distinct ".toList) : c ≠ x := by
      rintro rfl
      exact hx hlower
    exact isInert_of_ne (hne (by decide)) (hne (by decide)) (hne (by decide)) (hne (by decide))

theorem Field.inert (h : Field cs) : Inert d cs := by
  cases h with
  | path h => exact h.inert
  | call hfunc hbefore harg hafter =>
    have hopen : Inert d ['('] := inert_of_all (by cases d <;> decide)
    have hclose : Inert d [')'] := inert_of_all (by cases d <;> decide)
    have hinner := harg.inert.append ((inert_of_blanks hafter).append hclose)
    exact hfunc.inert.append (hopen.append ((inert_of_blanks hbefore).append hinner))

theorem inert_of_checkIdent (h : checkIdent name = .ok ()) : Inert d name.toList :=
  (spelled_of_checkIdent h).inert

theorem inert_of_checkAlias (h : checkAlias name = .ok ()) : Inert d name.toList :=
  (spelled_of_checkAlias h).inert

theorem inert_of_checkField (h : checkField name = .ok ()) : Inert d name.toList :=
  (spelled_of_checkField h).inert

end

end Name

end Quarry
