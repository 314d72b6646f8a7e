import Quarry.Proofs.Name.Inert
import Quarry.Proofs.Text.Mask

namespace Quarry.Name

open Text

def isOuter (c : Char) : Bool :=
  Placeholder.isWord c || isBlank c || c = '.' || c = '(' || c = ')' || c = '*'

/-- What identifiers and arguments show: no parentheses. -/
def isInner (c : Char) : Bool :=
  Placeholder.isWord c || isBlank c || c = '.' || c = '*'

theorem isOuter_of_isInner {c : Char} (h : isInner c) : isOuter c := by
  simp only [isInner, Bool.or_eq_true] at h
  rcases h with ((hword | hblank) | hdot) | hstar
  · simp [isOuter, hword]
  · simp [isOuter, hblank]
  · simp [isOuter, hdot]
  · simp [isOuter, hstar]

section

variable {cs : List Char}

theorem outer_of_all (h : cs.all isOuter) : Shows isOuter cs :=
  shows_of_all (by decide) h

theorem inner_of_all (h : cs.all isInner) : Shows isInner cs :=
  shows_of_all (by decide) h

theorem inner_of_blanks (h : cs.all isBlank) : Shows isInner cs := by
  apply inner_of_all
  apply List.all_eq_true.2
  intro c hc
  have hblank : isBlank c := List.all_eq_true.1 h c hc
  simp [isInner, hblank]

theorem Bare.inner (h : Bare cs) : Shows isInner cs := by
  cases h with
  | @word c cs hc hcs =>
    have hword : (c :: cs).all Placeholder.isWord := by
      rw [List.all_cons, isWord_of_isStart hc, ← funext isBody_eq_isWord, hcs]
      rfl
    apply inner_of_all
    apply List.all_eq_true.2
    intro x hx
    simp [isInner, List.all_eq_true.1 hword x hx]

theorem Inside.maskFrom_append (h : Inside cs) (rest : List Char) :
    maskFrom true (cs ++ rest) = List.replicate cs.length none ++ maskFrom true rest := by
  induction h with
  | nil => rfl
  | char hc _ ih => simp [maskFrom, hc, ih, List.replicate_succ]
  | pair _ ih => simp [maskFrom, ih, List.replicate_succ]

theorem Part.inner (h : Part cs) : Shows isInner cs := by
  cases h with
  | bare h => exact h.inner
  | @quoted cs h _ =>
    have hfollowed (rest : List Char) : maskFrom false ('"' :: (cs ++ ['"']) ++ rest) =
        none :: (List.replicate cs.length none ++ [none]) ++ maskFrom false rest := by
      have hinside := h.maskFrom_append ('"' :: rest)
      simp [maskFrom, hinside]
    obtain ⟨hclosed, hmask⟩ := closed_of_mask hfollowed
    refine ⟨hclosed, fun c hc => ?_⟩
    rw [hmask] at hc
    simp at hc

theorem Path.inner (h : Path cs) : Shows isInner cs := by
  induction h with
  | part h => exact h.inner
  | dot hc _ ih =>
    have hdot : Shows isInner ['.'] := inner_of_all (by decide)
    exact hc.inner.append (hdot.append ih)

theorem isInner_of_toLower {c : Char} (h : isInner c.toLower) : isInner c := by
  apply of_toLower _ h
  intro c hc
  simp [isInner, Placeholder.isWord, Char.isAlphanum, hc]

theorem Argument.inner (h : Argument cs) : Shows isInner cs := by
  cases h with
  | star => exact inner_of_all (by decide)
  | path h => exact h.inner
  | @distinct word _ _ hword hblanks h =>
    have hshown : Shows isInner word := by
      apply inner_of_all
      apply List.all_eq_true.2
      intro c hc
      have hlower : c.toLower ∈ "distinct ".toList := hword ▸ List.mem_map_of_mem hc
      have hall : "distinct ".toList.all isInner := by decide
      exact isInner_of_toLower (List.all_eq_true.1 hall _ hlower)
    exact hshown.append ((inner_of_blanks hblanks).append h.inner)

theorem Field.outer (h : Field cs) : Shows isOuter cs := by
  have hinner {ds : List Char} (hd : Shows isInner ds) : Shows isOuter ds :=
    hd.mono fun _ => isOuter_of_isInner
  cases h with
  | path h => exact hinner h.inner
  | call hfunc hbefore harg hafter =>
    have hopen : Shows isOuter ['('] := outer_of_all (by decide)
    have hclose : Shows isOuter [')'] := outer_of_all (by decide)
    have hargument := hinner (harg.inner.append (inner_of_blanks hafter))
    have hrest := (hinner (inner_of_blanks hbefore)).append (hargument.append hclose)
    have hcall := (hinner hfunc.inner).append (hopen.append hrest)
    simpa only [List.append_assoc, List.singleton_append] using hcall

end

end Quarry.Name
