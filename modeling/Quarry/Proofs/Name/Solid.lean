import Quarry.Proofs.Name.Inert
import Quarry.Proofs.Text.Words

namespace Quarry.Name

open Text

section

variable {cs : List Char}

theorem isTight_of_isWord {c : Char} (h : Placeholder.isWord c) : isTight c := by
  have hsmooth := isSmooth_of_ne (ne_of_class h (by decide)) (ne_of_class h (by decide))
    (ne_of_class h (by decide))
  have hblank : c ≠ ' ' := ne_of_class h (by decide)
  simp [isTight, hsmooth, hblank]

theorem isSmooth_of_isBlank {c : Char} (h : isBlank c) : isSmooth c :=
  isSmooth_of_ne (ne_of_class h (by decide)) (ne_of_class h (by decide))
    (ne_of_class h (by decide))

theorem balanced_of_blanks (h : cs.all isBlank) : Balanced 1 cs := by
  apply balanced_of_smooth
  apply List.all_eq_true.2
  intro c hc
  exact isSmooth_of_isBlank (List.all_eq_true.1 h c hc)

theorem Bare.solid (h : Bare cs) : Solid cs := by
  apply solid_of_tight
  apply List.all_eq_true.2
  intro x hx
  apply isTight_of_isWord
  cases h with
  | word hc hcs =>
    cases hx with
    | head => exact isWord_of_isStart hc
    | tail _ hx => exact isBody_eq_isWord x ▸ List.all_eq_true.1 hcs x hx

theorem Inside.run (h : Inside cs) : Place.run ⟨true, 0⟩ cs = some ⟨true, 0⟩ := by
  induction h with
  | nil => rfl
  | char hc _ ih => exact Place.run_cons.2 ⟨⟨true, 0⟩, by simp [Place.step, hc], ih⟩
  | pair _ ih => exact Place.run_cons.2 ⟨⟨false, 0⟩, rfl, Place.run_cons.2 ⟨⟨true, 0⟩, rfl, ih⟩⟩

theorem Part.solid (h : Part cs) : Solid cs := by
  cases h with
  | bare h => exact h.solid
  | quoted h _ =>
    have hclose : Place.run ⟨true, 0⟩ ['"'] = some ⟨false, 0⟩ := rfl
    exact Place.run_cons.2 ⟨⟨true, 0⟩, rfl, Place.run_append h.run hclose⟩

theorem Path.solid (h : Path cs) : Solid cs := by
  induction h with
  | part h => exact h.solid
  | dot hc _ ih =>
    have hdot : Solid ['.'] := rfl
    exact hc.solid.append (hdot.append ih)

theorem isSmooth_of_toLower {c : Char} (h : c.toLower ∈ "distinct ".toList) : isSmooth c := by
  have hne {x : Char} (hx : x.toLower ∉ "distinct ".toList) : c ≠ x := by
    rintro rfl
    exact hx h
  exact isSmooth_of_ne (hne (by decide)) (hne (by decide)) (hne (by decide))

theorem Argument.balanced (h : Argument cs) : Balanced 1 cs := by
  cases h with
  | star => rfl
  | path h => exact h.solid.deeper
  | distinct hword hblanks h =>
    apply Balanced.append
    · apply balanced_of_smooth
      apply List.all_eq_true.2
      intro c hc
      exact isSmooth_of_toLower (hword ▸ List.mem_map_of_mem hc)
    · exact (balanced_of_blanks hblanks).append h.solid.deeper

theorem Field.solid (h : Field cs) : Solid cs := by
  cases h with
  | path h => exact h.solid
  | call hfunc hbefore harg hafter =>
    have hinner := (balanced_of_blanks hbefore).append
      (harg.balanced.append (balanced_of_blanks hafter))
    have hcall := hfunc.solid.append hinner.enclosed
    simpa only [List.append_assoc] using hcall

/-- The characters that names start with. -/
def isFirst (c : Char) : Bool :=
  isStart c || c = '"'

theorem Bare.first (h : Bare cs) : cs.head?.any isFirst := by
  cases h with
  | word hc _ => simp [isFirst, hc]

theorem Part.first (h : Part cs) : cs.head?.any isFirst := by
  cases h with
  | bare h => exact h.first
  | quoted h _ => rfl

theorem any_head?_append {p : Char → Bool} {ds : List Char} (h : cs.head?.any p) :
    (cs ++ ds).head?.any p := by
  cases cs with
  | nil => cases h
  | cons c cs => exact h

theorem Path.first (h : Path cs) : cs.head?.any isFirst := by
  cases h with
  | part h => exact h.first
  | dot hc _ => exact any_head?_append hc.first

theorem Field.first (h : Field cs) : cs.head?.any isFirst := by
  cases h with
  | path h => exact h.first
  | call hfunc _ _ _ => exact any_head?_append hfunc.first

end

end Quarry.Name
