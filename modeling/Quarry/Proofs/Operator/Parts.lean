import Quarry.Operator.Text
import Quarry.Proofs.Placeholder.Inert

namespace Quarry

open Text Placeholder

theorem Dialect.isWord_of_mem_placeholder {d : Dialect} {n : Nat} {c : Char}
    (h : c ∈ (d.placeholder n).toList) : isWord c ∨ c = '?' := by
  cases d with
  | numbered =>
    have hc : c = '$' ∨ c ∈ Decimal.digits n := by
      simpa [placeholder, Decimal.write] using h
    rcases hc with rfl | hc
    · exact .inl (by decide)
    · have hdigit := Decimal.isDigit_of_mem_digits hc
      exact .inl (by simp [isWord, Char.isAlphanum, hdigit])
  | unnumbered => exact .inr (by simpa [placeholder] using h)

namespace Operator

def check (op : Operator) (key : String) (sign : Option String) (d : Dialect) :
    Except Invalid Unit :=
  if op.isPostgresOnly ∧ d = .unnumbered then .error (.unsupported op key d)
  else
    match op, sign with
    | .custom, none => .error (.signMissing key)
    | .custom, some s =>
      if d = .unnumbered ∧ '?' ∈ s.toList then .error (.signClash key s d) else .ok ()
    | _, _ => .ok ()

/-- A text of characters that signs are made of. -/
def IsSign (sign : String) : Prop :=
  ∀ c ∈ sign.toList, c ∈ Invalid.signChars.toList

instance (sign : String) : Decidable (IsSign sign) :=
  decidable_of_iff (sign.toList.all (Invalid.signChars.toList.contains ·)) <| by
    simp only [IsSign, List.all_eq_true, List.contains_iff_mem]

theorem of_checkSign {key sign : String} (h : checkSign key sign = .ok ()) :
    sign.toList ≠ [] ∧ IsSign sign := by
  rw [checkSign] at h
  split at h
  · rename_i hsign
    refine ⟨hsign.1, fun c hc => ?_⟩
    simpa using List.all_eq_true.1 hsign.2 c hc
  · cases h

def signText : Operator → Option String → String
  | .custom, some s => s
  | _, _ => ""

theorem text_eq_check (op : Operator) (key : String) (sign : Option String) (c : Nat)
    (d : Dialect) :
    op.text key sign c d = (op.check key sign d).map fun _ =>
      (fill d key (op.signText sign) c (op.template d), c + op.arity) := by
  unfold text check
  split
  · rfl
  · cases op with
    | custom =>
      cases sign with
      | none => rfl
      | some s =>
        simp only
        split <;> rfl
    | _ => rfl

def parts (key sign : String) : Nat → List Blank → List Part
  | _, [] => []
  | c, .key :: bs => fixedParts key ++ parts key sign c bs
  | c, .sign :: bs => fixedParts sign ++ parts key sign c bs
  | c, .words s :: bs => fixedParts s ++ parts key sign c bs
  | c, .param :: bs => .hole (c + 1) :: parts key sign (c + 1) bs

theorem write_parts (d : Dialect) (key sign : String) (c : Nat) (bs : List Blank) :
    write d (parts key sign c bs) = fill d key sign c bs := by
  fun_induction parts key sign c bs with
  | case1 => rfl
  | case5 c bs ih =>
    have hhole : write d [.hole (c + 1)] = d.placeholder (c + 1) := by
      simp [write, Part.piece, chars_hole, chars]
    rw [← List.singleton_append, write_append, ih, hhole, fill]
  | _ => simp_all [write_append, fill]

theorem numbers_parts (key sign : String) (c : Nat) (bs : List Blank) :
    numbers (parts key sign c bs) = List.range' (c + 1) (bs.count .param) := by
  fun_induction parts key sign c bs with
  | case1 => rfl
  | case5 c bs ih =>
    rw [← List.singleton_append, numbers_append, ih, List.count_cons_self, List.range'_succ]
    rfl
  | _ => simp_all

theorem parts_shift (key sign : String) (k c : Nat) (bs : List Blank) :
    parts key sign (c + k) bs = (parts key sign c bs).map (Part.shift k) := by
  fun_induction parts key sign c bs with
  | case1 => rfl
  | case5 c bs ih =>
    rw [List.map_cons, ← ih, parts, Part.shift, Nat.add_right_comm]
  | _ => simp_all [parts]

def Blank.isWide : Blank → Bool
  | .words s => s.toList.contains ' '
  | _ => false

theorem any_isWide_template (op : Operator) (d : Dialect) :
    (op.template d).any Blank.isWide := by
  cases op <;> cases d <;> decide

theorem space_mem_fill {d : Dialect} {key sign : String} {bs : List Blank}
    (h : bs.any Blank.isWide) (c : Nat) : ' ' ∈ (fill d key sign c bs).toList := by
  induction bs generalizing c with
  | nil => cases h
  | cons b bs ih =>
    rw [List.any_cons, Bool.or_eq_true] at h
    rcases h with h | h
    · cases b with
      | words s =>
        rw [fill, String.toList_append]
        exact List.mem_append_left _ (by simpa [Blank.isWide] using h)
      | _ => cases h
    · cases b <;> rw [fill, String.toList_append] <;> exact List.mem_append_right _ (ih h _)

/-- The text of such a blank begins with no character of a word. -/
def Blank.opens : Blank → Bool
  | .words s => startsApart s
  | .sign => true
  | _ => false

def Blank.closes : Blank → Bool
  | .words s => endsApart s
  | .sign => true
  | _ => false

/-- Neighbours in a template are kept apart from each other. -/
def isSpaced : List Blank → Bool
  | a :: b :: bs => (a.closes || b.opens) && isSpaced (b :: bs)
  | _ => true

theorem isSpaced_template (op : Operator) (d : Dialect) : isSpaced (op.template d) := by
  cases op <;> cases d <;> decide

def Blank.isPlain (d : Dialect) : Blank → Bool
  | .words s => s.toList.all (isInert d)
  | _ => true

/-- A question mark stands only in templates for numbered placeholders. -/
theorem isPlain_template {op : Operator} {d : Dialect}
    (h : ¬(op.isPostgresOnly ∧ d = .unnumbered)) : (op.template d).all (Blank.isPlain d) := by
  revert h
  cases op <;> cases d <;> decide

section Legible

variable {d : Dialect} {key sign : String} {bs : List Blank}

theorem opens_parts {b : Blank} (hs : .sign ∈ b :: bs → Apart d sign) (h : b.opens) (c : Nat) :
    Opens d (parts key sign c (b :: bs)) := by
  cases b with
  | words s => exact (opens_fixedParts h).append _
  | sign => exact (hs (.head _)).opens.append _
  | _ => cases h

theorem legible_parts (hk : Inert d key.toList) (hs : .sign ∈ bs → Apart d sign)
    (hp : bs.all (Blank.isPlain d)) (hb : isSpaced bs) (c : Nat) :
    Legible d (parts key sign c bs) := by
  induction bs generalizing c with
  | nil => exact .nil
  | cons b bs ih =>
    simp only [List.all_cons, Bool.and_eq_true] at hp
    have hs' : .sign ∈ bs → Apart d sign := fun h => hs (.tail _ h)
    have hrest (c : Nat) : Legible d (parts key sign c bs) := by
      refine ih hs' hp.2 ?_ c
      cases bs with
      | nil => rfl
      | cons b' bs =>
        simp only [isSpaced, Bool.and_eq_true] at hb
        exact hb.2
    have hnext {ps : List Part} (c : Nat) (hps : Legible d ps) (hc : b.closes → Closes d ps) :
        Legible d (ps ++ parts key sign c bs) := by
      cases bs with
      | nil => simpa [parts] using hps
      | cons b' bs =>
        simp only [isSpaced, Bool.and_eq_true, Bool.or_eq_true] at hb
        rcases hb.1 with h | h
        · exact hps.append_of_closes (hrest c) (hc h)
        · exact hps.append_of_opens (hrest c) (opens_parts hs' h c)
    cases b with
    | key => exact hnext c (legible_fixedParts hk) nofun
    | sign =>
      have hsign := hs (.head _)
      exact hnext c hsign.legible fun _ => hsign.closes
    | words s => exact hnext c (legible_fixedParts (inert_of_all hp.1)) (closes_fixedParts hp.1)
    | param => exact hnext (c + 1) (.hole (c + 1)) nofun

end Legible

end Operator

end Quarry
