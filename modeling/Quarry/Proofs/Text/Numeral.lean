import Quarry.Text.Decimal

namespace Quarry.Text.Decimal

/-- One or more decimal digits. -/
structure Run (ds : List Char) : Prop where
  ne_nil : ds ≠ []
  digits : ds.all Char.isDigit

/-- A numeral, with or without a sign, and the number that it stands for. -/
inductive Numeral : List Char → Int → Prop where
  | unsigned {ds : List Char} (h : Run ds) : Numeral ds (value ds)
  | plus {ds : List Char} (h : Run ds) : Numeral ('+' :: ds) (value ds)
  | minus {ds : List Char} (h : Run ds) : Numeral ('-' :: ds) (-(value ds : Int))

section

variable {cs ds : List Char} {c : Char} {n : Int}

theorem run_digits (n : Nat) : Run (digits n) :=
  ⟨digits_ne_nil n, all_isDigit_digits n⟩

theorem Run.head (h : Run (c :: cs)) : c.isDigit := by
  have hall := h.digits
  rw [List.all_cons, Bool.and_eq_true] at hall
  exact hall.1

theorem read?_eq_some_iff {n : Nat} : read? ds = some n ↔ Run ds ∧ value ds = n := by
  rw [read?]
  constructor
  · intro h
    split at h
    · rename_i hds
      exact ⟨⟨hds.1, hds.2⟩, Option.some.inj h⟩
    · cases h
  · rintro ⟨h, rfl⟩
    rw [if_pos ⟨h.ne_nil, h.digits⟩]

theorem readPlus?_of_run (h : Run ds) : readPlus? ds = some (value ds) := by
  cases ds with
  | nil => exact absurd rfl h.ne_nil
  | cons c ds =>
    have hplus : c ≠ '+' := by
      rintro rfl
      exact absurd h.head (by decide)
    rw [readPlus?.eq_2 _ fun _ heq => hplus (List.cons.inj heq).1]
    exact read?_eq_some_iff.2 ⟨h, rfl⟩

theorem readInt?_minus (cs : List Char) :
    readInt? ('-' :: cs) = (read? cs).map fun n => -(Int.ofNat n) := by
  rw [readInt?]
  cases read? cs with
  | none => rfl
  | some n => rfl

theorem readInt?_of_ne (h : ∀ ds, cs ≠ '-' :: ds) : readInt? cs = (readPlus? cs).map Int.ofNat := by
  rw [readInt?.eq_2 _ h]
  cases readPlus? cs with
  | none => rfl
  | some n => rfl

theorem readInt?_of_run (h : Run ds) : readInt? ds = some (value ds : Int) := by
  have hne (rest : List Char) : ds ≠ '-' :: rest := by
    rintro rfl
    exact absurd h.head (by decide)
  rw [readInt?_of_ne hne, readPlus?_of_run h]
  rfl

theorem readInt?_of_numeral (h : Numeral cs n) : readInt? cs = some n := by
  cases h with
  | unsigned h => exact readInt?_of_run h
  | @plus ds h =>
    have hne (rest : List Char) : '+' :: ds ≠ '-' :: rest := by
      intro heq
      exact absurd (List.cons.inj heq).1 (by decide)
    rw [readInt?_of_ne hne, readPlus?, read?_eq_some_iff.2 ⟨h, rfl⟩]
    rfl
  | minus h =>
    rw [readInt?_minus, read?_eq_some_iff.2 ⟨h, rfl⟩]
    rfl

theorem numeral_of_readPlus? {n : Nat} (h : readPlus? cs = some n) : Numeral cs n := by
  unfold readPlus? at h
  split at h
  · obtain ⟨hrun, rfl⟩ := read?_eq_some_iff.1 h
    exact .plus hrun
  · obtain ⟨hrun, rfl⟩ := read?_eq_some_iff.1 h
    exact .unsigned hrun

/-- Exactly the numerals are read. -/
theorem readInt?_eq_some_iff : readInt? cs = some n ↔ Numeral cs n := by
  constructor
  · intro h
    by_cases hminus : ∃ ds, cs = '-' :: ds
    · obtain ⟨ds, rfl⟩ := hminus
      rw [readInt?_minus] at h
      obtain ⟨m, hm, rfl⟩ := Option.map_eq_some_iff.1 h
      obtain ⟨hrun, rfl⟩ := read?_eq_some_iff.1 hm
      exact .minus hrun
    · rw [readInt?_of_ne fun ds hds => hminus ⟨ds, hds⟩] at h
      obtain ⟨m, hm, rfl⟩ := Option.map_eq_some_iff.1 h
      exact numeral_of_readPlus? hm
  · exact readInt?_of_numeral

/-- The digits of the text of an integer, with a sign in front of those of a negative one. -/
theorem toList_writeInt (n : Int) :
    (writeInt n).toList = if n < 0 then '-' :: digits n.natAbs else digits n.natAbs := by
  rw [writeInt]
  split
  · rw [String.toList_append, write, String.toList_ofList, String.toList_ofList]
    rfl
  · rw [write, String.toList_ofList]

theorem numeral_writeInt (n : Int) : Numeral (writeInt n).toList n := by
  have hrun := run_digits n.natAbs
  rw [toList_writeInt]
  split
  · have h := Numeral.minus hrun
    have hn : -((n.natAbs : Nat) : Int) = n := by omega
    rwa [value_digits, hn] at h
  · have h := Numeral.unsigned hrun
    have hn : ((n.natAbs : Nat) : Int) = n := by omega
    rwa [value_digits, hn] at h

/-- No zero is written in front of other digits. -/
theorem head?_digits {n : Nat} (hn : 0 < n) : (digits n).head? ≠ some '0' := by
  induction n using Nat.strongRecOn with
  | ind n ih =>
    rw [digits]
    by_cases hlt : n < 10
    · rw [Nat.toDigits_of_lt_base hlt]
      intro h
      have hvalue := congrArg Char.toNat (Option.some.inj h)
      rw [Nat.toNat_digitChar_of_lt_ten hlt] at hvalue
      change 48 + n = 48 at hvalue
      omega
    · have hdiv := ih (n / 10) (by omega) (by omega)
      rw [Nat.toDigits_of_base_le (by decide) (by omega), List.head?_append]
      cases hhead : (Nat.toDigits 10 (n / 10)).head? with
      | none => exact absurd (List.head?_eq_none_iff.1 hhead) (digits_ne_nil (n / 10))
      | some c => rwa [digits, hhead] at hdiv

end

end Quarry.Text.Decimal
