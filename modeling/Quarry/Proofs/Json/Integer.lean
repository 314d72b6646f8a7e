import Mathlib.Data.List.TakeWhile
import Quarry.Json.Reader
import Quarry.Proofs.Text.Numeral

namespace Quarry.Json

open Numeral Quarry.Text

/-- The spelling of an integer: no fraction, no exponent and no needless zero. -/
def spelling (n : Int) : Literal where
  negative := n < 0
  whole := Decimal.digits n.natAbs
  fraction := none
  exponent := none

section

variable {n : Int} {j : Json}

theorem digits?_digits (n : Nat) : digits? (Decimal.digits n) = some (Decimal.digits n, []) := by
  have hall (c : Char) (hc : c ∈ Decimal.digits n) : c.isDigit := Decimal.isDigit_of_mem_digits hc
  rw [digits?, List.takeWhile_eq_self_iff.2 hall, List.dropWhile_eq_nil_iff.2 hall]
  exact if_neg (Decimal.digits_ne_nil n)

theorem no_leading_zero (n : Nat) :
    ¬(1 < (Decimal.digits n).length ∧ (Decimal.digits n).head? = some '0') := by
  rintro ⟨hlength, hhead⟩
  cases n with
  | zero => exact absurd hlength (by decide)
  | succ n => exact Decimal.head?_digits (Nat.succ_pos n) hhead

/-- The digits stand at the end, so there is neither a fraction nor an exponent. -/
theorem readNumber?_writeInt (n : Int) :
    readNumber? (Decimal.writeInt n).toList = (spelling n).json?.map fun j => (j, []) := by
  rw [Decimal.toList_writeInt]
  by_cases hn : n < 0
  · rw [if_pos hn, spelling, decide_eq_true hn]
    simp only [readNumber?, digits?_digits, bind, Option.bind_some, if_neg (no_leading_zero _),
      readFraction?, readExponent?]
    cases Literal.json? ⟨true, Decimal.digits n.natAbs, none, none⟩ with
    | none => rfl
    | some j => rfl
  · have hhead (r : List Char) : Decimal.digits n.natAbs ≠ '-' :: r := by
      intro hr
      have hrun := Decimal.run_digits n.natAbs
      rw [hr] at hrun
      exact absurd hrun.head (by decide)
    rw [if_neg hn, spelling, decide_eq_false hn, readNumber?.eq_2 _ hhead]
    simp only [digits?_digits, bind, Option.bind_some, if_neg (no_leading_zero _), readFraction?,
      readExponent?]
    cases Literal.json? ⟨false, Decimal.digits n.natAbs, none, none⟩ with
    | none => rfl
    | some j => rfl

/-- A number is told by its first character. -/
theorem readValue_number {c : Char} {cs : List Char} (hc : c = '-' ∨ c.isDigit) (fuel : Nat) :
    readValue (fuel + 1) (c :: cs) = readNumber? (c :: cs) := by
  have hne {x : Char} (hx : x ≠ '-') (hdigit : x.isDigit = false) : c ≠ x := by
    rintro rfl
    rcases hc with rfl | hc
    · exact hx rfl
    · rw [hdigit] at hc
      cases hc
  have hspace : isSpace c = false := by
    simp [isSpace, hne]
  have hskip : skipSpace (c :: cs) = c :: cs := by
    rw [skipSpace, List.dropWhile_cons, hspace]
    rfl
  rw [readValue, hskip]
  split
  case h_7 => rfl
  all_goals
    rename_i heq
    exact absurd (List.cons.inj heq).1 (hne (by decide) (by decide))

/-- The document that is written as an integer is what its numeral spells. -/
theorem read?_writeInt (n : Int) : read? (Decimal.writeInt n) = (spelling n).json? := by
  have hfirst : ∃ c cs, (Decimal.writeInt n).toList = c :: cs ∧ (c = '-' ∨ c.isDigit) := by
    rw [Decimal.toList_writeInt]
    split
    · exact ⟨_, _, rfl, .inl rfl⟩
    · have hrun := Decimal.run_digits n.natAbs
      obtain ⟨c, cs, hcs⟩ := List.exists_cons_of_ne_nil hrun.ne_nil
      rw [hcs] at hrun
      exact ⟨c, cs, hcs, .inr hrun.head⟩
  obtain ⟨c, cs, hcs, hc⟩ := hfirst
  have hnumber := readNumber?_writeInt n
  rw [hcs] at hnumber
  rw [read?, hcs, readValue_number hc, hnumber]
  cases (spelling n).json? with
  | none => rfl
  | some j => rfl

/-- An integer is read as itself or, only if no word holds it, as a float. -/
theorem of_read?_writeInt (h : read? (Decimal.writeInt n) = some j) :
    j = .int n ∨ (∃ x, j = .float x) ∧ Number.word? n = none := by
  rw [read?_writeInt, spelling, Literal.json?] at h
  simp only [Decimal.value_digits, decide_eq_true_eq] at h
  by_cases hn : n < 0
  · have habs : -(n.natAbs : Int) = n := by omega
    rw [if_pos hn, habs] at h
    by_cases hword : n.natAbs ≠ 0 ∧ (Number.word? n).isSome
    · rw [if_pos hword] at h
      exact .inl (Option.some.inj h).symm
    · rw [if_neg hword] at h
      obtain ⟨x, -, rfl⟩ := Option.map_eq_some_iff.1 h
      refine .inr ⟨⟨x, rfl⟩, ?_⟩
      have hsome : ¬(Number.word? n).isSome := fun hs => hword ⟨by omega, hs⟩
      exact Option.not_isSome_iff_eq_none.1 hsome
  · have habs : (n.natAbs : Int) = n := by omega
    rw [if_neg hn] at h
    by_cases hsize : n.natAbs < UInt64.size
    · rw [if_pos hsize, habs] at h
      exact .inl (Option.some.inj h).symm
    · rw [if_neg hsize] at h
      obtain ⟨x, -, rfl⟩ := Option.map_eq_some_iff.1 h
      refine .inr ⟨⟨x, rfl⟩, if_neg ?_⟩
      rintro ⟨-, hle⟩
      have hmax : Int64.maxValue.toInt < (UInt64.size : Nat) := by decide
      omega

/-- What fits a word, signed or not, is read as an integer. -/
theorem read?_writeInt_eq_int (hlow : Int64.minValue.toInt ≤ n) (hhigh : n < UInt64.size) :
    read? (Decimal.writeInt n) = some (.int n) := by
  rw [read?_writeInt, spelling, Literal.json?]
  simp only [Decimal.value_digits, decide_eq_true_eq]
  by_cases hn : n < 0
  · have habs : -(n.natAbs : Int) = n := by omega
    have hmax : (0 : Int) ≤ Int64.maxValue.toInt := by decide
    have hword : (Number.word? n).isSome := by
      rw [Number.word?, if_pos ⟨hlow, by omega⟩]
      rfl
    rw [if_pos hn, habs, if_pos ⟨by omega, hword⟩]
  · have habs : (n.natAbs : Int) = n := by omega
    rw [if_neg hn, habs, if_pos (by omega)]

end

end Quarry.Json
