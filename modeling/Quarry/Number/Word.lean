namespace Quarry.Number

/-- The word that holds `n`, if one does. -/
def word? (n : Int) : Option Int64 :=
  if Int64.minValue.toInt ≤ n ∧ n ≤ Int64.maxValue.toInt then some (Int64.ofInt n) else none

theorem toInt_of_word? {n : Int} {w : Int64} (h : word? n = some w) : w.toInt = n := by
  unfold word? at h
  split at h
  · rename_i hn
    cases h
    exact Int64.toInt_ofInt_of_le hn.1 (Int.lt_add_one_of_le hn.2)
  · cases h

theorem word?_toInt (w : Int64) : word? w.toInt = some w := by
  rw [word?, if_pos ⟨w.le_toInt, Int.le_of_lt_add_one w.toInt_lt⟩, Int64.ofInt_toInt]

theorem exists_word?_iff {n : Int} :
    (∃ w, word? n = some w) ↔ -9223372036854775808 ≤ n ∧ n ≤ 9223372036854775807 := by
  constructor
  · rintro ⟨w, hw⟩
    rw [← toInt_of_word? hw]
    exact ⟨w.le_toInt, Int.le_of_lt_add_one w.toInt_lt⟩
  · intro h
    exact ⟨_, if_pos h⟩

end Quarry.Number
