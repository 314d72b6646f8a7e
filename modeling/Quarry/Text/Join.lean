namespace Quarry.Text

def join (sep : String) : List String → String
  | [] => ""
  | [x] => x
  | x :: y :: xs => x ++ sep ++ join sep (y :: xs)

theorem join_cons (sep x : String) {xs : List String} (h : xs ≠ []) :
    join sep (x :: xs) = x ++ sep ++ join sep xs := by
  cases xs with
  | nil => exact absurd rfl h
  | cons => rfl

end Quarry.Text
