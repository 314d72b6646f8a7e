import Quarry.Dialect

/-!
Numbered placeholders inside SQL text. The text is cut into pieces: characters inside quotes,
other characters, and dollar signs with the digits that follow them. A dollar sign that goes on a
word, as in `price$1`, is no placeholder. Renumbering changes the numbers and nothing else.
-/
namespace Quarry.Placeholder

open Text

inductive Piece where
  | quoted (c : Char)
  | plain (c : Char)
  | param (digits : List Char)
deriving DecidableEq

def Piece.chars : Piece → List Char
  | quoted c => [c]
  | plain c => [c]
  | param ds => '$' :: ds

def isWord (c : Char) : Bool :=
  c.isAlphanum || c = '_' || c = '$'

def isQuote (c : Char) : Bool :=
  c = '\'' || c = '"'

theorem length_dropWhile_lt (p : Char → Bool) (c : Char) (cs : List Char) :
    (cs.dropWhile p).length < (c :: cs).length :=
  Nat.lt_succ_of_le (List.dropWhile_sublist p).length_le

/-- Cuts a text; `quote` is the quote that is open, and `joined` tells that a word goes on. -/
def cut (quote : Option Char) (joined : Bool) : List Char → List Piece
  | [] => []
  | c :: cs =>
    match quote with
    | some q => .quoted c :: cut (if c = q then none else some q) false cs
    | none =>
      if isQuote c then .quoted c :: cut (some c) false cs
      else if c = '$' ∧ ¬joined then
        .param (cs.takeWhile Char.isDigit) :: cut none true (cs.dropWhile Char.isDigit)
      else .plain c :: cut none (isWord c) cs
termination_by cs => cs.length
decreasing_by
  all_goals first | exact length_dropWhile_lt .. | simp

def pieces (sql : String) : List Piece :=
  cut none false sql.toList

/-- The number of a placeholder: one or more digits whose value fits 64 bits. -/
def number? (ds : List Char) : Option Nat :=
  (Decimal.read? ds).filter (· < UInt64.size)

def Piece.shift (offset : Nat) : Piece → Piece
  | param ds =>
    match number? ds with
    | some n => param (Decimal.digits (n + offset))
    | none => param ds
  | p => p

def chars (ps : List Piece) : List Char :=
  ps.flatMap Piece.chars

/-- Adds `offset` to the number of each placeholder. -/
def shift (d : Dialect) (sql : String) (offset : Nat) : String :=
  if offset = 0 ∨ d = .unnumbered then sql
  else String.ofList (chars ((pieces sql).map (Piece.shift offset)))

theorem chars_cut (quote : Option Char) (joined : Bool) (cs : List Char) :
    chars (cut quote joined cs) = cs := by
  fun_induction cut quote joined cs with
  | case1 => rfl
  | case2 _ c cs q ih => simpa [chars, Piece.chars] using ih
  | case3 _ c cs _ ih => simpa [chars, Piece.chars] using ih
  | case4 _ c cs _ h ih =>
    simp only [chars, List.flatMap_cons, Piece.chars] at ih ⊢
    rw [ih, h.1, List.cons_append, List.takeWhile_append_dropWhile]
  | case5 _ c cs _ _ ih => simpa [chars, Piece.chars] using ih

/-- Cutting loses nothing. -/
theorem chars_pieces (sql : String) : chars (pieces sql) = sql.toList :=
  chars_cut none false sql.toList

end Quarry.Placeholder
