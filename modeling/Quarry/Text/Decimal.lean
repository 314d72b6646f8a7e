namespace Quarry.Text.Decimal

def digits (n : Nat) : List Char :=
  Nat.toDigits 10 n

def value (ds : List Char) : Nat :=
  Nat.ofDigitChars 10 ds 0

def write (n : Nat) : String :=
  String.ofList (digits n)

def writeInt (n : Int) : String :=
  if n < 0 then "-" ++ write n.natAbs else write n.natAbs

def read? (cs : List Char) : Option Nat :=
  if cs ≠ [] ∧ cs.all Char.isDigit then some (value cs) else none

def readPlus? : List Char → Option Nat
  | '+' :: cs => read? cs
  | cs => read? cs

def readInt? : List Char → Option Int
  | '-' :: cs => (read? cs).map fun n => -(n : Int)
  | cs => (readPlus? cs).map fun n => (n : Int)

theorem value_digits (n : Nat) : value (digits n) = n :=
  Nat.ofDigitChars_toDigits (by decide) (by decide)

theorem isDigit_of_mem_digits {n : Nat} {c : Char} (h : c ∈ digits n) : c.isDigit :=
  Nat.isDigit_of_mem_toDigits (by decide) (by decide) h

theorem all_isDigit_digits (n : Nat) : (digits n).all Char.isDigit :=
  List.all_eq_true.2 fun _ => isDigit_of_mem_digits

theorem digits_ne_nil (n : Nat) : digits n ≠ [] := by
  simp [digits]

theorem read?_digits (n : Nat) : read? (digits n) = some n := by
  simp [read?, digits_ne_nil, all_isDigit_digits, value_digits]

end Quarry.Text.Decimal
