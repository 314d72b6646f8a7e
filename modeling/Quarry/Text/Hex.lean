namespace Quarry.Text.Hex

def digit (n : Nat) : Char :=
  if n < 10 then Char.ofNat ('0'.toNat + n) else Char.ofNat ('a'.toNat + (n - 10))

def value? (c : Char) : Option Nat :=
  if c.isDigit then some (c.toNat - '0'.toNat)
  else if 'a' ≤ c ∧ c ≤ 'f' then some (c.toNat - 'a'.toNat + 10)
  else if 'A' ≤ c ∧ c ≤ 'F' then some (c.toNat - 'A'.toNat + 10)
  else none

def encode (bs : List UInt8) : String :=
  String.ofList (bs.flatMap fun b => [digit (b.toNat / 16), digit (b.toNat % 16)])

def decode? : List Char → Option (List UInt8)
  | [] => some []
  | a :: b :: cs => do
    let x ← value? a
    let y ← value? b
    let bs ← decode? cs
    some (UInt8.ofNat (x * 16 + y) :: bs)
  | [_] => none

theorem value?_digit (n : Nat) (h : n < 16) : value? (digit n) = some n := by
  have all : ∀ k : Fin 16, value? (digit k.val) = some k.val := by decide
  exact all ⟨n, h⟩

theorem decode?_encode (bs : List UInt8) : decode? (encode bs).toList = some bs := by
  rw [encode, String.toList_ofList]
  induction bs with
  | nil => rfl
  | cons b bs ih =>
    have hb := b.toNat_lt
    simp only [List.flatMap_cons, List.cons_append, List.nil_append, decode?,
      value?_digit _ (show b.toNat / 16 < 16 by omega),
      value?_digit _ (Nat.mod_lt b.toNat (by decide : 16 > 0)), ih, Option.bind_eq_bind,
      Option.bind_some]
    rw [Nat.div_add_mod', UInt8.ofNat_toNat]

end Quarry.Text.Hex
