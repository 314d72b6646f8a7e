namespace Quarry.Wire

def capacity (width : Nat) : Nat :=
  Nat.pow 256 width

/-- The last `width` bytes of `n`, the most significant one first. -/
def bytesOfNat : Nat → Nat → List UInt8
  | 0, _ => []
  | width + 1, n => UInt8.ofNat (n / capacity width) :: bytesOfNat width n

/-- The last `width` bytes of `n` in two's complement. -/
def bytesOfInt (width : Nat) (n : Int) : List UInt8 :=
  bytesOfNat width (n % capacity width).toNat

def utf8 (s : String) : List UInt8 :=
  s.toUTF8.data.toList

def natOfBytes (bs : List UInt8) : Nat :=
  bs.foldl (fun n b => n * 256 + b.toNat) 0

/-- The number that bytes stand for in two's complement. -/
def intOfBytes (bs : List UInt8) : Int :=
  (natOfBytes bs : Int).bmod (capacity bs.length)

theorem capacity_succ (width : Nat) : capacity (width + 1) = capacity width * 256 := rfl

theorem length_bytesOfNat (width n : Nat) : (bytesOfNat width n).length = width := by
  induction width with
  | zero => rfl
  | succ width ih => rw [bytesOfNat, List.length_cons, ih]

theorem foldl_bytesOfNat (width n start : Nat) :
    (bytesOfNat width n).foldl (fun m b => m * 256 + b.toNat) start =
      start * capacity width + n % capacity width := by
  induction width generalizing start with
  | zero => simp [bytesOfNat, capacity, Nat.mod_one]
  | succ width ih =>
    have h : n % capacity (width + 1) =
        capacity width * (n / capacity width % 256) + n % capacity width := by
      rw [capacity_succ, Nat.mod_mul, Nat.add_comm]
    rw [bytesOfNat, List.foldl_cons, ih, UInt8.toNat_ofNat', h, capacity_succ, Nat.add_mul,
      Nat.mul_assoc, Nat.mul_comm 256, Nat.mul_comm (_ % _), Nat.add_assoc]

/-- Bytes are read back up to the bytes that were not written. -/
theorem natOfBytes_bytesOfNat (width n : Nat) :
    natOfBytes (bytesOfNat width n) = n % capacity width := by
  rw [natOfBytes, foldl_bytesOfNat, Nat.zero_mul, Nat.zero_add]

end Quarry.Wire
