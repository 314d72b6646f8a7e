import Quarry.Json.Printer
import Quarry.Value
import Quarry.Wire.Bytes
import Quarry.Wire.SqlType

/-!
The binary form of a value for a column type. Integers are narrowed or turned into floating point
as the type asks; all other values go only to types of their own kind.
-/
namespace Quarry

open Number

namespace Wire

/-- Why a value has no encoding for a type. -/
inductive Misfit where
  | wrongType
  | outOfRange
deriving DecidableEq

/-- The bytes of a value, or none for NULL. -/
abbrev Cell := Option (List UInt8)

/-- The second at which the server's clock starts. -/
def epoch : Int := 946684800

/-- Microseconds from the server's epoch, rounded towards it. -/
def microseconds (t : Instant) : Int :=
  ((t.seconds - epoch) * 1000000000 + t.nanos.val).tdiv 1000

/-- An integer of `width` bytes: half of them are negative. -/
def narrow (width : Nat) (n : Int64) : Except Misfit Cell :=
  let half : Int := (capacity width / 2 : Nat)
  if -half ≤ n.toInt ∧ n.toInt < half then .ok (some (bytesOfInt width n.toInt))
  else .error .outOfRange

def encodeInt (n : Int64) : Scalar → Except Misfit Cell
  | .int2 => narrow 2 n
  | .int4 => narrow 4 n
  | .int8 => .ok (some (bytesOfInt 8 n.toInt))
  | .float4 => .ok (some (bytesOfNat 4 (Single.ofInt n.toInt).bits.toNat))
  | .float8 => .ok (some (bytesOfNat 8 (Double.ofInt n.toInt).bits.toNat))
  | _ => .error .wrongType

def encodeFloat (x : Double) : Scalar → Except Misfit Cell
  | .float4 => .ok (some (bytesOfNat 4 x.narrow.bits.toNat))
  | .float8 => .ok (some (bytesOfNat 8 x.bits.toNat))
  | _ => .error .wrongType

/-- A time counts in words of microseconds. -/
def encodeInstant (t : Instant) : Scalar → Except Misfit Cell
  | .timestamptz =>
    match word? (microseconds t) with
    | some w => .ok (some (bytesOfInt 8 w.toInt))
    | none => .error .outOfRange
  | _ => .error .wrongType

def encodeJson (doc : Json) : Scalar → Except Misfit Cell
  | .json => .ok (some (utf8 doc.text))
  | .jsonb => .ok (some (1 :: utf8 doc.text))
  | _ => .error .wrongType

def only (fits : Bool) (bs : List UInt8) : Except Misfit Cell :=
  if fits then .ok (some bs) else .error .wrongType

/-- A member with its length in front; NULL has the length minus one. -/
def memberBytes : Cell → List UInt8
  | none => bytesOfInt 4 (-1)
  | some bs => bytesOfNat 4 bs.length ++ bs

def arrayBytes (member : Scalar) (lowest : Nat) (cells : List Cell) : List UInt8 :=
  bytesOfNat 4 1 ++ bytesOfNat 4 (if cells.contains none then 1 else 0) ++
    bytesOfNat 4 member.oidNumber ++ bytesOfNat 4 cells.length ++ bytesOfNat 4 lowest ++
    cells.flatMap memberBytes

end Wire

open Wire

namespace Value

def encodeScalar : Value → Scalar → Except Misfit Cell
  | null, _ => .ok none
  | bool b, t => only (t = .bool) [if b then 1 else 0]
  | int n, t => encodeInt n t
  | float x, t => encodeFloat x t
  | text s, t => only t.isTextual (utf8 s)
  | bytes bs, t => only (t = .bytea) bs
  | uuid id, t => only (t = .uuid) (bytesOfNat 16 id.toNat)
  | timestamp i, t => encodeInstant i t
  | json doc, t => encodeJson doc t
  | array _, _ => .error .wrongType

/-- The encoding for a column of type `t`. The members of an array are encoded one by one, and the
first one that does not fit is the error. -/
def encode (v : Value) (t : SqlType) : Except Misfit Cell :=
  match v, t with
  | null, _ => .ok none
  | array items, t =>
    match t.member? with
    | none => .error .wrongType
    | some (member, lowest) => do
      let cells ← items.mapM (·.encodeScalar member)
      return some (arrayBytes member lowest cells)
  | v, .scalar s => v.encodeScalar s
  | _, _ => .error .wrongType

end Value

end Quarry
