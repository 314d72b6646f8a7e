import Quarry.Invalid

/-!
Records in JSON documents. A record is an object, whose other fields are ignored, or an array of its
fields in their order, of which the last ones may be missing. The first field in document order that
does not fit is the error.
-/
namespace Quarry.Json

/-- Why a document is no record: its shape is wrong, or a text in it is refused. -/
inductive Rejection where
  | shape
  | invalid (why : Invalid)
deriving DecidableEq

/-- The fields given, in document order, and whether there are no more than `names`. -/
def members (names : List String) : Json → Option (List (String × Json) × Bool)
  | .obj fields => some (fields.filter fun f => names.contains f.1, true)
  | .arr items => some (names.zip items, items.length ≤ names.length)
  | _ => none

def setAll (set : σ → String → Json → Except Rejection σ) :
    σ → List (String × Json) → Except Rejection σ
  | s, [] => .ok s
  | s, (name, j) :: rest => do
    setAll set (← set s name j) rest

/-- Reads a record with the given field names, of which the `required` ones must be there. -/
def record (names required : List String) (set : σ → String → Json → Except Rejection σ) (init : σ)
    (j : Json) : Except Rejection σ :=
  match j.members names with
  | none => .error .shape
  | some (given, fits) => do
    let s ← setAll set init given
    if fits ∧ required.all (fun name => given.any (·.1 = name)) then .ok s else .error .shape

def expect : Option α → Except Rejection α
  | some a => .ok a
  | none => .error .shape

def optional (read : Json → Except Rejection α) : Json → Except Rejection (Option α)
  | .null => .ok none
  | j => (read j).map some

end Quarry.Json
