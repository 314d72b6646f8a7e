import Quarry.Invalid

namespace Quarry

inductive JoinKind where
  | inner
  | left
  | right
  | fullOuter
deriving DecidableEq

namespace JoinKind

def all : List JoinKind := [inner, left, right, fullOuter]

def sql : JoinKind → String
  | inner => "INNER JOIN"
  | left => "LEFT JOIN"
  | right => "RIGHT JOIN"
  | fullOuter => "FULL OUTER JOIN"

end JoinKind

/-- Joins `target` where its field equals a field of `source`, which is joined already. -/
structure Join where
  target : String
  targetField : String
  source : String
  sourceField : String
  rename : Option String
deriving DecidableEq

namespace Join

/-- The name by which the condition calls the target. -/
def qualifier (j : Join) : String :=
  j.rename.getD j.target

def asClause : Option String → String
  | some a => " AS " ++ a
  | none => ""

def check (j : Join) : Except Name.Fault Unit := do
  Name.checkIdent j.target
  Name.checkIdent j.targetField
  Name.checkIdent j.source
  Name.checkIdent j.sourceField
  match j.rename with
  | some a => Name.checkAlias a
  | none => .ok ()

def sql (j : Join) (kind : JoinKind) : String :=
  kind.sql ++ " " ++ j.target ++ asClause j.rename ++ " ON " ++
    j.qualifier ++ "." ++ j.targetField ++
    " = " ++ j.source ++ "." ++ j.sourceField

def text (j : Join) (kind : JoinKind) : Except Invalid String := do
  naming j.check
  return j.sql kind

end Join

end Quarry
