import Quarry.Invalid

/-!
How a condition is written. The text is filled in from a template, in which a blank for a
placeholder stands once for each value bound.
-/
namespace Quarry.Operator

inductive Blank where
  | key
  | sign
  | param
  | words (s : String)
deriving DecidableEq

def binary (sign : String) : List Blank :=
  [.key, .words (" " ++ sign ++ " "), .param]

def lowered (sign : String) : List Blank :=
  [.words "LOWER(", .key, .words (") " ++ sign ++ " LOWER("), .param, .words ")"]

def ranged (sign : String) : List Blank :=
  [.key, .words (" " ++ sign ++ " "), .param, .words " AND ", .param]

def template : Operator → Dialect → List Blank
  | eq, _ => binary "="
  | ne, _ => binary "!="
  | gt, _ => binary ">"
  | gte, _ => binary ">="
  | lt, _ => binary "<"
  | lte, _ => binary "<="
  | custom, _ => [.key, .words " ", .sign, .words " ", .param]
  | between, _ => ranged "BETWEEN"
  | notBetween, _ => ranged "NOT BETWEEN"
  | inList, .numbered => [.key, .words " = ANY(", .param, .words ")"]
  | inList, .unnumbered => [.key, .words " IN (", .param, .words ")"]
  | notInList, .numbered => [.words "NOT (", .key, .words " = ANY(", .param, .words "))"]
  | notInList, .unnumbered => [.key, .words " NOT IN (", .param, .words ")"]
  | like, _ => binary "LIKE"
  | notLike, _ => binary "NOT LIKE"
  | ilike, .numbered => binary "ILIKE"
  | ilike, .unnumbered => lowered "LIKE"
  | notIlike, .numbered => binary "NOT ILIKE"
  | notIlike, .unnumbered => lowered "NOT LIKE"
  | isNull, _ => [.key, .words " IS NULL"]
  | isNotNull, _ => [.key, .words " IS NOT NULL"]
  | contains, _ => binary "@>"
  | containedBy, _ => binary "<@"
  | overlap, _ => binary "&&"
  | regex, _ => binary "~"
  | iregex, _ => binary "~*"
  | notRegex, _ => binary "!~"
  | notIregex, _ => binary "!~*"
  | jsonPath, _ => binary "@?"
  | jsonPathMatch, _ => binary "@@"

/-- Fills a template; placeholders are numbered on from `cursor`. -/
def fill (d : Dialect) (key sign : String) (cursor : Nat) : List Blank → String
  | [] => ""
  | .key :: bs => key ++ fill d key sign cursor bs
  | .sign :: bs => sign ++ fill d key sign cursor bs
  | .words s :: bs => s ++ fill d key sign cursor bs
  | .param :: bs => d.placeholder (cursor + 1) ++ fill d key sign (cursor + 1) bs

theorem count_param_template (op : Operator) (d : Dialect) :
    (op.template d).count .param = op.arity := by
  cases op <;> cases d <;> decide

/-- A custom sign is made of one or more operator characters. -/
def checkSign (key sign : String) : Except Invalid Unit :=
  if sign.toList ≠ [] ∧ sign.toList.all (Invalid.signChars.toList.contains ·) then .ok ()
  else .error (.badSign key sign)

/-- The text of a condition on `key`, and the cursor after it. A question mark in a sign would
read as a placeholder where placeholders have no numbers. -/
def text (op : Operator) (key : String) (sign : Option String) (cursor : Nat) (d : Dialect) :
    Except Invalid (String × Nat) :=
  if op.isPostgresOnly ∧ d = .unnumbered then .error (.unsupported op key d)
  else
    match op, sign with
    | .custom, none => .error (.signMissing key)
    | .custom, some s =>
      if d = .unnumbered ∧ '?' ∈ s.toList then .error (.signClash key s d)
      else .ok (fill d key s cursor (op.template d), cursor + op.arity)
    | _, _ => .ok (fill d key "" cursor (op.template d), cursor + op.arity)

end Quarry.Operator
