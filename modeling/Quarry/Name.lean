import Quarry.Text.Blank

/-!
Names that go into SQL text unbound. An identifier is a dotted path of parts; a part is bare, a
letter or underscore followed by letters, digits, underscores and dollar signs, or it is quoted,
with a doubled quote standing for one quote. A field is an identifier or a function of one argument.
-/
namespace Quarry.Name

open Text

inductive Fault where
  | empty
  | nul
  | badStart (name : String) (c : Char)
  | emptyPart (name : String)
  | emptyQuoted (name : String)
  | unclosedQuote (name : String)
  | trailingDot (name : String)
  | unexpected (name : String) (c : Char)
  | dottedAlias (name : String)
  | badField (name : String)
deriving DecidableEq

def Fault.message : Fault → String
  | empty => "identifier cannot be empty"
  | nul => "identifier cannot contain NUL"
  | badStart name c => "identifier `" ++ name ++ "` has a part starting with `" ++ c.toString ++ "`"
  | emptyPart name => "empty part in identifier `" ++ name ++ "`"
  | emptyQuoted name => "empty quoted part in `" ++ name ++ "`"
  | unclosedQuote name => "unclosed quote in `" ++ name ++ "`"
  | trailingDot name => "trailing `.` in identifier `" ++ name ++ "`"
  | unexpected name c => "unexpected `" ++ c.toString ++ "` in identifier `" ++ name ++ "`"
  | dottedAlias name => "alias `" ++ name ++ "` cannot be dotted"
  | badField name => "invalid field expression `" ++ name ++ "`"

def isStart (c : Char) : Bool :=
  c = '_' || c.isAlpha

def isBody (c : Char) : Bool :=
  c = '_' || c = '$' || c.isAlphanum

/-- What follows the bare part that `cs` starts with. -/
def bare (name : String) : List Char → Except Fault (List Char)
  | [] => .error (.emptyPart name)
  | c :: cs => if isStart c then .ok (cs.dropWhile isBody) else .error (.badStart name c)

/-- What follows a quoted part after its opening quote; `filled` tells that it has a character. -/
def quoted (name : String) : Bool → List Char → Except Fault (List Char)
  | _, '"' :: '"' :: cs => quoted name true cs
  | filled, '"' :: cs => if filled then .ok cs else .error (.emptyQuoted name)
  | _, _ :: cs => quoted name true cs
  | _, [] => .error (.unclosedQuote name)

def part (name : String) : List Char → Except Fault (List Char)
  | '"' :: cs => quoted name false cs
  | cs => bare name cs

theorem length_quoted {name : String} {filled : Bool} {cs rest : List Char}
    (h : quoted name filled cs = .ok rest) : rest.length < cs.length := by
  fun_induction quoted name filled cs with
  | case1 _ cs ih => have := ih h; simp only [List.length_cons]; omega
  | case2 cs => cases h; simp
  | case3 => cases h
  | case4 _ _ cs _ _ ih => have := ih h; simp only [List.length_cons]; omega
  | case5 => cases h

theorem length_bare {name : String} {cs rest : List Char} (h : bare name cs = .ok rest) :
    rest.length < cs.length := by
  cases cs with
  | nil => cases h
  | cons c cs =>
    simp only [bare] at h
    split at h
    · cases h
      exact Nat.lt_succ_of_le (List.dropWhile_sublist _).length_le
    · cases h

theorem length_part {name : String} {cs rest : List Char} (h : part name cs = .ok rest) :
    rest.length < cs.length := by
  unfold part at h
  split at h
  · exact Nat.lt_succ_of_lt (length_quoted h)
  · exact length_bare h

/-- Accepts one or more parts with dots between them. -/
def path (name : String) (cs : List Char) : Except Fault Unit :=
  match _h : part name cs with
  | .error e => .error e
  | .ok [] => .ok ()
  | .ok ('.' :: c :: rest) => path name (c :: rest)
  | .ok ['.'] => .error (.trailingDot name)
  | .ok (c :: _) => .error (.unexpected name c)
termination_by cs.length
decreasing_by
  have := length_part _h
  simp only [List.length_cons] at this ⊢
  omega

def checkIdent (name : String) : Except Fault Unit :=
  if name.toList = [] then .error .empty
  else if '\x00' ∈ name.toList then .error .nul
  else path name name.toList

def checkAlias (name : String) : Except Fault Unit := do
  checkIdent name
  let rest ← part name name.toList
  if rest = [] then .ok () else .error (.dottedAlias name)

/-- The argument without the word `DISTINCT` in front of it. -/
def dropDistinct (arg : List Char) : List Char :=
  if (arg.take 9).map Char.toLower = "distinct ".toList then trimStart (arg.drop 9) else arg

/-- Accepts the argument of a function, after its opening parenthesis, up to the end. -/
def isArgument (cs : List Char) : Bool :=
  if cs.getLast? = some ')' then
    let arg := trim cs.dropLast
    if arg = ['*'] then true
    else (checkIdent (String.ofList (dropDistinct arg))).isOk
  else false

/-- Accepts an identifier, or a bare name with an argument in parentheses. -/
def checkField (name : String) : Except Fault Unit :=
  match name.toList.dropWhile (· ≠ '(') with
  | [] => checkIdent name
  | _ :: arg => do
    let func := name.toList.takeWhile (· ≠ '(')
    if func = [] then .error (.badField name)
    else
      let rest ← bare name func
      if rest = [] ∧ isArgument arg then .ok () else .error (.badField name)

end Quarry.Name
