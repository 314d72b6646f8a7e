import Quarry.Proofs.Checked
import Quarry.Proofs.Search.Condition

namespace Quarry

/-- A value of which one can only see whether it is null. -/
def Value.veiled (v : Value) : Value :=
  if v.isNull then .null else .bool true

def Operands.veiled : Operands → Operands
  | none => none
  | one v => one v.veiled
  | two v w => two v.veiled w.veiled

theorem Operands.count_veiled (o : Operands) : o.veiled.count = o.count := by
  cases o <;> rfl

def Condition.veiled (c : Condition) : Condition where
  operator := c.operator
  sign := c.sign
  operands := c.operands.veiled
  count_operands := c.operands.count_veiled.trans c.count_operands

def Filter.veiled : Filter → Filter
  | value v => value v.veiled
  | object cs => object (cs.map Condition.veiled)
  | objects css => objects (css.map (List.map Condition.veiled))

def Search.veiled (s : Search) : Search :=
  ⟨s.entries.map fun e => (e.1, e.2.veiled)⟩

def Group.veiled (g : Group) : Group :=
  ⟨g.search.veiled, g.alternatives.map (List.map Search.veiled)⟩

def Term.veiled (t : Term) : Term :=
  ⟨t.fragment, t.values.map Value.veiled⟩

def Compiled.veiled (c : Compiled) : Compiled :=
  { c with values := c.values.map Value.veiled }

theorem Value.isNull_veiled (v : Value) : v.veiled.isNull = v.isNull := by
  cases v <;> rfl

theorem Value.veiled_ne_null {v : Value} (h : v ≠ .null) : v.veiled ≠ .null := by
  cases v with
  | null => exact absurd rfl h
  | _ => exact nofun

section

variable {α β ε : Type} {f : α → Except ε β} {p : α → α} {q : β → β}

/-- What commutes with each check commutes with a list of them. -/
theorem mapM_map_of_commutes (h : ∀ x, f (p x) = (f x).map q) (xs : List α) :
    (xs.map p).mapM f = (xs.mapM f).map (List.map q) := by
  induction xs with
  | nil => rfl
  | cons x xs ih =>
    rw [List.map_cons, List.mapM_cons, List.mapM_cons, h, ih]
    cases f x with
    | error e => rfl
    | ok y => cases xs.mapM f <;> rfl

theorem flatten_map_of_commutes {f : α → Except ε (List β)} {p : α → α} {q : β → β}
    (h : ∀ x, f (p x) = (f x).map (List.map q)) (xs : List α) :
    (do return (← (xs.map p).mapM f).flatten) =
      (do return (← xs.mapM f).flatten : Except ε (List β)).map (List.map q) := by
  rw [mapM_map_of_commutes h]
  cases xs.mapM f with
  | error e => rfl
  | ok yss => exact congrArg Except.ok List.map_flatten.symm

end

theorem Condition.single_veiled (key : String) (v : Value) (op : Operator)
    (sign : Option String) :
    single key v.veiled op sign = (single key v op sign).map Term.veiled := by
  cases op with
  | custom =>
    cases sign with
    | none => rfl
    | some s =>
      rw [single, single]
      cases Operator.checkSign key s <;> rfl
  | _ => rfl

theorem Condition.compile_veiled (key : String) (c : Condition) :
    c.veiled.compile key = (c.compile key).map Term.veiled := by
  obtain ⟨op, sign, operands, hcount⟩ := c
  cases operands with
  | none => rfl
  | one v =>
    by_cases hv : v = .null
    · subst hv
      cases op <;> rfl
    · have hveiled := v.veiled_ne_null hv
      rw [compile_single hv, ← single_veiled]
      exact compile_single hveiled hcount key
  | two v w =>
    simp only [compile, veiled, Operands.veiled, Value.isNull_veiled]
    split <;> rfl

theorem Filter.compileObject_veiled (key : String) (cs : List Condition) :
    compileObject key (cs.map Condition.veiled) =
      (compileObject key cs).map (List.map Term.veiled) := by
  cases cs with
  | nil => rfl
  | cons c cs => exact mapM_map_of_commutes (Condition.compile_veiled key) (c :: cs)

theorem Filter.compile_veiled (key : String) (f : Filter) :
    f.veiled.compile key = (f.compile key).map (List.map Term.veiled) := by
  cases f with
  | value v =>
    cases v <;> rfl
  | object cs => exact compileObject_veiled key cs
  | objects css =>
    cases css with
    | nil => rfl
    | cons cs css =>
      exact flatten_map_of_commutes (compileObject_veiled key) (cs :: css)

theorem Search.compileEntry_veiled (e : String × Filter) :
    compileEntry (e.1, e.2.veiled) = (compileEntry e).map (List.map Term.veiled) := by
  rw [compileEntry, compileEntry, Filter.compile_veiled]
  cases naming (Name.checkField e.1) <;> rfl

theorem Search.compile_veiled (s : Search) :
    s.veiled.compile = s.compile.map (List.map Term.veiled) :=
  flatten_map_of_commutes compileEntry_veiled s.entries

theorem Group.compileAlternatives_veiled (index : Nat) (ss : List Search) :
    compileAlternatives index (ss.map Search.veiled) =
      (compileAlternatives index ss).map (List.map (List.map Term.veiled)) := by
  induction ss generalizing index with
  | nil => rfl
  | cons s ss ih =>
    rw [List.map_cons, compileAlternatives, compileAlternatives, Search.compile_veiled, ih]
    cases s.compile with
    | error e => rfl
    | ok ts =>
      cases ts with
      | nil => rfl
      | cons t ts => cases compileAlternatives (index + 1) ss <;> rfl

theorem Compiled.ofTerms_veiled (main : List Term) (alternatives : List (List Term)) :
    ofTerms (main.map Term.veiled) (alternatives.map (List.map Term.veiled)) =
      (ofTerms main alternatives).veiled := by
  have hfragments : Term.fragment ∘ Term.veiled = Term.fragment := rfl
  have hvalues : (main.map Term.veiled ++ (alternatives.map (List.map Term.veiled)).flatten) =
      (main ++ alternatives.flatten).map Term.veiled := by
    rw [List.map_append, List.map_flatten]
  rw [ofTerms, ofTerms, hvalues, veiled]
  simp only [List.map_map, hfragments, Function.comp_def, List.flatMap_map, List.map_flatMap]
  rfl

/-- Veiling the values of a group and then compiling it is veiling what it is compiled to. -/
theorem Group.compile_veiled (g : Group) : g.veiled.compile = g.compile.map Compiled.veiled := by
  obtain ⟨search, alternatives⟩ := g
  rw [compile, compile, veiled, Search.compile_veiled]
  cases search.compile with
  | error e => rfl
  | ok main =>
    cases alternatives with
    | none => exact congrArg Except.ok (Compiled.ofTerms_veiled main [])
    | some list =>
      simp only [Option.map_some, bind, Except.bind, Except.map, List.length_map,
        compileAlternatives_veiled]
      split
      · rfl
      · cases compileAlternatives 0 list with
        | error e => rfl
        | ok tss => exact congrArg Except.ok (Compiled.ofTerms_veiled main tss)

end Quarry
