import Quarry.Proofs.Select.Counted

namespace Quarry

open Text

/-- A clause that is empty leaves nothing behind. -/
def spaced (clause : String) : String :=
  if clause = "" then "" else " " ++ clause

theorem join_append (sep : String) {ts us : List String} (ht : ts ≠ []) (hu : us ≠ []) :
    join sep (ts ++ us) = join sep ts ++ sep ++ join sep us := by
  induction ts with
  | nil => exact absurd rfl ht
  | cons a as ih =>
    by_cases has : as = []
    · rw [has]
      exact join_cons sep a hu
    · rw [List.cons_append, join_cons sep a (by simp [has]), join_cons sep a has, ih has]
      simp only [String.append_assoc]

theorem join_snoc (sep t : String) {ts : List String} (h : ts ≠ []) :
    join sep (ts ++ [t]) = join sep ts ++ sep ++ t :=
  join_append sep h (List.cons_ne_nil t [])

theorem join_append_clauseIf (t : String) {ts : List String} (h : ts ≠ []) :
    join " " (ts ++ Select.clauseIf (t ≠ "") t) = join " " ts ++ spaced t := by
  by_cases ht : t = ""
  · simp [Select.clauseIf, spaced, ht]
  · simp [Select.clauseIf, spaced, ht, join_snoc " " t h, String.append_assoc]

theorem Page.clause_ne_empty (p : Page) (c : PageConfig) : p.clause c ≠ "" := by
  intro h
  have htext := congrArg String.toList h
  simp [clause] at htext

namespace Clauses

def sql (c : Clauses) (table : String) : String :=
  "SELECT " ++ c.columns ++ " FROM " ++ table ++ " " ++ c.conditions ++ spaced c.order ++
    spaced c.page

end Clauses

namespace ClauseRequest

/-- The statement that the clauses of a request make, and the cursor after it. -/
def byHand (r : ClauseRequest) (table : String) (g : Group) :
    Except Invalid (Statement × Nat) := do
  let compiled ← g.compile
  let clauses ← compiled.clauses { r with cursor := 0 }
  return (⟨clauses.sql table, compiled.values⟩, clauses.cursor)

/-- The clauses of a request as steps, those that are requested. -/
def steps (r : ClauseRequest) (g : Group) : List Select.Step :=
  [.columns r.columns] ++ (r.sortable.map .sortable).toList ++ (r.order.map .orderBy).toList ++
    (r.page.map .paginate).toList ++ [.configure r.config, .filter g]

def stepwise (r : ClauseRequest) (table : String) (g : Group) : Select :=
  (Select.new r.dialect (.table table)).applyAll (r.steps g)

/-- The clauses of a request without conditions. -/
def unfiltered (r : ClauseRequest) (table : String) : Select where
  dialect := r.dialect
  config := r.config
  columns := r.columns
  source := table
  order := r.order
  sortable := r.sortable
  page := r.page

theorem stepwise_eq (r : ClauseRequest) (table : String) (g : Group) :
    r.stepwise table g = (r.unfiltered table).filter g := by
  obtain ⟨columns, page, order, sortable, dialect, cursor, config⟩ := r
  cases sortable <;> cases order <;> cases page <;> rfl

def orderText (r : ClauseRequest) : Except Invalid String :=
  match r.order with
  | some items => orderClause items r.sortable
  | none => .ok ""

def pageText (r : ClauseRequest) : String :=
  match r.page with
  | some p => p.clause r.config
  | none => ""

theorem conjunction_singleton (text : String) : Select.conjunction [text] = text := by
  by_cases h : text = tautology <;> simp [Select.conjunction, h, join]

/-- The state after the conditions, which bind the values of the group. -/
def filtered (r : ClauseRequest) (table text : String) (next : Nat) (values : List Value) :
    Select :=
  { r.unfiltered table with
    filters := [text]
    bound := values.map (Bound.mk .filter)
    cursor := next }

section

variable (r : ClauseRequest) (table text order : String) (next : Nat) (values : List Value)

theorem clauseTexts_filtered :
    join " " ((r.filtered table text next values).clauseTexts order) =
      "SELECT " ++ columnList r.columns ++ " FROM " ++ table ++ " " ++ ("WHERE " ++ text) ++
        spaced order ++ spaced r.pageText := by
  have hpage : (match r.page with
      | some p => [p.clause r.config]
      | none => []) = Select.clauseIf (r.pageText ≠ "") r.pageText := by
    rw [pageText]
    cases r.page with
    | none => rfl
    | some p => simp [Select.clauseIf, p.clause_ne_empty]
  have hclauses : (r.filtered table text next values).clauseTexts order =
      ["SELECT " ++ columnList r.columns ++ " FROM " ++ table, "WHERE " ++ text] ++
        Select.clauseIf (order ≠ "") order ++ Select.clauseIf (r.pageText ≠ "") r.pageText := by
    rw [← hpage]
    simp only [Select.clauseTexts, filtered, unfiltered, conjunction_singleton]
    rfl
  rw [hclauses, join_append_clauseIf _ (by simp), join_append_clauseIf _ (by simp)]
  rfl

theorem orderedValues_filtered : (r.filtered table text next values).orderedValues = values :=
  Select.orderedValues_of_slot rfl

/-- The statement of the clauses, which depends on the group only by its text and its values. -/
def assembled : Except Invalid (Statement × Nat) :=
  r.orderText.map fun order =>
    (⟨"SELECT " ++ columnList r.columns ++ " FROM " ++ table ++ " " ++ ("WHERE " ++ text) ++
      spaced order ++ spaced r.pageText, values⟩, next)

theorem build_filtered :
    (r.filtered table text next values).build.map (·, next) =
      r.assembled table text next values := by
  have horder : (r.filtered table text next values).orderText = r.orderText := rfl
  rw [Select.build, orderedValues_filtered, horder, assembled]
  simp only [clauseTexts_filtered]
  cases r.orderText <;> rfl

end

section

variable {r : ClauseRequest}

theorem clauses_of_text {c : Fragments} {text : String} {next : Nat}
    (h : c.text r.dialect r.cursor = .ok (text, next)) :
    c.clauses r = r.orderText.map fun order =>
      ⟨columnList r.columns, "WHERE " ++ text, order, r.pageText, next⟩ := by
  rw [Fragments.clauses, h, orderText, pageText]
  cases r.order with
  | none => rfl
  | some items => cases orderClause items r.sortable <;> rfl

/-- Step by step, a group that cannot be written is the error, and else the order can be one. -/
theorem build_filter (r : ClauseRequest) (table : String) (g : Group) :
    ((r.unfiltered table).filter g).build.map
        (·, ((r.unfiltered table).filter g).cursor) =
      (r.unfiltered table).groupText g >>= fun (text, next, values) =>
        r.assembled table text next values := by
  rw [Select.filter]
  cases (r.unfiltered table).groupText g with
  | error why => rfl
  | ok written => exact build_filtered ..

/-- By hand, the errors come in the same order. -/
theorem byHand_eq (r : ClauseRequest) (table : String) (g : Group) :
    r.byHand table g = (r.unfiltered table).groupText g >>= fun (text, next, values) =>
      r.assembled table text next values := by
  rw [byHand, Select.groupText]
  cases g.compile with
  | error why => rfl
  | ok c =>
    change (c.clauses { r with cursor := 0 } >>= _) = (c.text r.dialect 0 >>= _) >>= _
    cases htext : c.text r.dialect 0 with
    | error why =>
      rw [Fragments.clauses, htext]
      rfl
    | ok written =>
      obtain ⟨text, next⟩ := written
      have horder : ClauseRequest.orderText { r with cursor := 0 } = r.orderText := rfl
      rw [clauses_of_text htext, horder]
      change _ = r.assembled table text next c.values
      rw [assembled]
      cases r.orderText <;> rfl

end

/-- Clauses that are set step by step and clauses that are put together by hand make the same
statement with the same values and the same cursor after it, or fail for the same reason. -/
theorem build_stepwise (r : ClauseRequest) (table : String) (g : Group) :
    (r.stepwise table g).build.map (fun q => (q, (r.stepwise table g).cursor)) =
      r.byHand table g := by
  rw [stepwise_eq, build_filter, byHand_eq]

end ClauseRequest

end Quarry
