import Quarry.Proofs.Select.Counted

namespace Quarry

open Text

theorem join_append_cons (sep s t : String) (ts : List String) :
    join sep ((s ++ t) :: ts) = s ++ join sep (t :: ts) := by
  cases ts with
  | nil => rfl
  | cons u us => simp only [join, String.append_assoc]

namespace Select

/-- A SELECT without its order and its page, as a subquery. -/
def inner (s : Select) : Subquery :=
  ⟨Text.join " " (s.unpaged.clauseTexts ""), s.orderedValues, "t", s.dialect⟩

/-- Counts the rows of a subquery. -/
def counting (sub : Subquery) (config : PageConfig) : Select where
  dialect := sub.dialect
  config := config
  columns := countColumns
  source := "(" ++ sub.sql ++ ") AS " ++ sub.name
  sourceParams := sub.values.length
  bound := sub.values.map (Bound.mk .source)
  cursor := sub.values.length

/-- What the count of a SELECT is, next to the SELECT without its order and its page: the same text
with other columns, or all of that text as what is selected from. -/
structure CountsRows (s : Select) (q c : Statement) : Prop where
  values : c.values = q.values
  rows : s.groups = [] ∧ s.havings = [] →
    ∃ rest, q.sql = "SELECT " ++ columnList s.columns ++ " FROM " ++ rest ∧
      c.sql = "SELECT COUNT(*) FROM " ++ rest
  groups : ¬(s.groups = [] ∧ s.havings = []) → c.sql = "SELECT COUNT(*) FROM (" ++ q.sql ++ ") AS t"

section

variable {s : Select} {d : Dialect} {src : Source} {sub : Subquery}

theorem setSource_subquery (hd : sub.dialect = s.dialect)
    (hname : Name.checkAlias sub.name = .ok ()) :
    s.setSource (.subquery sub) =
      { s.addValues .source sub.values with
        source := "(" ++ Placeholder.shift s.dialect sub.sql s.cursor ++ ") AS " ++ sub.name
        sourceParams := sub.values.length
        cursor := s.cursor + sub.values.length } := by
  have hcheck : s.checkSubquery sub = .ok () := by
    rw [checkSubquery, if_pos hd, hname]
    rfl
  rw [setSource, hcheck]

/-- Nothing is numbered in front of the source of a new SELECT. -/
theorem new_subquery (hname : Name.checkAlias sub.name = .ok ()) (config : PageConfig) :
    ((new sub.dialect (.subquery sub)).configure config).select countColumns =
      counting sub config := by
  have hshift : Placeholder.shift sub.dialect sub.sql 0 = sub.sql := if_pos (.inl rfl)
  rw [new, fromSource, if_pos rfl, setSource_subquery rfl hname]
  simp only [addValues, configure, Select.select, counting, hshift, List.nil_append, Nat.zero_add]

theorem build_of_unordered (h : s.error = none) (horder : s.order = none) :
    s.build = .ok ⟨Text.join " " (s.clauseTexts ""), s.orderedValues⟩ := by
  rw [build, orderText, h, horder]
  rfl

theorem toSubquery_unpaged (h : s.error = none) : s.unpaged.toSubquery "t" = .ok s.inner := by
  have hname : Name.checkAlias "t" = .ok () := of_toOption (by decide +kernel)
  have hbuild : s.unpaged.build = _ := build_of_unordered h rfl
  rw [toSubquery, hname, hbuild]
  rfl

theorem count_rows (hrows : s.groups = [] ∧ s.havings = []) :
    s.count = s.unpaged.select countColumns :=
  if_pos hrows

theorem count_groups (hgroups : ¬(s.groups = [] ∧ s.havings = [])) (h : s.error = none) :
    s.count = counting s.inner s.config := by
  have hname : Name.checkAlias "t" = .ok () := of_toOption (by decide +kernel)
  refine (if_neg hgroups).trans ?_
  rw [toSubquery_unpaged h]
  exact @new_subquery s.inner hname s.config

/-- Groups of which a step was rejected are not counted. -/
theorem count_groups_of_error (hgroups : ¬(s.groups = [] ∧ s.havings = [])) {why : Invalid}
    (h : s.error = some why) : s.count = s.unpaged := by
  have hname : Name.checkAlias "t" = .ok () := of_toOption (by decide +kernel)
  have hbuild : s.unpaged.build = .error why := by
    rw [build, show s.unpaged.error = some why from h]
  have hsub : s.unpaged.toSubquery "t" = .error why := by
    rw [toSubquery, hname, hbuild]
    rfl
  refine (if_neg hgroups).trans ?_
  rw [hsub]
  simp only [reject, unpaged, h, Option.some_or]

/-- All that counting can come to. -/
theorem count_cases (s : Select) :
    (s.groups = [] ∧ s.havings = []) ∧ s.count = s.unpaged.select countColumns ∨
    ¬(s.groups = [] ∧ s.havings = []) ∧ s.error = none ∧ s.count = counting s.inner s.config ∨
    ¬(s.groups = [] ∧ s.havings = []) ∧ s.error ≠ none ∧ s.count = s.unpaged := by
  by_cases hgroups : s.groups = [] ∧ s.havings = []
  · exact .inl ⟨hgroups, count_rows hgroups⟩
  · cases h : s.error with
    | none => exact .inr (.inl ⟨hgroups, rfl, count_groups hgroups h⟩)
    | some why => exact .inr (.inr ⟨hgroups, nofun, count_groups_of_error hgroups h⟩)

theorem error_count (s : Select) : s.count.error = s.error := by
  obtain ⟨-, hcount⟩ | ⟨-, h, hcount⟩ | ⟨-, -, hcount⟩ := s.count_cases
  · rw [hcount]
    rfl
  · rw [hcount, h]
    rfl
  · rw [hcount]
    rfl

theorem count_count (s : Select) : s.count.count = s.count := by
  obtain ⟨hrows, hcount⟩ | ⟨-, -, hcount⟩ | ⟨hgroups, h, hcount⟩ := s.count_cases
  · rw [hcount]
    exact count_rows hrows
  · rw [hcount]
    exact count_rows ⟨rfl, rfl⟩
  · obtain ⟨why, hwhy⟩ := Option.ne_none_iff_exists'.1 h
    rw [hcount]
    exact count_groups_of_error hgroups hwhy

theorem cursor_count (hc : s.Counted) : s.count.cursor = s.cursor := by
  obtain ⟨-, hcount⟩ | ⟨-, -, hcount⟩ | ⟨-, -, hcount⟩ := s.count_cases
  · rw [hcount]
    rfl
  · rw [hcount]
    exact length_orderedValues hc
  · rw [hcount]
    rfl

/-- The columns are told from the rest of the text. -/
theorem text_columns (s : Select) (order : String) :
    Text.join " " (s.clauseTexts order) = "SELECT " ++ columnList s.columns ++ " FROM " ++
      Text.join " " (s.source :: (s.clauseTexts order).tail) :=
  join_append_cons " " ("SELECT " ++ columnList s.columns ++ " FROM ") s.source _

theorem text_counting (sub : Subquery) (config : PageConfig) :
    Text.join " " ((counting sub config).clauseTexts "") =
      "SELECT COUNT(*) FROM (" ++ sub.sql ++ ") AS " ++ sub.name := by
  have hclauses : (counting sub config).clauseTexts "" =
      ["SELECT " ++ columnList countColumns ++ " FROM " ++
        ("(" ++ sub.sql ++ ") AS " ++ sub.name)] :=
    rfl
  have hopen : "SELECT " ++ columnList countColumns ++ " FROM " ++ "(" = "SELECT COUNT(*) FROM (" :=
    rfl
  rw [hclauses, Text.join, ← hopen]
  simp only [String.append_assoc]

theorem build_count (h : s.error = none) :
    ∃ c, s.count.build = .ok c ∧ s.CountsRows ⟨s.inner.sql, s.inner.values⟩ c := by
  by_cases hgroups : s.groups = [] ∧ s.havings = []
  · rw [count_rows hgroups]
    refine ⟨_, build_of_unordered h rfl, rfl, fun _ => ?_, fun hne => absurd hgroups hne⟩
    exact ⟨_, text_columns s.unpaged "", text_columns (s.unpaged.select countColumns) ""⟩
  · rw [count_groups hgroups h]
    refine ⟨_, build_of_unordered rfl rfl, orderedValues_of_slot rfl,
      fun hrows => absurd hrows hgroups, fun _ => ?_⟩
    have htext := text_counting s.inner s.config
    rwa [String.append_assoc] at htext

/-- The rows of a SELECT that no step was rejected of can be counted, in the same cursor and with
the same values in the same order. A count is the same when it is counted again. -/
theorem count_builds {steps : List Step} (hs : s = (new d src).applyAll steps)
    (h : s.error = none) :
    ∃ q c, s.unpaged.build = .ok q ∧ s.count.build = .ok c ∧ s.CountsRows q c ∧
      s.count.cursor = s.cursor ∧ s.count.count.build = .ok c := by
  have hc : s.Counted := by
    rw [hs]
    exact (counted_new d src).applyAll steps
  obtain ⟨c, hbuild, hcounts⟩ := build_count h
  refine ⟨_, c, build_of_unordered h rfl, hbuild, hcounts, cursor_count hc, ?_⟩
  rw [count_count, hbuild]

def repeatBuyers : Select :=
  (new .unnumbered (.table "orders")).applyAll
    [.having ⟨⟨[("COUNT(*)", .object [.between (.int 3) (.int 9)])]⟩, none⟩, .groupBy ["customer"],
      .filter ⟨⟨[("state", .value (.text "paid"))]⟩, none⟩, .columns ["customer"],
      .orderBy [⟨"customer", .asc⟩], .paginate {}]

theorem count_builds_repeatBuyers :
    repeatBuyers.error = none ∧ ∃ c, repeatBuyers.count.build = .ok c ∧
      c.sql = "SELECT COUNT(*) FROM (SELECT customer FROM orders WHERE state = ? " ++
        "GROUP BY customer HAVING COUNT(*) BETWEEN ? AND ?) AS t" ∧
      c.values.map Value.typeName = ["text", "int", "int"] ∧ repeatBuyers.count.cursor = 3 ∧
      repeatBuyers.count.count.build = .ok c := by
  have herror : repeatBuyers.error = none := by decide +kernel
  have hgroups : ¬(repeatBuyers.groups = [] ∧ repeatBuyers.havings = []) := by decide +kernel
  have hsql : repeatBuyers.inner.sql = "SELECT customer FROM orders WHERE state = ? " ++
      "GROUP BY customer HAVING COUNT(*) BETWEEN ? AND ?" := by
    decide +kernel
  have hvalues : repeatBuyers.inner.values.map Value.typeName = ["text", "int", "int"] := by
    decide +kernel
  have hcursor : repeatBuyers.cursor = 3 := by decide +kernel
  obtain ⟨q, c, hq, hc, hcounts, hsame, hagain⟩ := count_builds rfl herror
  cases hq.symm.trans (build_of_unordered (s := repeatBuyers.unpaged) herror rfl)
  refine ⟨herror, c, hc, ?_, ?_, hsame.trans hcursor, hagain⟩
  · rw [hcounts.groups hgroups]
    change "SELECT COUNT(*) FROM (" ++ repeatBuyers.inner.sql ++ ") AS t" = _
    rw [hsql]
    rfl
  · rw [hcounts.values]
    exact hvalues

end

end Select

end Quarry
