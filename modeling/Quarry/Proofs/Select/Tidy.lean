import Quarry.Proofs.Select.Reached

namespace Quarry

open Text Placeholder

/-- A text without quotes and without the characters that start a placeholder. -/
def Plain (text : String) : Prop :=
  ∀ c ∈ text.toList, c ≠ '\'' ∧ c ≠ '"' ∧ c ≠ '$' ∧ c ≠ '?'

instance (text : String) : Decidable (Plain text) :=
  List.decidableBAll _ text.toList

section

variable {d : Dialect}

theorem Plain.inert {text : String} (h : Plain text) (d : Dialect) : Inert d text.toList := by
  refine inert_of_all (List.all_eq_true.2 fun c hc => ?_)
  obtain ⟨hsingle, hdouble, hdollar, hmark⟩ := h c hc
  exact Name.isInert_of_ne hsingle hdouble hdollar hmark

theorem inert_append {s t : String} (hs : Inert d s.toList) (ht : Inert d t.toList) :
    Inert d (s ++ t).toList := by
  rw [String.toList_append]
  exact hs.append ht

theorem inert_join {sep : String} {ts : List String} (hsep : Inert d sep.toList)
    (h : ∀ t ∈ ts, Inert d t.toList) : Inert d (join sep ts).toList := by
  induction ts with
  | nil => exact .nil
  | cons t ts ih =>
    have ht := h t (.head _)
    have ih := ih fun u hu => h u (.tail _ hu)
    cases ts with
    | nil => exact ht
    | cons u us => exact inert_append (inert_append ht hsep) ih

theorem inert_of_join {j : Join} {kind : JoinKind} {sql : String} (h : j.text kind = .ok sql) :
    Inert d sql.toList := by
  obtain ⟨_, hcheck, h⟩ := of_bind h
  cases h
  obtain ⟨_, htarget, hcheck⟩ := of_bind (of_naming hcheck)
  obtain ⟨_, htargetField, hcheck⟩ := of_bind hcheck
  obtain ⟨_, hsource, hcheck⟩ := of_bind hcheck
  obtain ⟨_, hsourceField, hrename⟩ := of_bind hcheck
  have htarget := Name.inert_of_checkIdent (d := d) htarget
  have hdot : Inert d ".".toList := inert_of_all (by cases d <;> decide)
  have has : Inert d (Join.asClause j.rename).toList ∧ Inert d j.qualifier.toList := by
    rw [Join.qualifier]
    cases ha : j.rename with
    | none => exact ⟨.nil, htarget⟩
    | some a =>
      rw [ha] at hrename
      have ha := Name.inert_of_checkAlias (d := d) hrename
      exact ⟨inert_append (inert_of_all (by cases d <;> decide)) ha, ha⟩
  have hkind : Inert d kind.sql.toList := inert_of_all (by cases kind <;> cases d <;> decide)
  have hblank : Inert d " ".toList := inert_of_all (by cases d <;> decide)
  have hon : Inert d " ON ".toList := inert_of_all (by cases d <;> decide)
  have heq : Inert d " = ".toList := inert_of_all (by cases d <;> decide)
  have hleft := inert_append (inert_append has.2 hdot) (Name.inert_of_checkIdent htargetField)
  have hright := inert_append (inert_append (Name.inert_of_checkIdent hsource) hdot)
    (Name.inert_of_checkIdent hsourceField)
  have hhead := inert_append (inert_append (inert_append hkind hblank) htarget) has.1
  have hall := inert_append (inert_append (inert_append hhead hon) hleft) (inert_append heq hright)
  simpa [Join.sql, String.append_assoc] using hall

theorem inert_of_isDigit {c : Char} (h : c.isDigit) : isInert d c := by
  have hne {x : Char} (hx : x.isDigit = false) : c ≠ x := by
    rintro rfl
    rw [hx] at h
    cases h
  exact Name.isInert_of_ne (hne rfl) (hne rfl) (hne rfl) (hne rfl)

theorem inert_writeInt (n : Int) : Inert d (Decimal.writeInt n).toList := by
  have hwrite (k : Nat) : Inert d (Decimal.write k).toList := by
    rw [Decimal.write, String.toList_ofList]
    refine inert_of_all (List.all_eq_true.2 fun c hc => ?_)
    exact inert_of_isDigit (Decimal.isDigit_of_mem_digits hc)
  rw [Decimal.writeInt]
  split
  · exact inert_append (inert_of_all (by cases d <;> decide)) (hwrite _)
  · exact hwrite _

theorem inert_page (p : Page) (c : PageConfig) : Inert d (p.clause c).toList := by
  have hlimit : Inert d "LIMIT ".toList := inert_of_all (by cases d <;> decide)
  have hoffset : Inert d " OFFSET ".toList := inert_of_all (by cases d <;> decide)
  exact inert_append (inert_append (inert_append hlimit (inert_writeInt _)) hoffset)
    (inert_writeInt _)

end

namespace Select

structure Tidy (s : Select) : Prop where
  columns : ∀ text ∈ s.columns, Inert s.dialect text.toList
  joins : ∀ text ∈ s.joins, Inert s.dialect text.toList
  groups : ∀ text ∈ s.groups, Inert s.dialect text.toList
  sortable : ∀ fields ∈ s.sortable, ∀ text ∈ fields.fields, Inert s.dialect text.toList

section

variable {s : Select}

theorem Tidy.columnList (h : s.Tidy) : Inert s.dialect (columnList s.columns).toList := by
  rw [Quarry.columnList]
  split
  · exact inert_of_all (by cases s.dialect <;> decide)
  · exact inert_join (inert_of_all (by cases s.dialect <;> decide)) h.columns

theorem Tidy.orderText (h : s.Tidy) {text : String} (ho : s.orderText = .ok text) :
    Inert s.dialect text.toList := by
  rw [Select.orderText] at ho
  split at ho
  · rw [orderClause] at ho
    split at ho
    · cases ho
      exact .nil
    · obtain ⟨ts, hts, ho⟩ := of_bind ho
      cases ho
      refine inert_append (inert_of_all (by cases s.dialect <;> decide))
        (inert_join (inert_of_all (by cases s.dialect <;> decide)) fun t ht => ?_)
      obtain ⟨item, -, hitem⟩ := exists_of_mapM hts ht
      obtain ⟨_, hcheck, hitem⟩ := of_bind hitem
      cases hitem
      have hblank : Inert s.dialect " ".toList := inert_of_all (by cases s.dialect <;> decide)
      have hdirection : Inert s.dialect item.direction.sql.toList :=
        inert_of_all (by cases item.direction <;> cases s.dialect <;> decide)
      refine inert_append (inert_append ?_ hblank) hdirection
      unfold OrderItem.check at hcheck
      split at hcheck
      · rename_i fields hfields
        split at hcheck
        · rename_i hmem
          exact h.sortable fields hfields _ (by simpa [Sortable.contains] using hmem)
        · cases hcheck
      · exact Name.inert_of_checkIdent (of_naming hcheck)
  · cases ho
    exact .nil

theorem Tidy.reject (h : s.Tidy) (why : Invalid) : (s.reject why).Tidy :=
  ⟨h.columns, h.joins, h.groups, h.sortable⟩

theorem Tidy.setSource (h : s.Tidy) (src : Source) : (s.setSource src).Tidy := by
  unfold Select.setSource
  split
  · exact ⟨h.columns, h.joins, h.groups, h.sortable⟩
  · split <;> exact ⟨h.columns, h.joins, h.groups, h.sortable⟩

theorem Tidy.fromSource (h : s.Tidy) (src : Source) : (s.fromSource src).Tidy := by
  have hdrop : s.dropSource.Tidy := ⟨h.columns, h.joins, h.groups, h.sortable⟩
  rw [Select.fromSource]
  split
  · exact h.setSource src
  · split
    · exact ⟨h.columns, h.joins, h.groups, h.sortable⟩
    · exact hdrop.setSource src

theorem tidy_new (d : Dialect) (src : Source) : (new d src).Tidy := by
  have hempty : ({ dialect := d } : Select).Tidy :=
    ⟨List.forall_mem_nil _, List.forall_mem_nil _, List.forall_mem_nil _, fun _ h => nomatch h⟩
  exact hempty.fromSource src

theorem Tidy.select (h : s.Tidy) {columns : List String}
    (hc : ∀ text ∈ columns, Inert s.dialect text.toList) : (s.select columns).Tidy :=
  ⟨hc, h.joins, h.groups, h.sortable⟩

theorem Tidy.count (h : s.Tidy) : s.count.Tidy := by
  have hcolumns (d : Dialect) : ∀ text ∈ countColumns, Inert d text.toList := by
    intro text htext
    cases List.mem_singleton.1 htext
    exact inert_of_all (by cases d <;> decide)
  have hunpaged : s.unpaged.Tidy := ⟨h.columns, h.joins, h.groups, h.sortable⟩
  obtain ⟨-, hcount⟩ | ⟨-, -, hcount⟩ | ⟨-, -, hcount⟩ := s.count_cases
  · rw [hcount]
    exact hunpaged.select (hcolumns _)
  · rw [hcount]
    exact ⟨hcolumns _, nofun, nofun, nofun⟩
  · rw [hcount]
    exact hunpaged

theorem Tidy.join (h : s.Tidy) (kind : JoinKind) (j : Join) : (s.join kind j).Tidy := by
  obtain ⟨hsql, hjoin⟩ | ⟨why, hjoin⟩ := s.join_cases kind j
  · rw [hjoin]
    refine ⟨h.columns, fun text htext => ?_, h.groups, h.sortable⟩
    rcases List.mem_append.1 htext with htext | htext
    · exact h.joins text htext
    · cases List.mem_singleton.1 htext
      exact inert_of_join hsql
  · rw [hjoin]
    exact h.reject why

theorem Tidy.apply (h : s.Tidy) {st : Step} (hraw : ∀ text ∈ st.rawTexts, Plain text) :
    (s.apply st).Tidy := by
  cases st with
  | columns names => exact h.select fun text htext => (hraw text htext).inert _
  | source src => exact h.fromSource src
  | join kind j => exact h.join kind j
  | filter g =>
    change (s.filter g).Tidy
    obtain ⟨_, -, hfilter⟩ | ⟨why, hfilter⟩ := s.filter_cases g
    · rw [hfilter]
      exact ⟨h.columns, h.joins, h.groups, h.sortable⟩
    · rw [hfilter]
      exact h.reject why
  | having g =>
    change (s.having g).Tidy
    obtain ⟨_, -, hhaving⟩ | ⟨why, hhaving⟩ := s.having_cases g
    · rw [hhaving]
      exact ⟨h.columns, h.joins, h.groups, h.sortable⟩
    · rw [hhaving]
      exact h.reject why
  | groupBy names =>
    refine ⟨h.columns, h.joins, fun text htext => ?_, h.sortable⟩
    rcases List.mem_append.1 htext with htext | htext
    · exact h.groups text htext
    · exact (hraw text htext).inert _
  | sortable fields =>
    refine ⟨h.columns, h.joins, h.groups, fun fs hfs text htext => ?_⟩
    cases Option.some.inj hfs
    exact (hraw text htext).inert _
  | count => exact h.count
  | _ => exact ⟨h.columns, h.joins, h.groups, h.sortable⟩

theorem Reached.tidy (h : Reached Plain s) : s.Tidy := by
  induction h with
  | table d h => exact tidy_new d _
  | subquery d ht hsub => exact tidy_new d _
  | splice hs ht hsub hfits ih => exact ih.fromSource _
  | step hs hraw hno ih => exact ih.apply hraw

end

end Select

end Quarry
