import Quarry.Proofs.Select.Placeholders

namespace Quarry.Select

open Text Placeholder

/-- The source has a block of consecutive numbers, one for each of its values, and the conditions
have the others up to the cursor. -/
def SharesNumbers (s : Select) : Prop :=
  ∃ before after, s.cursor = before + s.sourceParams + after ∧
    (placeholders .numbered s.source).Perm
      ((List.range' (1 + before) s.sourceParams).map (Dialect.placeholder .numbered)) ∧
    ((s.filters ++ s.havings).flatMap (placeholders .numbered)).Perm
      ((List.range' 1 before ++ List.range' (1 + before + s.sourceParams) after).map
        (Dialect.placeholder .numbered))

section

variable {s : Select} {l : Layout}

/-- Where a block is taken out of the numbers from one on, those before it and those after it are
left. -/
theorem exists_around {ns ms : List Nat} {first size total : Nat}
    (hall : (ns ++ ms).Perm (List.range' 1 total)) (hblock : ns.Perm (List.range' first size)) :
    ∃ before after, total = before + size + after ∧ ns.Perm (List.range' (1 + before) size) ∧
      ms.Perm (List.range' 1 before ++ List.range' (1 + before + size) after) := by
  cases size with
  | zero =>
    -- An empty block stands anywhere, so it may as well stand in front of all numbers.
    have hnil : ns = [] := hblock.eq_nil
    subst hnil
    exact ⟨0, total, by omega, .refl _, hall⟩
  | succ size =>
    have hbounds (n : Nat) (hn : n ∈ List.range' first (size + 1)) : 1 ≤ n ∧ n < 1 + total := by
      have hmem := hall.subset (List.mem_append_left ms (hblock.symm.subset hn))
      exact List.mem_range'_1.1 hmem
    have hfirst := hbounds first (List.mem_range'_1.2 (by omega))
    have hlast := hbounds (first + size) (List.mem_range'_1.2 (by omega))
    obtain ⟨before, rfl⟩ := Nat.exists_eq_add_of_le hfirst.1
    obtain ⟨after, htotal⟩ : ∃ after, total = before + (size + 1) + after :=
      Nat.exists_eq_add_of_le (by omega)
    have hsplit : List.range' 1 total = List.range' 1 before ++
        (List.range' (1 + before) (size + 1) ++ List.range' (1 + before + (size + 1)) after) := by
      rw [List.range'_append_1, List.range'_append_1, htotal, Nat.add_assoc]
    rw [hsplit] at hall
    have hmoved := hall.trans (List.perm_append_comm_assoc ..)
    have hrest := (hblock.symm.append_right ms).trans hmoved
    exact ⟨before, after, htotal, hblock, (List.perm_append_left_iff _).1 hrest⟩

/-- The placeholders of texts are those of their passages. -/
theorem Reads.placeholders {d : Dialect} {texts : List String} {ps : List Passage}
    (h : Reads d texts ps) :
    texts.flatMap (Placeholder.placeholders d) =
      (numbers (Passage.parts ps.flatten)).map d.placeholder := by
  rw [h.texts]
  have hlegible := h.legible
  clear h
  induction ps with
  | nil => rfl
  | cons p ps ih =>
    have ih := ih fun q hq => hlegible q (.tail _ hq)
    have hp : Placeholder.placeholders d (p.text d) =
        (numbers (Passage.parts p)).map d.placeholder := placeholders_write (hlegible p (.head _))
    rw [List.map_cons, List.flatMap_cons, hp, ih, List.flatten_cons, Passage.parts_append,
      numbers_append, List.map_append]

theorem Follows.sharesNumbers (hc : s.Counted) (h : s.Follows l) (hd : s.dialect = .numbered) :
    s.SharesNumbers := by
  obtain ⟨first, hblock⟩ := h.block hd
  have hall := (h.numbered hd).numbers rfl
  rw [length_values hc, Layout.whole, Passage.parts_append, numbers_append] at hall
  obtain ⟨before, after, htotal, hsource, hrest⟩ := exists_around hall hblock
  have hsourceText := h.source.placeholders
  have hfilters := h.filters.placeholders
  have hhavings := h.havings.placeholders
  rw [hd] at hsourceText hfilters hhavings
  rw [List.flatMap_singleton, List.flatten_singleton] at hsourceText
  rw [Passage.parts_append, numbers_append] at hrest
  refine ⟨before, after, htotal, ?_, ?_⟩
  · rw [hsourceText]
    exact hsource.map _
  · rw [List.flatMap_append, hfilters, hhavings, ← List.map_append]
    exact hrest.map _

theorem Counted.sourceParams_le (h : s.Counted) : s.sourceParams ≤ s.cursor := by
  have hlength := Bound.length_filter_ne s.bound
  rw [h.cursor, h.source]
  omega

/-- Whatever is accepted or refused on the way, and whatever subqueries are taken, the cursor counts
the values and the source gives back no more numbers than were given out. As long as nothing was
refused and the texts are plain, numbered placeholders are shared out between the source and the
conditions. -/
theorem numbers_shared_out :
    (∀ (d : Dialect) (src : Source) (steps : List Step), ((new d src).applyAll steps).Counted ∧
        ((new d src).applyAll steps).sourceParams ≤ ((new d src).applyAll steps).cursor) ∧
      ∀ s : Select, Reached Plain s → s.error = none → s.dialect = .numbered →
        s.SharesNumbers := by
  constructor
  · intro d src steps
    have hc := (counted_new d src).applyAll steps
    exact ⟨hc, hc.sourceParams_le⟩
  · intro s hs hok hd
    obtain ⟨l, hl⟩ := hs.follows hok
    exact hl.sharesNumbers hs.counted hd

def lateOrders : Select :=
  (new .numbered (.table "orders")).filter ⟨⟨[("state", .value (.text "late"))]⟩, none⟩

/-- The table is replaced when the condition has its number already. -/
def ofLateOrders : Select :=
  let users := (new .numbered (.table "users")).filter ⟨⟨[("active", .value (.bool true))]⟩, none⟩
  match lateOrders.toSubquery "o" with
  | .ok sub => users.fromSource (.subquery sub)
  | .error _ => users

theorem reached_ofLateOrders : Reached Plain ofLateOrders := by
  have horders : Reached Plain (new .numbered (.table "orders")) := .table _ (by decide)
  have husers : Reached Plain (new .numbered (.table "users")) := .table _ (by decide)
  have hcount : (lateOrders.toSubquery "o").toOption.map (fun sub => sub.values.length) =
      some 1 := by decide +kernel
  unfold ofLateOrders
  simp only
  split
  · rename_i sub hsub
    have hlength : sub.values.length = 1 := by
      rw [hsub] at hcount
      exact Option.some.inj hcount
    have hfits : sub.Fits := by
      rw [Subquery.Fits, hlength]
      decide
    exact .splice (husers.filter _) (horders.filter _) hsub hfits
  · exact husers.filter _

theorem numbers_shared_out_ofLateOrders :
    Reached Plain ofLateOrders ∧ ofLateOrders.error = none ∧ ofLateOrders.dialect = .numbered ∧
      ofLateOrders.source = "(SELECT * FROM orders WHERE state = $2) AS o" ∧
      ofLateOrders.filters = ["active = $1"] ∧ ofLateOrders.SharesNumbers := by
  have hok : ofLateOrders.error = none := by decide +kernel
  have hd : ofLateOrders.dialect = .numbered := by decide +kernel
  have hnumbers := numbers_shared_out.2 ofLateOrders reached_ofLateOrders hok hd
  exact ⟨reached_ofLateOrders, hok, hd, by decide +kernel, by decide +kernel, hnumbers⟩

end

end Quarry.Select
