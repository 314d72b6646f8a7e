import Quarry.Proofs.Statement.Passage

namespace Quarry

open Text Placeholder

namespace Passage

/-- Each value of a passage is the one that its placeholder stands for. -/
structure Binds (d : Dialect) (vs : List Value) (ps : Passage) : Prop where
  numbers : d = .numbered → (Placeholder.numbers (parts ps)).Perm (List.range' 1 vs.length)
  named : d = .numbered → ∀ n v, .bound n v ∈ ps → nth? vs n = some v
  inOrder : d = .unnumbered → vs = values ps

section

variable {d : Dialect} {vs : List Value} {ps : Passage}

theorem map_nth?_numbers (h : ∀ n v, .bound n v ∈ ps → nth? vs n = some v) :
    (numbers (parts ps)).map (nth? vs) = (values ps).map some := by
  induction ps with
  | nil => rfl
  | cons c ps ih =>
    have ih := ih fun n v hmem => h n v (.tail _ hmem)
    cases c with
    | fixed p => exact ih
    | bound n v =>
      have hn : nth? vs n = some v := h n v (.head _)
      change nth? vs n :: (numbers (parts ps)).map (nth? vs) = some v :: (values ps).map some
      rw [hn, ih]

theorem map_nth?_range' (vs : List Value) :
    (List.range' 1 vs.length).map (nth? vs) = vs.map some := by
  apply List.ext_getElem?
  intro i
  rw [List.getElem?_map, List.getElem?_map]
  by_cases hi : i < vs.length
  · rw [List.getElem?_range' hi, List.getElem?_eq_getElem hi]
    simp [Nat.add_comm 1 i, nth?, hi]
  · simp [hi]

/-- A passage has all values, but not always in the order in which they are bound. -/
theorem Binds.perm (h : Binds d vs ps) : (values ps).Perm vs := by
  cases d with
  | numbered =>
    have hsome : ((values ps).map some).Perm (vs.map some) := by
      rw [← map_nth?_numbers (h.named rfl), ← map_nth?_range']
      exact (h.numbers rfl).map _
    have hid := hsome.filterMap id
    simpa [List.filterMap_map, Function.comp_def] using hid
  | unnumbered => rw [h.inOrder rfl]

theorem Binds.length_numbers (h : Binds d vs ps) :
    (Placeholder.numbers (parts ps)).length = vs.length := by
  rw [Passage.length_numbers, h.perm.length_eq]

/-- The placeholders of a text are those of the numbers from one up to the number of values. -/
theorem Binds.placeholders_text (h : Binds d vs ps) (hl : Legible d (parts ps)) :
    (placeholders d (text d ps)).Perm ((List.range' 1 vs.length).map d.placeholder) := by
  rw [text, placeholders_write hl]
  cases d with
  | numbered => exact (h.numbers rfl).map _
  | unnumbered =>
    have hmarks (ns : List Nat) :
        ns.map (Dialect.placeholder .unnumbered) = List.replicate ns.length "?" :=
      List.map_const'
    rw [hmarks, hmarks, h.length_numbers, List.length_range']

theorem named_of_map {f : Nat → Option Value}
    (h : (numbers (parts ps)).map f = (values ps).map some) {n : Nat} {v : Value}
    (hmem : .bound n v ∈ ps) : f n = some v := by
  induction ps with
  | nil => cases hmem
  | cons c ps ih =>
    cases c with
    | fixed p =>
      cases hmem with
      | tail _ hmem => exact ih h hmem
    | bound m w =>
      change f m :: (numbers (parts ps)).map f = some w :: (values ps).map some at h
      obtain ⟨hfirst, hrest⟩ := List.cons.inj h
      cases hmem with
      | head => exact hfirst
      | tail _ hmem => exact ih hrest hmem

/-- Holes that are numbered one after another take the values one after another. -/
theorem binds_fill {hs : List Part} (h : numbers hs = List.range' 1 vs.length) :
    Binds d vs (fill hs vs) := by
  have hlength : (numbers hs).length = vs.length := by rw [h, List.length_range']
  have hparts := parts_fill hlength
  have hvalues := values_fill hlength
  refine ⟨fun _ => ?_, fun _ n v hmem => ?_, fun _ => hvalues.symm⟩
  · rw [hparts, h]
  · apply named_of_map _ hmem
    rw [hparts, hvalues, h, map_nth?_range']

/-- Only the placeholders of a passage matter for how it binds. -/
theorem Binds.of_holes {qs : Passage} (h : Binds d vs ps) (he : holes qs = holes ps) :
    Binds d vs qs := by
  refine ⟨fun hd => ?_, fun hd n v hmem => ?_, fun hd => ?_⟩
  · rw [numbers_parts, he, ← numbers_parts]
    exact h.numbers hd
  · rw [← mem_holes, he, mem_holes] at hmem
    exact h.named hd n v hmem
  · rw [values_eq_holes, he, ← values_eq_holes]
    exact h.inOrder hd

theorem binds_nil (h : values ps = []) : Binds d [] ps := by
  have hempty : Binds d [] [] := ⟨fun _ => .refl _, nofun, fun _ => rfl⟩
  exact hempty.of_holes (holes_eq_nil ps h)

/-- A text without values in front changes nothing. -/
theorem binds_append_iff {qs : Passage} (hp : values ps = []) :
    Binds d vs (ps ++ qs) ↔ Binds d vs qs := by
  have hholes : holes (ps ++ qs) = holes qs := by
    rw [holes_append, holes_eq_nil ps hp, List.nil_append]
  exact ⟨fun h => h.of_holes hholes.symm, fun h => h.of_holes hholes⟩

theorem nth?_append_left {n : Nat} {v : Value} (h : nth? vs n = some v) (ws : List Value) :
    nth? (vs ++ ws) n = some v := by
  cases n with
  | zero => cases h
  | succ n =>
    obtain ⟨hn, -⟩ := List.getElem?_eq_some_iff.1 h
    exact (List.getElem?_append_left hn).trans h

theorem nth?_append_right {ws : List Value} {n : Nat} {v : Value} (h : nth? ws n = some v) :
    nth? (vs ++ ws) (n + vs.length) = some v := by
  cases n with
  | zero => cases h
  | succ n =>
    rw [Nat.add_right_comm]
    refine (List.getElem?_append_right (Nat.le_add_left _ _)).trans ?_
    rw [Nat.add_sub_cancel]
    exact h

theorem map_add_range'_one (k n : Nat) :
    (List.range' 1 n).map (· + k) = List.range' (1 + k) n := by
  rw [Nat.add_comm 1 k, ← List.map_add_range']
  simp only [Nat.add_comm k]

/-- New values come after all others, and their placeholders anywhere in between. -/
theorem Binds.splice {ws : List Value} {qs rs : Passage} (h : Binds .numbered vs (ps ++ rs))
    (hq : Binds .numbered ws qs) :
    Binds .numbered (vs ++ ws) (ps ++ (shift vs.length qs ++ rs)) := by
  refine ⟨fun _ => ?_, fun _ n v hmem => ?_, nofun⟩
  · have hold := h.numbers rfl
    have hnew := (hq.numbers rfl).map (· + vs.length)
    rw [map_add_range'_one] at hnew
    simp only [parts_append, numbers_append, parts_shift, numbers_shift] at hold ⊢
    rw [List.length_append, ← List.range'_append_1]
    exact (List.perm_append_comm_assoc ..).trans (List.perm_append_comm.trans (hold.append hnew))
  · have hold (hmem : Token.bound n v ∈ ps ++ rs) : nth? (vs ++ ws) n = some v :=
      nth?_append_left (h.named rfl n v hmem) ws
    rcases List.mem_append.1 hmem with hmem | hmem
    · exact hold (List.mem_append_left _ hmem)
    · rcases List.mem_append.1 hmem with hmem | hmem
      · obtain ⟨c, hc, he⟩ := List.mem_map.1 hmem
        cases c with
        | fixed p => cases he
        | bound m w =>
          cases he
          exact nth?_append_right (hq.named rfl m v hc)
      · exact hold (List.mem_append_right _ hmem)

theorem inlineNumbered_fixed {p : Piece} (h : p.isPlaceholder .numbered = false)
    (vs : List Value) : p.inlineNumbered vs = (Token.fixed p).glyphs := by
  cases p with
  | param ds =>
    have hds : ds = [] := by simpa [Piece.isPlaceholder] using h
    subst ds
    rfl
  | _ => rfl

theorem inlineUnnumbered_text (h : ∀ p, .fixed p ∈ ps → p.isPlaceholder .unnumbered = false) :
    inlineUnnumbered (values ps) ((parts ps).map (Part.piece .unnumbered)) = glyphs ps := by
  induction ps with
  | nil => rfl
  | cons c ps ih =>
    have ih := ih fun p hp => h p (.tail _ hp)
    cases c with
    | fixed p =>
      have hp := h p (.head _)
      change inlineUnnumbered (values ps) (p :: (parts ps).map (Part.piece .unnumbered)) = _
      rw [inlineUnnumbered, ih]
      · rfl
      · intro v rest hmark
        rw [hp] at hmark
        cases hmark
    | bound n v => exact congrArg (Glyph.value v :: ·) ih

theorem fixed_mem_parts {p : Piece} (h : .fixed p ∈ ps) : .fixed p ∈ parts ps :=
  List.mem_map_of_mem (f := Token.part) h

/-- Putting the values in the places of their placeholders gives the glyphs of the passage. -/
theorem Binds.inlined_text (h : Binds d vs ps) (hl : Legible d (parts ps)) :
    inlined d (text d ps) vs = glyphs ps := by
  have hfixed (p : Piece) (hp : .fixed p ∈ ps) := hl.fixed p (fixed_mem_parts hp)
  unfold inlined
  rw [text, pieces_write hl]
  cases d with
  | unnumbered =>
    rw [h.inOrder rfl]
    exact inlineUnnumbered_text hfixed
  | numbered =>
    simp only [parts, glyphs, List.flatMap_def, List.map_map]
    congr 1
    apply List.map_congr_left
    intro c hc
    cases c with
    | fixed p => exact inlineNumbered_fixed (hfixed p hc) vs
    | bound n v =>
      simp [Token.part, Part.piece, hole, Piece.inlineNumbered, Decimal.read?_digits,
        h.named rfl n v hc, Token.glyphs]

end

end Passage

/-- A finished statement is read as a passage. -/
structure Statement.Says (q : Statement) (d : Dialect) (ps : Passage) : Prop where
  text : q.sql = ps.text d
  legible : Legible d ps.parts
  binds : ps.Binds d q.values

end Quarry
