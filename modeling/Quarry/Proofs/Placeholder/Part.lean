import Quarry.Proofs.Placeholder.Reading
import Quarry.Text.Join

namespace Quarry

open Text

namespace Placeholder

def Piece.isPlaceholder : Dialect → Piece → Bool
  | .numbered, .param ds => ds ≠ []
  | .unnumbered, .plain c => c = '?'
  | _, _ => false

/-- The placeholders of a text, in the order in which they stand. -/
def placeholders (d : Dialect) (sql : String) : List String :=
  ((pieces sql).filter (Piece.isPlaceholder d)).map fun p => String.ofList p.chars

/-- A part of a text: a piece that is no placeholder, or the placeholder with a number. -/
inductive Part where
  | fixed (p : Piece)
  | hole (n : Nat)

def hole : Dialect → Nat → Piece
  | .numbered, n => .param (Decimal.digits n)
  | .unnumbered, _ => .plain '?'

namespace Part

def piece (d : Dialect) : Part → Piece
  | fixed p => p
  | hole n => Placeholder.hole d n

def shift (offset : Nat) : Part → Part
  | fixed p => fixed p
  | hole n => hole (n + offset)

def number? : Part → Option Nat
  | fixed _ => none
  | hole n => some n

end Part

def numbers (ps : List Part) : List Nat :=
  ps.filterMap Part.number?

def write (d : Dialect) (ps : List Part) : String :=
  String.ofList (chars (ps.map (Part.piece d)))

def fixedParts (text : String) : List Part :=
  (pieces text).map .fixed

/-- A text that is read as the parts it was written from, with no quote left open. -/
structure Legible (d : Dialect) (ps : List Part) : Prop where
  run : ∃ m, Mode.free.run (ps.map (Part.piece d)) = some m ∧ m.quote = none
  fixed : ∀ p, .fixed p ∈ ps → p.isPlaceholder d = false

/-- A text that any word or number may stand before. -/
def Opens (d : Dialect) (ps : List Part) : Prop :=
  ∀ m : Mode, m.quote = none →
    m.run (ps.map (Part.piece d)) = Mode.free.run (ps.map (Part.piece d))

/-- A text that any text may stand after. -/
def Closes (d : Dialect) (ps : List Part) : Prop :=
  Mode.free.run (ps.map (Part.piece d)) = some .free

theorem chars_hole (d : Dialect) (n : Nat) : (hole d n).chars = (d.placeholder n).toList := by
  cases d with
  | numbered => simp [hole, Piece.chars, Dialect.placeholder, Decimal.write]
  | unnumbered => simp [hole, Piece.chars, Dialect.placeholder]

theorem isPlaceholder_hole (d : Dialect) (n : Nat) : (hole d n).isPlaceholder d := by
  cases d with
  | numbered => simp [hole, Piece.isPlaceholder, Decimal.digits_ne_nil]
  | unnumbered => rfl

theorem step_hole (d : Dialect) (n : Nat) :
    ∃ m, Mode.free.step (hole d n) = some m ∧ m.quote = none := by
  cases d with
  | numbered => exact ⟨.number, if_pos ⟨rfl, Decimal.all_isDigit_digits n⟩, rfl⟩
  | unnumbered =>
    have h : Mode.free.step (.plain '?') = some .free := by decide
    exact ⟨.free, h, rfl⟩

@[simp] theorem numbers_append (ps qs : List Part) :
    numbers (ps ++ qs) = numbers ps ++ numbers qs :=
  List.filterMap_append

@[simp] theorem numbers_fixedParts (text : String) : numbers (fixedParts text) = [] := by
  simp [numbers, fixedParts, Part.number?]

theorem numbers_shift (k : Nat) (ps : List Part) :
    numbers (ps.map (Part.shift k)) = (numbers ps).map (· + k) := by
  induction ps with
  | nil => rfl
  | cons p ps ih =>
    simp only [numbers] at ih
    cases p <;> simp [numbers, List.filterMap_cons, Part.shift, Part.number?, ih]

@[simp] theorem fixedParts_shift (k : Nat) (text : String) :
    (fixedParts text).map (Part.shift k) = fixedParts text := by
  simp [fixedParts, Function.comp_def, Part.shift]

theorem write_append (d : Dialect) (ps qs : List Part) :
    write d (ps ++ qs) = write d ps ++ write d qs := by
  simp [write, chars_append]

@[simp] theorem write_fixedParts (d : Dialect) (text : String) :
    write d (fixedParts text) = text := by
  have h : (fixedParts text).map (Part.piece d) = pieces text := by
    simp [fixedParts, Function.comp_def, Part.piece]
  rw [write, h, chars_pieces, String.ofList_toList]

theorem pieces_write {d : Dialect} {ps : List Part} (h : Legible d ps) :
    pieces (write d ps) = ps.map (Part.piece d) := by
  obtain ⟨m, hm, _⟩ := h.run
  exact pieces_of_run hm

theorem placeholders_write {d : Dialect} {ps : List Part} (h : Legible d ps) :
    placeholders d (write d ps) = (numbers ps).map d.placeholder := by
  rw [placeholders, pieces_write h]
  have hfixed := h.fixed
  clear h
  induction ps with
  | nil => rfl
  | cons p ps ih =>
    have ih := ih fun q hq => hfixed q (.tail _ hq)
    cases p with
    | fixed q =>
      have hq := hfixed q (.head _)
      simpa [numbers, List.filterMap_cons, Part.piece, Part.number?, hq] using ih
    | hole n =>
      simpa [numbers, List.filterMap_cons, Part.piece, Part.number?, isPlaceholder_hole,
        chars_hole] using ih

section Legible

variable {d : Dialect} {ps qs : List Part}

theorem Legible.nil : Legible d [] :=
  ⟨⟨.free, rfl, rfl⟩, nofun⟩

theorem Legible.hole (n : Nat) : Legible d [.hole n] := by
  obtain ⟨m, hm, hq⟩ := step_hole d n
  refine ⟨⟨m, ?_, hq⟩, nofun⟩
  simp [Mode.run, Part.piece, hm]

theorem Legible.append_of_opens (hp : Legible d ps) (hq : Legible d qs) (h : Opens d qs) :
    Legible d (ps ++ qs) := by
  obtain ⟨m, hm, hm'⟩ := hp.run
  obtain ⟨n, hn, hn'⟩ := hq.run
  refine ⟨⟨n, ?_, hn'⟩, fun p hpq => (List.mem_append.1 hpq).elim (hp.fixed p) (hq.fixed p)⟩
  rw [List.map_append]
  exact Mode.run_append hm ((h m hm').trans hn)

theorem Legible.append_of_closes (hp : Legible d ps) (hq : Legible d qs) (h : Closes d ps) :
    Legible d (ps ++ qs) := by
  obtain ⟨n, hn, hn'⟩ := hq.run
  refine ⟨⟨n, ?_, hn'⟩, fun p hpq => (List.mem_append.1 hpq).elim (hp.fixed p) (hq.fixed p)⟩
  rw [List.map_append]
  exact Mode.run_append h hn

theorem Opens.append (h : Opens d ps) (qs : List Part) : Opens d (ps ++ qs) := by
  intro m hm
  simp only [List.map_append, Mode.run, List.foldlM_append]
  simp only [Opens, Mode.run] at h
  rw [h m hm]

theorem Legible.closes_append (hp : Legible d ps) (hq : Closes d qs) (h : Opens d qs) :
    Closes d (ps ++ qs) := by
  obtain ⟨m, hm, hm'⟩ := hp.run
  rw [Closes, List.map_append]
  exact Mode.run_append hm ((h m hm').trans hq)

theorem step_shift (d : Dialect) (k : Nat) (m : Mode) (p : Part) :
    m.step ((p.shift k).piece d) = m.step (p.piece d) := by
  cases p with
  | fixed p => rfl
  | hole n =>
    cases d with
    | numbered =>
      simp only [Part.shift, Part.piece, Placeholder.hole, Mode.step, Decimal.all_isDigit_digits]
    | unnumbered => rfl

theorem run_shift (d : Dialect) (k : Nat) (m : Mode) (ps : List Part) :
    m.run ((ps.map (Part.shift k)).map (Part.piece d)) = m.run (ps.map (Part.piece d)) := by
  simp only [Mode.run, List.foldlM_map, step_shift]

theorem Legible.shift (h : Legible d ps) (k : Nat) : Legible d (ps.map (Part.shift k)) := by
  obtain ⟨m, hm, hq⟩ := h.run
  refine ⟨⟨m, (run_shift d k .free ps).trans hm, hq⟩, fun p hp => ?_⟩
  obtain ⟨q, hq, he⟩ := List.mem_map.1 hp
  cases q with
  | fixed q =>
    cases he
    exact h.fixed p hq
  | hole n => cases he

/-- A number that is too long for a machine word is not renumbered. -/
theorem shift_piece {p : Part} (hp : ∀ q, p = .fixed q → q.isPlaceholder .numbered = false)
    (hn : ∀ n ∈ p.number?, n < UInt64.size) (k : Nat) :
    (p.piece .numbered).shift k = (p.shift k).piece .numbered := by
  cases p with
  | fixed q =>
    have hq := hp q rfl
    cases q with
    | param ds =>
      have hds : ds = [] := by simpa [Piece.isPlaceholder] using hq
      subst ds
      rfl
    | _ => rfl
  | hole n =>
    have hn : n < UInt64.size := hn n rfl
    simp only [Part.piece, Part.shift, Placeholder.hole, Piece.shift, number?_digits hn]

/-- Renumbering a legible text renumbers its parts. -/
theorem shift_write {k : Nat} (h : Legible d ps)
    (hn : d = .numbered → k ≠ 0 → ∀ n ∈ numbers ps, n < UInt64.size) :
    Placeholder.shift d (write d ps) k = write d (ps.map (Part.shift k)) := by
  have hzero (p : Part) : p.shift 0 = p := by cases p <;> rfl
  rw [Placeholder.shift]
  cases d with
  | unnumbered =>
    have hpiece (p : Part) : (p.shift k).piece .unnumbered = p.piece .unnumbered := by
      cases p <;> rfl
    simp [write, Function.comp_def, hpiece]
  | numbered =>
    by_cases hk : k = 0
    · subst k
      simp [write, Function.comp_def, hzero]
    · rw [if_neg (by simp [hk]), pieces_write h, write]
      congr 2
      rw [List.map_map, List.map_map]
      apply List.map_congr_left
      intro p hp
      apply shift_piece
      · rintro q rfl
        exact h.fixed q hp
      · intro n hpn
        exact hn rfl hk n (List.mem_filterMap.2 ⟨p, hp, hpn⟩)

section Intercalate

variable {sep : List Part}

theorem write_intercalate (d : Dialect) (sep : List Part) (pss : List (List Part)) :
    write d (sep.intercalate pss) = join (write d sep) (pss.map (write d)) := by
  induction pss with
  | nil => rfl
  | cons ps pss ih =>
    cases pss with
    | nil => simp [join]
    | cons qs pss =>
      rw [List.intercalate_cons_cons, write_append, write_append, ih]
      rfl

/-- What respects concatenation respects it with separators as well. -/
theorem apply_intercalate {α β : Type} {f : List α → List β} (hnil : f [] = [])
    (happend : ∀ xs ys, f (xs ++ ys) = f xs ++ f ys) (sep : List α) (xss : List (List α)) :
    f (sep.intercalate xss) = (f sep).intercalate (xss.map f) := by
  induction xss with
  | nil => exact hnil
  | cons xs xss ih =>
    cases xss with
    | nil => simp
    | cons ys xss =>
      rw [List.intercalate_cons_cons, happend, happend, ih]
      simp [List.intercalate_cons_cons]

theorem nil_intercalate {α : Type} (xss : List (List α)) : [].intercalate xss = xss.flatten := by
  induction xss with
  | nil => rfl
  | cons xs xss ih =>
    cases xss with
    | nil => simp
    | cons ys xss => rw [List.intercalate_cons_cons, List.append_nil, ih, ← List.flatten_cons]

theorem numbers_intercalate (h : numbers sep = []) (pss : List (List Part)) :
    numbers (sep.intercalate pss) = pss.flatMap numbers := by
  rw [apply_intercalate rfl numbers_append, h, nil_intercalate, List.flatMap]

theorem intercalate_shift (k : Nat) (sep : List Part) (pss : List (List Part)) :
    (sep.intercalate pss).map (Part.shift k) =
      (sep.map (Part.shift k)).intercalate (pss.map (List.map (Part.shift k))) :=
  apply_intercalate rfl (fun _ _ => List.map_append) sep pss

theorem legible_intercalate (hsep : Legible d sep) (ho : Opens d sep) (hc : Closes d sep)
    {pss : List (List Part)} (h : ∀ ps ∈ pss, Legible d ps) : Legible d (sep.intercalate pss) := by
  induction pss with
  | nil => exact .nil
  | cons ps pss ih =>
    have hps := h ps (.head _)
    have hrest := ih fun qs hqs => h qs (.tail _ hqs)
    cases pss with
    | nil => rwa [List.intercalate_singleton]
    | cons qs pss =>
      rw [List.intercalate_cons_cons]
      have hclosed : Closes d (ps ++ sep) := hps.closes_append hc ho
      exact (hps.append_of_opens hsep ho).append_of_closes hrest hclosed

end Intercalate

end Legible

end Placeholder

end Quarry
