import Mathlib.Data.List.Forall2
import Quarry.Proofs.Placeholder.Reading

namespace Quarry.Placeholder

open Text

theorem endsNumber_dropWhile (cs : List Char) : EndsNumber (cs.dropWhile Char.isDigit) := by
  intro c hc
  have hhead := List.head?_dropWhile_not Char.isDigit cs
  rw [hc] at hhead
  simpa using hhead

theorem Mode.ofChar_ne_number (c : Char) : ofChar c ≠ .number := by
  by_cases h : isWord c <;> simp [ofChar, h]

/-- In every mode there is a piece that comes next, whatever the text goes on with. -/
theorem exists_step (m : Mode) (c : Char) (cs : List Char)
    (hr : m = .number → EndsNumber (c :: cs)) :
    ∃ p k rest, c :: cs = p.chars ++ rest ∧ m.step p = some k ∧
      (k = .number → EndsNumber rest) := by
  have hplain : Mode.ofChar c = .number → EndsNumber cs :=
    fun h => absurd h (Mode.ofChar_ne_number c)
  cases m with
  | quoted q =>
    refine ⟨.quoted c, if c = q then .free else .quoted q, cs, rfl, rfl, ?_⟩
    split <;> nofun
  | free =>
    by_cases hquote : isQuote c
    · exact ⟨.quoted c, .quoted c, cs, rfl, if_pos hquote, nofun⟩
    · by_cases hdollar : c = '$'
      · subst hdollar
        refine ⟨.param (cs.takeWhile Char.isDigit), .number, cs.dropWhile Char.isDigit, ?_,
          if_pos ⟨rfl, List.all_takeWhile⟩, fun _ => endsNumber_dropWhile cs⟩
        rw [Piece.chars, List.cons_append, List.takeWhile_append_dropWhile]
      · exact ⟨.plain c, .ofChar c, cs, rfl, if_neg (by simp [hquote, hdollar]), hplain⟩
  | word =>
    by_cases hquote : isQuote c
    · exact ⟨.quoted c, .quoted c, cs, rfl, if_pos hquote, nofun⟩
    · exact ⟨.plain c, .ofChar c, cs, rfl, if_neg (by simp [hquote]), hplain⟩
  | number =>
    by_cases hquote : isQuote c
    · exact ⟨.quoted c, .quoted c, cs, rfl, if_pos hquote, nofun⟩
    · have hdigit : c.isDigit = false := hr rfl c rfl
      exact ⟨.plain c, .ofChar c, cs, rfl, if_neg (by simp [hquote, hdigit]), hplain⟩

/-- The pieces that are cut off a text can come one after another. -/
theorem run_cut (m : Mode) (cs : List Char) (hr : m = .number → EndsNumber cs) :
    ∃ n, m.run (cut m.quote m.joined cs) = some n := by
  induction hlength : cs.length using Nat.strongRecOn generalizing m cs with
  | ind l ih =>
    cases cs with
    | nil => exact ⟨m, by simp [cut, Mode.run]⟩
    | cons c cs =>
      obtain ⟨p, k, rest, hchars, hstep, hends⟩ := exists_step m c cs hr
      have hshorter : rest.length < l := by
        have hp : 0 < p.chars.length := by cases p <;> simp [Piece.chars]
        rw [← hlength, hchars, List.length_append]
        omega
      obtain ⟨n, hn⟩ := ih rest.length hshorter k rest hends rfl
      rw [hchars, cut_step hstep hends]
      exact ⟨n, Mode.run_cons.2 ⟨k, hstep, hn⟩⟩

/-- The pieces of a text are the only ones that spell it and can come one after another. -/
theorem pieces_eq_iff {text : String} {ps : List Piece} :
    pieces text = ps ↔ chars ps = text.toList ∧ ∃ n, Mode.free.run ps = some n := by
  constructor
  · rintro rfl
    exact ⟨chars_pieces text, run_cut .free text.toList nofun⟩
  · rintro ⟨hchars, n, hrun⟩
    rw [← pieces_of_run hrun, hchars, String.ofList_toList]

/-- The number that a piece has, if it is a placeholder with one. -/
def Piece.number? : Piece → Option Nat
  | param ds => Placeholder.number? ds
  | _ => none

/-- What renumbering may make of a piece: a number is moved, and all else is kept. -/
inductive Moved (k : Nat) : Piece → Piece → Prop where
  | kept {p : Piece} (h : p.number? = none) : Moved k p p
  | number {p q : Piece} {n : Nat} (h : p.number? = some n) (h' : q.number? = some (n + k)) :
      Moved k p q

/-- Two texts with the same pieces, apart from the numbers of the placeholders. -/
def Renumbered (k : Nat) (text text' : String) : Prop :=
  List.Forall₂ (Moved k) (pieces text) (pieces text')

/-- All numbers in a text leave room for an offset in a machine word. -/
def Room (k : Nat) (text : String) : Prop :=
  ∀ p ∈ pieces text, ∀ n ∈ p.number?, n + k < UInt64.size

instance (k : Nat) (text : String) : Decidable (Room k text) :=
  inferInstanceAs (Decidable (∀ _ ∈ _, _))

section Piece

variable {p : Piece} {n a b k : Nat}

theorem Piece.isDigit_of_number? {ds : List Char} (h : (param ds).number? = some n) :
    ds.all Char.isDigit := by
  obtain ⟨hread, -⟩ := number?_eq_some.1 h
  rw [Decimal.read?, Option.ite_none_right_eq_some] at hread
  exact hread.1.2

theorem Piece.shift_of_none (h : p.number? = none) (k : Nat) : p.shift k = p := by
  cases p with
  | param ds =>
    have h : Placeholder.number? ds = none := h
    rw [Piece.shift, h]
  | _ => rfl

theorem Piece.shift_of_some (h : p.number? = some n) (k : Nat) :
    p.shift k = .param (Decimal.digits (n + k)) := by
  cases p with
  | param ds =>
    have h : Placeholder.number? ds = some n := h
    rw [Piece.shift, h]
  | _ => cases h

theorem Piece.number?_shift (h : p.number? = some n) (hk : n + k < UInt64.size) :
    (p.shift k).number? = some (n + k) := by
  rw [shift_of_some h]
  exact number?_digits hk

theorem Piece.shift_shift (h : ∀ n ∈ p.number?, n + a < UInt64.size) (b : Nat) :
    (p.shift a).shift b = p.shift (a + b) := by
  cases hn : p.number? with
  | none => rw [shift_of_none hn, shift_of_none hn, shift_of_none hn]
  | some n =>
    have hmoved := number?_shift hn (h n hn)
    rw [shift_of_some hmoved, shift_of_some hn, Nat.add_assoc]

theorem Piece.moved (h : ∀ n ∈ p.number?, n + k < UInt64.size) : Moved k p (p.shift k) := by
  cases hn : p.number? with
  | none =>
    rw [shift_of_none hn]
    exact .kept hn
  | some n => exact .number hn (number?_shift hn (h n hn))

theorem Moved.zero (p : Piece) : Moved 0 p p := by
  cases hn : p.number? with
  | none => exact .kept hn
  | some n => exact .number hn hn

/-- A piece comes next with one number as with another. -/
theorem Mode.step_shift (m : Mode) (k : Nat) (p : Piece) : m.step (p.shift k) = m.step p := by
  cases hn : p.number? with
  | none => rw [Piece.shift_of_none hn]
  | some n =>
    rw [Piece.shift_of_some hn]
    cases p with
    | param ds => simp only [step, Decimal.all_isDigit_digits, Piece.isDigit_of_number? hn]
    | _ => cases hn

end Piece

section Text

variable {text : String} {a b k : Nat}

/-- The text that comes out is cut into the pieces that were renumbered. -/
theorem pieces_shift (text : String) (hk : k ≠ 0) :
    pieces (shift .numbered text k) = (pieces text).map (Piece.shift k) := by
  obtain ⟨-, n, hrun⟩ := pieces_eq_iff.1 (rfl : pieces text = pieces text)
  have hrun' : Mode.free.run ((pieces text).map (Piece.shift k)) = some n := by
    rw [← hrun]
    simp only [Mode.run, List.foldlM_map, Mode.step_shift]
  rw [shift, if_neg (by simp [hk])]
  exact pieces_eq_iff.2 ⟨String.toList_ofList.symm, n, hrun'⟩

theorem shift_zero (d : Dialect) (text : String) : shift d text 0 = text :=
  if_pos (.inl rfl)

theorem Room.renumbered (h : Room k text) : Renumbered k text (shift .numbered text k) := by
  by_cases hk : k = 0
  · subst hk
    rw [shift_zero, Renumbered, List.forall₂_same]
    intro p _
    exact .zero p
  · rw [Renumbered, pieces_shift text hk, List.forall₂_map_right_iff, List.forall₂_same]
    intro p hp
    exact Piece.moved (h p hp)

theorem Room.mono (h : Room b text) (hab : a ≤ b) : Room a text := by
  intro p hp n hn
  have hfits := h p hp n hn
  omega

/-- An offset takes up as much room as it moves the numbers by. -/
theorem Room.shift (h : Room (a + b) text) : Room b (shift .numbered text a) := by
  by_cases ha : a = 0
  · subst ha
    rwa [shift_zero, ← Nat.zero_add b]
  · intro q hq m hm
    rw [pieces_shift text ha] at hq
    obtain ⟨p, hp, rfl⟩ := List.mem_map.1 hq
    cases hn : p.number? with
    | none =>
      rw [Piece.shift_of_none hn, hn] at hm
      cases hm
    | some n =>
      have hfits := h p hp n hn
      rw [Piece.number?_shift hn (by omega)] at hm
      cases hm
      omega

/-- Renumbering twice is renumbering once by both offsets. -/
theorem Room.shift_add (h : Room (a + b) text) :
    Placeholder.shift .numbered (Placeholder.shift .numbered text a) b =
      Placeholder.shift .numbered text (a + b) := by
  by_cases ha : a = 0
  · subst ha
    rw [shift_zero, Nat.zero_add]
  by_cases hb : b = 0
  · subst hb
    rw [shift_zero, Nat.add_zero]
  have hroom : Room a text := h.mono (Nat.le_add_right a b)
  have hmap : ((pieces text).map (Piece.shift a)).map (Piece.shift b) =
      (pieces text).map (Piece.shift (a + b)) := by
    rw [List.map_map]
    apply List.map_congr_left
    intro p hp
    exact Piece.shift_shift (hroom p hp) b
  rw [Placeholder.shift, if_neg (by simp [hb]), pieces_shift text ha, hmap, Placeholder.shift,
    if_neg (by simp [ha])]

/-- Offsets add up. Each renumbered text has the pieces of the text before it, in the same order,
and no other differences than the numbers of placeholders. -/
theorem shift_composes (h : Room (a + b) text) :
    shift .numbered (shift .numbered text a) b = shift .numbered text (a + b) ∧
      Renumbered a text (shift .numbered text a) ∧
      Renumbered b (shift .numbered text a) (shift .numbered (shift .numbered text a) b) := by
  refine ⟨h.shift_add, ?_, h.shift.renumbered⟩
  exact (h.mono (Nat.le_add_right a b)).renumbered

/-- Numbers of all kinds: in a name, in quotes, with zeros in front, right after another number, too
long for a machine word, none at all, nearly too long, and after a quote that is left open. -/
def mixed : String :=
  "a$1 = $1 AND '$2' = $007$3 OR \"$4\" = $99999999999999999999 AND $ = $18446744073709551608 '$5"

theorem shift_composes_mixed :
    Room (3 + 4) mixed ∧ shift .numbered (shift .numbered mixed 3) 4 =
      "a$1 = $8 AND '$2' = $14$3 OR \"$4\" = $99999999999999999999 AND $ = " ++
        "$18446744073709551615 '$5" := by
  have hroom : Room (3 + 4) mixed := by decide +kernel
  obtain ⟨hadd, -, -⟩ := shift_composes hroom
  refine ⟨hroom, hadd.trans ?_⟩
  decide +kernel

end Text

end Quarry.Placeholder
