import Quarry.Placeholder

namespace Quarry.Placeholder

open Text

theorem chars_cons (p : Piece) (ps : List Piece) : chars (p :: ps) = p.chars ++ chars ps :=
  List.flatMap_cons

theorem chars_append (ps qs : List Piece) : chars (ps ++ qs) = chars ps ++ chars qs :=
  List.flatMap_append

theorem number?_eq_some {ds : List Char} {n : Nat} :
    number? ds = some n ↔ Decimal.read? ds = some n ∧ n < UInt64.size := by
  simp [number?, Option.filter_eq_some_iff]

theorem number?_digits {n : Nat} (h : n < UInt64.size) : number? (Decimal.digits n) = some n :=
  number?_eq_some.2 ⟨Decimal.read?_digits n, h⟩

/-- What a reader is in the middle of. -/
inductive Mode where
  | quoted (q : Char)
  | free
  | word
  | number
deriving DecidableEq

namespace Mode

def ofChar (c : Char) : Mode :=
  if isWord c then word else free

def quote : Mode → Option Char
  | quoted q => some q
  | _ => none

def joined : Mode → Bool
  | word | number => true
  | _ => false

/-- The mode after a piece, if the piece can come next. -/
def step (m : Mode) : Piece → Option Mode
  | .quoted c =>
    match m with
    | quoted q => some (if c = q then free else quoted q)
    | _ => if isQuote c then some (quoted c) else none
  | .plain c =>
    match m with
    | quoted _ => none
    | m =>
      if isQuote c ∨ (c = '$' ∧ m = free) ∨ (c.isDigit ∧ m = number) then none else some (ofChar c)
  | .param ds => if m = free ∧ ds.all Char.isDigit then some number else none

def run (m : Mode) (ps : List Piece) : Option Mode :=
  ps.foldlM step m

theorem run_cons {m n : Mode} {p : Piece} {ps : List Piece} :
    m.run (p :: ps) = some n ↔ ∃ k, m.step p = some k ∧ k.run ps = some n := by
  simp [run, List.foldlM_cons, Option.bind_eq_some_iff]

theorem run_append {m k n : Mode} {ps qs : List Piece} (hps : m.run ps = some k)
    (hqs : k.run qs = some n) : m.run (ps ++ qs) = some n := by
  simp only [run] at hps hqs
  simp [run, List.foldlM_append, hps, hqs]

@[simp] theorem quote_ofChar (c : Char) : (ofChar c).quote = none := by
  rw [ofChar]
  split <;> rfl

@[simp] theorem joined_ofChar (c : Char) : (ofChar c).joined = isWord c := by
  rw [ofChar]
  split <;> simp_all [joined]

end Mode

/-- A number that stands before such a text is not longer for it. -/
def EndsNumber (rest : List Char) : Prop :=
  ∀ c ∈ rest.head?, c.isDigit = false

theorem takeWhile_isDigit_append {ds rest : List Char} (hd : ds.all Char.isDigit)
    (hr : EndsNumber rest) :
    (ds ++ rest).takeWhile Char.isDigit = ds ∧ (ds ++ rest).dropWhile Char.isDigit = rest := by
  induction ds with
  | nil =>
    cases rest with
    | nil => exact ⟨rfl, rfl⟩
    | cons c cs =>
      have hc : c.isDigit = false := hr c rfl
      simp [hc]
  | cons d ds ih =>
    simp only [List.all_cons, Bool.and_eq_true] at hd
    simp [hd.1, ih hd.2]

theorem isDigit_of_isQuote {c : Char} (h : isQuote c) : c.isDigit = false := by
  simp only [isQuote, Bool.or_eq_true, decide_eq_true_eq] at h
  rcases h with rfl | rfl <;> rfl

/-- A piece that can come next is the next one that is cut off. -/
theorem cut_step {m k : Mode} {p : Piece} {rest : List Char} (h : m.step p = some k)
    (hr : k = .number → EndsNumber rest) :
    cut m.quote m.joined (p.chars ++ rest) = p :: cut k.quote k.joined rest := by
  cases p with
  | quoted c =>
    cases m with
    | quoted q =>
      cases h
      by_cases hc : c = q <;> simp [cut, Piece.chars, Mode.quote, Mode.joined, hc]
    | _ =>
      simp only [Mode.step, Option.ite_none_right_eq_some, Option.some.injEq] at h
      obtain ⟨hc, rfl⟩ := h
      simp [cut, Piece.chars, Mode.quote, Mode.joined, hc]
  | plain c =>
    cases m with
    | quoted q => cases h
    | _ =>
      simp only [Mode.step, Option.ite_none_left_eq_some, Option.some.injEq] at h
      obtain ⟨hc, rfl⟩ := h
      rw [Mode.quote_ofChar, Mode.joined_ofChar]
      simp_all [cut, Piece.chars, Mode.quote, Mode.joined]
  | param ds =>
    cases m with
    | free =>
      simp only [Mode.step, Option.ite_none_right_eq_some, Option.some.injEq] at h
      obtain ⟨⟨-, hds⟩, rfl⟩ := h
      obtain ⟨htake, hdrop⟩ := takeWhile_isDigit_append hds (hr rfl)
      have hc : isQuote '$' = false := by decide
      simp [cut, Piece.chars, Mode.quote, Mode.joined, hc, htake, hdrop]
    | _ => cases h

theorem endsNumber_of_step {p : Piece} {k : Mode} {rest : List Char}
    (h : Mode.number.step p = some k) : EndsNumber (p.chars ++ rest) := by
  intro c hc
  cases p with
  | quoted q =>
    cases hc
    simp only [Mode.step, Option.ite_none_right_eq_some] at h
    exact isDigit_of_isQuote h.1
  | plain q =>
    cases hc
    simp only [Mode.step, Option.ite_none_left_eq_some] at h
    exact Bool.eq_false_iff.2 fun hd => h.1 (.inr (.inr ⟨hd, trivial⟩))
  | param ds => cases h

theorem endsNumber_of_run {ps : List Piece} {n : Mode} {rest : List Char}
    (h : Mode.number.run ps = some n) (hr : n = .number → EndsNumber rest) :
    EndsNumber (chars ps ++ rest) := by
  cases ps with
  | nil =>
    cases h
    exact hr rfl
  | cons p ps =>
    obtain ⟨k, hk, _⟩ := Mode.run_cons.1 h
    rw [chars_cons, List.append_assoc]
    exact endsNumber_of_step hk

/-- A text that was written from the pieces of a run is cut into them. -/
theorem cut_of_run {m n : Mode} {ps : List Piece} {rest : List Char} (h : m.run ps = some n)
    (hr : n = .number → EndsNumber rest) :
    cut m.quote m.joined (chars ps ++ rest) = ps ++ cut n.quote n.joined rest := by
  induction ps generalizing m with
  | nil =>
    cases h
    rfl
  | cons p ps ih =>
    obtain ⟨k, hk, hps⟩ := Mode.run_cons.1 h
    rw [chars_cons, List.append_assoc, cut_step hk, ih hps, List.cons_append]
    rintro rfl
    exact endsNumber_of_run hps hr

theorem pieces_of_run {n : Mode} {ps : List Piece} (h : Mode.free.run ps = some n) :
    pieces (String.ofList (chars ps)) = ps := by
  have hcut := @cut_of_run .free n ps [] h fun _ => nofun
  simpa [pieces, Mode.quote, Mode.joined, cut] using hcut

end Quarry.Placeholder
