import Quarry.Proofs.Placeholder.Inert
import Quarry.Statement

namespace Quarry

open Text Placeholder

/-- A character of a text, or a value in the place of a placeholder. -/
inductive Glyph where
  | char (c : Char)
  | value (v : Value)

namespace Glyph

def value? : Glyph → Option Value
  | char _ => none
  | value v => some v

def ofText (text : String) : List Glyph :=
  text.toList.map char

end Glyph

namespace Placeholder

/-- The value with the given number, counted from one. -/
def nth? (values : List Value) : Nat → Option Value
  | 0 => none
  | n + 1 => values[n]?

/-- A numbered placeholder is replaced by the value with its number. -/
def Piece.inlineNumbered (values : List Value) (p : Piece) : List Glyph :=
  match p with
  | param ds =>
    match (Decimal.read? ds).bind (nth? values) with
    | some v => [.value v]
    | none => p.chars.map .char
  | _ => p.chars.map .char

/-- The first placeholder is replaced by the first value, the second one by the second, and so
on. -/
def inlineUnnumbered : List Value → List Piece → List Glyph
  | _, [] => []
  | values, p :: ps =>
    match p.isPlaceholder .unnumbered, values with
    | true, v :: rest => .value v :: inlineUnnumbered rest ps
    | _, _ => p.chars.map .char ++ inlineUnnumbered values ps

def inlined (d : Dialect) (sql : String) (values : List Value) : List Glyph :=
  match d with
  | .numbered => (pieces sql).flatMap (Piece.inlineNumbered values)
  | .unnumbered => inlineUnnumbered values (pieces sql)

end Placeholder

/-- A part of a finished text; a placeholder comes with its number and its value. -/
inductive Token where
  | fixed (p : Piece)
  | bound (n : Nat) (v : Value)

namespace Token

def part : Token → Part
  | fixed p => .fixed p
  | bound n _ => .hole n

def value? : Token → Option Value
  | fixed _ => none
  | bound _ v => some v

def hole? : Token → Option (Nat × Value)
  | fixed _ => none
  | bound n v => some (n, v)

def glyphs : Token → List Glyph
  | fixed p => p.chars.map .char
  | bound _ v => [.value v]

def shift (k : Nat) : Token → Token
  | fixed p => fixed p
  | bound n v => bound (n + k) v

end Token

abbrev Passage := List Token

namespace Passage

def parts (ps : Passage) : List Part :=
  ps.map Token.part

def values (ps : Passage) : List Value :=
  ps.filterMap Token.value?

def holes (ps : Passage) : List (Nat × Value) :=
  ps.filterMap Token.hole?

def glyphs (ps : Passage) : List Glyph :=
  ps.flatMap Token.glyphs

def shift (k : Nat) (ps : Passage) : Passage :=
  ps.map (Token.shift k)

def text (d : Dialect) (ps : Passage) : String :=
  write d (parts ps)

def ofText (text : String) : Passage :=
  (pieces text).map .fixed

def fill : List Part → List Value → Passage
  | .fixed p :: ps, vs => .fixed p :: fill ps vs
  | .hole n :: ps, v :: vs => .bound n v :: fill ps vs
  | _, _ => []

section

variable (ps qs : Passage)

@[simp] theorem parts_append : parts (ps ++ qs) = parts ps ++ parts qs :=
  List.map_append

@[simp] theorem values_append : values (ps ++ qs) = values ps ++ values qs :=
  List.filterMap_append

@[simp] theorem holes_append : holes (ps ++ qs) = holes ps ++ holes qs :=
  List.filterMap_append

@[simp] theorem glyphs_append : glyphs (ps ++ qs) = glyphs ps ++ glyphs qs :=
  List.flatMap_append

@[simp] theorem text_append (d : Dialect) : text d (ps ++ qs) = text d ps ++ text d qs := by
  rw [text, parts_append, write_append]
  rfl

@[simp] theorem parts_shift (k : Nat) : parts (shift k ps) = (parts ps).map (Part.shift k) := by
  have h : Token.part ∘ Token.shift k = Part.shift k ∘ Token.part := by
    funext c
    cases c <;> rfl
  rw [parts, shift, List.map_map, h, parts, List.map_map]

@[simp] theorem values_shift (k : Nat) : values (shift k ps) = values ps := by
  have h : Token.value? ∘ Token.shift k = Token.value? := by
    funext c
    cases c <;> rfl
  rw [values, shift, List.filterMap_map, h, values]

@[simp] theorem glyphs_shift (k : Nat) : glyphs (shift k ps) = glyphs ps := by
  have h (c : Token) : (c.shift k).glyphs = c.glyphs := by cases c <;> rfl
  simp only [glyphs, shift, List.flatMap_map, h]

theorem numbers_parts : numbers (parts ps) = (holes ps).map Prod.fst := by
  induction ps with
  | nil => rfl
  | cons c ps ih =>
    cases c with
    | fixed p => exact ih
    | bound n v => exact congrArg (n :: ·) ih

theorem values_eq_holes : values ps = (holes ps).map Prod.snd := by
  induction ps with
  | nil => rfl
  | cons c ps ih =>
    cases c with
    | fixed p => exact ih
    | bound n v => exact congrArg (v :: ·) ih

theorem length_numbers : (numbers (parts ps)).length = (values ps).length := by
  rw [numbers_parts, values_eq_holes, List.length_map, List.length_map]

theorem mem_holes {n : Nat} {v : Value} : (n, v) ∈ holes ps ↔ .bound n v ∈ ps := by
  constructor
  · intro h
    obtain ⟨c, hc, he⟩ := List.mem_filterMap.1 h
    cases c with
    | fixed p => cases he
    | bound m w =>
      cases he
      exact hc
  · intro h
    exact List.mem_filterMap.2 ⟨_, h, rfl⟩

theorem holes_eq_nil (h : values ps = []) : holes ps = [] := by
  rwa [values_eq_holes, List.map_eq_nil_iff] at h

theorem values_glyphs : (glyphs ps).filterMap Glyph.value? = values ps := by
  induction ps with
  | nil => rfl
  | cons c ps ih =>
    rw [glyphs, List.flatMap_cons, List.filterMap_append]
    cases c with
    | fixed p =>
      have hchars : (Token.fixed p).glyphs.filterMap Glyph.value? = [] := by
        simp [Token.glyphs, Glyph.value?]
      rw [hchars, List.nil_append]
      exact ih
    | bound n v => exact congrArg (v :: ·) ih

end

section

variable (t : String)

@[simp] theorem parts_ofText : parts (ofText t) = fixedParts t := by
  simp [parts, ofText, fixedParts, Function.comp_def, Token.part]

@[simp] theorem values_ofText : values (ofText t) = [] := by
  simp [values, ofText, Token.value?]

@[simp] theorem holes_ofText : holes (ofText t) = [] :=
  holes_eq_nil _ (values_ofText t)

@[simp] theorem text_ofText (d : Dialect) : text d (ofText t) = t := by
  rw [text, parts_ofText, write_fixedParts]

@[simp] theorem glyphs_ofText : glyphs (ofText t) = Glyph.ofText t := by
  have h : glyphs (ofText t) = (chars (pieces t)).map .char := by
    simp [glyphs, ofText, chars, List.flatMap_map, List.map_flatMap, Token.glyphs]
  rw [h, chars_pieces, Glyph.ofText]

end

section Intercalate

variable (sep : Passage) (pss : List Passage)

theorem parts_intercalate : parts (sep.intercalate pss) = (parts sep).intercalate (pss.map parts) :=
  apply_intercalate rfl parts_append sep pss

theorem glyphs_intercalate :
    glyphs (sep.intercalate pss) = (glyphs sep).intercalate (pss.map glyphs) :=
  apply_intercalate rfl glyphs_append sep pss

theorem holes_intercalate (h : holes sep = []) :
    holes (sep.intercalate pss) = pss.flatMap holes := by
  rw [apply_intercalate rfl holes_append, h, nil_intercalate, List.flatMap]

theorem text_intercalate (d : Dialect) :
    text d (sep.intercalate pss) = join (text d sep) (pss.map (text d)) := by
  rw [text, parts_intercalate, write_intercalate, List.map_map]
  rfl

end Intercalate

section Fill

variable {ps : List Part} {vs : List Value}

theorem parts_fill (h : (numbers ps).length = vs.length) : parts (fill ps vs) = ps := by
  induction ps generalizing vs with
  | nil => rfl
  | cons p ps ih =>
    cases p with
    | fixed q =>
      have ih := @ih vs h
      simp only [parts] at ih
      simp [fill, parts, Token.part, ih]
    | hole n =>
      cases vs with
      | nil => simp [numbers, Part.number?] at h
      | cons v vs =>
        have ih := @ih vs (Nat.succ.inj h)
        simp only [parts] at ih
        simp [fill, parts, Token.part, ih]

theorem values_fill (h : (numbers ps).length = vs.length) : values (fill ps vs) = vs := by
  induction ps generalizing vs with
  | nil =>
    cases vs with
    | nil => rfl
    | cons v vs => cases h
  | cons p ps ih =>
    cases p with
    | fixed q => exact @ih vs h
    | hole n =>
      cases vs with
      | nil => cases h
      | cons v vs => exact congrArg (v :: ·) (@ih vs (Nat.succ.inj h))

end Fill

end Passage

end Quarry
