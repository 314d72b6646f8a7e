import Quarry.Proofs.Clause.Parts
import Quarry.Proofs.Name.Solid
import Quarry.Proofs.Text.Words

namespace Quarry

open Text Placeholder

/-- The operator that is written as the given sign between a field and its operand. -/
def Operator.ofSign? (sign : String) : Option Operator :=
  all.find? fun op => op.template .numbered = binary sign

namespace Fragment

/-- A condition on `key` with a sign between the field and the operand. -/
def signed (key sign : String) : Fragment :=
  match Operator.ofSign? sign with
  | some op => ⟨key, op, none⟩
  | none => ⟨key, .custom, some sign⟩

/-- A fragment with the operator that its sign spells. -/
def canonical (f : Fragment) : Fragment :=
  match f.operator, f.sign with
  | .custom, some sign => signed f.key sign
  | op, _ => ⟨f.key, op, none⟩

def startsWith (c : Char) (word : String) : Bool :=
  word.toList.head? = some c

/-- What stands between so many characters and a closing parenthesis. -/
def enclosed (n : Nat) (word : String) : String :=
  String.ofList (word.toList.drop n).dropLast

/-- An operand in lower case has its field in lower case as well. -/
def readLike (exact lowered : Operator) (key operand : String) : Fragment :=
  if startsWith 'L' operand then ⟨enclosed 6 key, lowered, none⟩ else ⟨key, exact, none⟩

def readWorded (key : String) : String → List String → Option (Fragment × List String)
  | "IS", "NULL" :: ws => some (⟨key, .isNull, none⟩, ws)
  | "IS", "NOT" :: "NULL" :: ws => some (⟨key, .isNotNull, none⟩, ws)
  | "BETWEEN", _ :: "AND" :: _ :: ws => some (⟨key, .between, none⟩, ws)
  | "IN", _ :: ws => some (⟨key, .inList, none⟩, ws)
  | "LIKE", operand :: ws => some (readLike .like .ilike key operand, ws)
  | "ILIKE", _ :: ws => some (⟨key, .ilike, none⟩, ws)
  | "NOT", "BETWEEN" :: _ :: "AND" :: _ :: ws => some (⟨key, .notBetween, none⟩, ws)
  | "NOT", "IN" :: _ :: ws => some (⟨key, .notInList, none⟩, ws)
  | "NOT", "LIKE" :: operand :: ws => some (readLike .notLike .notIlike key operand, ws)
  | "NOT", "ILIKE" :: _ :: ws => some (⟨key, .notIlike, none⟩, ws)
  | _, _ => none

def readSigned (key sign : String) : List String → Option (Fragment × List String)
  | operand :: ws =>
    some (if startsWith 'A' operand then ⟨key, .inList, none⟩ else signed key sign, ws)
  | [] => none

def keywords : List String :=
  ["IS", "BETWEEN", "IN", "LIKE", "ILIKE", "NOT"]

/-- Reads the condition that some words begin with. The words after it are left. -/
def read : List String → Option (Fragment × List String)
  | first :: second :: ws =>
    if second ∈ keywords then readWorded first second ws
    else if startsWith '(' second then
      some (⟨(words (enclosed 1 second)).headD "", .notInList, none⟩, ws)
    else readSigned first second ws
  | _ => none

/-- A text from whose words the fragment is read, whatever comes after them. -/
structure Spelled (f : Fragment) (text : String) : Prop where
  line : line (words text) = text
  solid : AllSolid (words text)
  first : (words text).head?.any fun w => w.toList.head?.any Name.isFirst
  read : ∀ rest, read (words text ++ rest) = some (f.canonical, rest)

theorem spelled_of_words {f : Fragment} {text : String} {ws : List String}
    (hsolid : AllSolid ws) (htext : text = Text.line ws)
    (hfirst : ws.head?.any fun w => w.toList.head?.any Name.isFirst)
    (hread : ∀ rest, Fragment.read (ws ++ rest) = some (f.canonical, rest)) : f.Spelled text := by
  have hne : ws ≠ [] := by
    rintro rfl
    cases hfirst
  have hwords : words text = ws := by rw [htext, words_line hne hsolid]
  refine ⟨?_, ?_, ?_, ?_⟩
  · rw [hwords, htext]
  · rwa [hwords]
  · rwa [hwords]
  · rwa [hwords]

section

variable {f : Fragment} {key s text : String} {sign : Option String} {d : Dialect} {c : Nat}

theorem solid_placeholder (d : Dialect) (n : Nat) : Solid (d.placeholder n).toList := by
  apply solid_of_tight
  apply List.all_eq_true.2
  intro c hc
  rcases Dialect.isWord_of_mem_placeholder hc with hc | rfl
  · exact Name.isTight_of_isWord hc
  · decide

theorem startsWith_placeholder {x : Char} (hdollar : x ≠ '$') (hmark : x ≠ '?') (d : Dialect)
    (n : Nat) : startsWith x (d.placeholder n) = false := by
  cases d with
  | numbered => simp [startsWith, Dialect.placeholder, hdollar.symm]
  | unnumbered => simp [startsWith, Dialect.placeholder, hmark.symm]

theorem solid_of_isSign (h : Operator.IsSign s) : Solid s.toList := by
  apply solid_of_tight
  apply List.all_eq_true.2
  intro c hc
  have hsigns : Invalid.signChars.toList.all isTight := by decide
  exact List.all_eq_true.1 hsigns c (h c hc)

theorem startsWith_of_isSign (h : Operator.IsSign s) : startsWith '(' s = false := by
  cases hs : s.toList with
  | nil => simp [startsWith, hs]
  | cons c cs =>
    have hc : c ∈ Invalid.signChars.toList := h c (by simp [hs])
    have hparen : '(' ∉ Invalid.signChars.toList := by decide
    have hne : c ≠ '(' := by
      rintro rfl
      exact hparen hc
    simp [startsWith, hs, hne]

/-- A condition whose first word is its field. -/
theorem spelled_of_field {ws : List String} (hk : Name.Field f.key.toList) (hsolid : AllSolid ws)
    (htext : text.toList = (Text.line (f.key :: ws)).toList)
    (hread : ∀ rest, Fragment.read (f.key :: (ws ++ rest)) = some (f.canonical, rest)) :
    f.Spelled text :=
  spelled_of_words (.cons hk.solid hsolid) (String.toList_inj.1 htext) hk.first hread

theorem solid_call {name operand : String} (hn : name.toList.all isTight)
    (ho : Solid operand.toList) : Solid (name ++ "(" ++ operand ++ ")").toList := by
  have hcall := (solid_of_tight hn).append ho.deeper.enclosed
  simpa using hcall

theorem canonical_of_ne {op : Operator} (h : op ≠ .custom) :
    canonical ⟨key, op, sign⟩ = ⟨key, op, none⟩ := by
  cases op with
  | custom => exact absurd rfl h
  | _ => rfl

theorem spelled_signed (hk : Name.Field f.key.toList) (hs : Operator.IsSign s)
    (hcanonical : f.canonical = signed f.key s)
    (htext : text.toList = (Text.line [f.key, s, d.placeholder c]).toList) : f.Spelled text := by
  have hnone : ∀ w ∈ keywords, ¬Operator.IsSign w := by decide
  have hkeywords : s ∉ keywords := fun hmem => hnone s hmem hs
  have hsolid : AllSolid [s, d.placeholder c] :=
    .cons (solid_of_isSign hs) (.cons (solid_placeholder d c) .nil)
  apply spelled_of_field hk hsolid htext
  intro rest
  simp [read, readSigned, hkeywords, startsWith_of_isSign hs, startsWith_placeholder, hcanonical]

theorem spelled_binary {op : Operator} (hk : Name.Field key.toList)
    (hs : Operator.IsSign s) (hop : Operator.ofSign? s = some op) (hne : op ≠ .custom) :
    Spelled ⟨key, op, sign⟩ (Operator.fill d key "" c (Operator.binary s)) := by
  apply spelled_signed (d := d) (c := c + 1) (s := s) hk hs
  · rw [canonical_of_ne hne, signed, hop]
  · simp [Operator.fill, Operator.binary, line, join]

theorem solid_of_mem_keywords {w : String} (h : w ∈ keywords) : Solid w.toList := by
  have hkeywords : ∀ w ∈ keywords, Solid w.toList := by decide
  exact hkeywords w h

theorem solid_of_keywords {ws : List String} (h : ∀ w ∈ ws, w ∈ keywords) : AllSolid ws :=
  fun w hw => solid_of_mem_keywords (h w hw)

/-- A condition that goes on with a keyword after its field. -/
theorem spelled_worded (word : String) {ws : List String} (hk : Name.Field f.key.toList)
    (hword : word ∈ keywords) (hsolid : AllSolid ws)
    (htext : text.toList = (Text.line (f.key :: word :: ws)).toList)
    (hread : ∀ rest, readWorded f.key word (ws ++ rest) = some (f.canonical, rest)) :
    f.Spelled text := by
  apply spelled_of_field hk (.cons (solid_of_mem_keywords hword) hsolid) htext
  intro rest
  simp [read, hword, hread]

theorem solid_listed {name : String} (hn : name.toList.all isTight) (d : Dialect) (c : Nat) :
    Solid (name ++ "(" ++ d.placeholder c ++ ")").toList :=
  solid_call hn (solid_placeholder d c)

theorem spelled_inList (hk : Name.Field key.toList) :
    Spelled ⟨key, .inList, sign⟩ (Operator.fill d key s c (Operator.template .inList d)) := by
  cases d with
  | numbered =>
    let operand := "ANY" ++ "(" ++ Dialect.numbered.placeholder (c + 1) ++ ")"
    have hoperand : Solid operand.toList := solid_listed (by decide) _ _
    have hsign : Solid "=".toList := rfl
    have hkeywords : "=" ∉ keywords := by decide
    apply spelled_of_field hk (.cons hsign (.cons hoperand .nil))
    · simp [operand, Operator.fill, Operator.template, line, join]
    · intro rest
      simp [operand, read, readSigned, hkeywords, startsWith, canonical]
  | unnumbered =>
    let operand := "" ++ "(" ++ Dialect.unnumbered.placeholder (c + 1) ++ ")"
    have hoperand : Solid operand.toList := solid_listed (by decide) _ _
    apply spelled_worded "IN" hk (by decide) (.cons hoperand .nil)
    · simp [operand, Operator.fill, Operator.template, line, join]
    · intro rest
      simp [readWorded, canonical]

theorem spelled_notInList (hk : Name.Field key.toList) :
    Spelled ⟨key, .notInList, sign⟩ (Operator.fill d key s c (Operator.template .notInList d)) := by
  cases d with
  | numbered =>
    let ws := [key, "=", "ANY" ++ "(" ++ Dialect.numbered.placeholder (c + 1) ++ ")"]
    let operand := "(" ++ Text.line ws ++ ")"
    have hws : AllSolid ws :=
      .cons hk.solid (.cons rfl (.cons (solid_listed (by decide) _ _) .nil))
    have hnot : Solid "NOT".toList := rfl
    have hoperand : Solid operand.toList := solid_enclosed (balanced_line hws)
    apply spelled_of_words (.cons hnot (.cons hoperand .nil))
    · rw [← String.toList_inj]
      simp [operand, ws, Operator.fill, Operator.template, line, join]
    · have hfirst : "NOT".toList.head?.any Name.isFirst := by decide
      exact hfirst
    · intro rest
      have hparen : startsWith '(' operand := by simp [operand, startsWith]
      have hnone : ∀ w ∈ keywords, ¬startsWith '(' w := by decide
      have hkeywords : operand ∉ keywords := fun hmem => hnone _ hmem hparen
      have hinner : enclosed 1 operand = Text.line ws := by simp [operand, enclosed]
      have hkey : (words (Text.line ws)).headD "" = key := by
        rw [words_line (List.cons_ne_nil _ _) hws]
        rfl
      simp only [List.cons_append, List.nil_append, read, hparen, if_true, if_neg hkeywords,
        hinner, hkey, canonical]
  | unnumbered =>
    let operand := "" ++ "(" ++ Dialect.unnumbered.placeholder (c + 1) ++ ")"
    have hoperand : Solid operand.toList := solid_listed (by decide) _ _
    have hin : Solid "IN".toList := rfl
    apply spelled_worded "NOT" hk (by decide) (.cons hin (.cons hoperand .nil))
    · simp [operand, Operator.fill, Operator.template, line, join]
    · intro rest
      simp [readWorded, canonical]

def lowered (word : String) : String :=
  "LOWER" ++ "(" ++ word ++ ")"

/-- Words that come before an operand which tells whether the field is in lower case. -/
def Leads (vs : List String) (exact op : Operator) : Prop :=
  ∀ first operand rest,
    read (first :: (vs ++ operand :: rest)) = some (readLike exact op first operand, rest)

theorem leads_like : Leads ["LIKE"] .like .ilike := by
  intro first operand rest
  simp [read, keywords, readWorded]

theorem leads_notLike : Leads ["NOT", "LIKE"] .notLike .notIlike := by
  intro first operand rest
  simp [read, keywords, readWorded]

theorem spelled_exact {vs : List String} {op lower : Operator} (hk : Name.Field key.toList)
    (hvs : ∀ v ∈ vs, v ∈ keywords) (hleads : Leads vs op lower) (hne : op ≠ .custom)
    (htext : text.toList = (Text.line (key :: (vs ++ [d.placeholder c]))).toList) :
    Spelled ⟨key, op, sign⟩ text := by
  apply spelled_of_field hk ((solid_of_keywords hvs).append (.cons (solid_placeholder d c) .nil))
    htext
  intro rest
  rw [List.append_assoc, List.singleton_append, hleads, canonical_of_ne hne, readLike,
    startsWith_placeholder (by decide) (by decide)]
  rfl

theorem spelled_lowered {vs : List String} {exact op : Operator} (hk : Name.Field key.toList)
    (hvs : ∀ v ∈ vs, v ∈ keywords) (hleads : Leads vs exact op) (hne : op ≠ .custom)
    (htext : text.toList =
      (Text.line (lowered key :: (vs ++ [lowered (d.placeholder c)]))).toList) :
    Spelled ⟨key, op, sign⟩ text := by
  have hname : "LOWER".toList.all isTight := by decide
  have hkey : Solid (lowered key).toList := solid_call hname hk.solid
  have hoperand : Solid (lowered (d.placeholder c)).toList := solid_listed hname d c
  apply spelled_of_words (.cons hkey ((solid_of_keywords hvs).append (.cons hoperand .nil)))
    (String.toList_inj.1 htext)
  · have hfirst : (lowered key).toList.head?.any Name.isFirst := by
      simp [lowered, Name.isFirst, Name.isStart]
    exact hfirst
  · intro rest
    have hlower : startsWith 'L' (lowered (d.placeholder c)) := by simp [startsWith, lowered]
    have hkey : enclosed 6 (lowered key) = key := by simp [enclosed, lowered]
    rw [List.cons_append, List.append_assoc, List.singleton_append, hleads, canonical_of_ne hne,
      readLike, if_pos hlower, hkey]

end

/-- Every fragment that a search is compiled to is read back from its words. -/
theorem spelled {f : Fragment} (hv : f.Valid) (d : Dialect) (c : Nat) :
    f.Spelled (write d (f.parts d c)) := by
  have hk := Name.spelled_of_checkField hv.key
  have hnot : Solid "NOT".toList := rfl
  have hbetween : Solid "BETWEEN".toList := rfl
  have hilike : Solid "ILIKE".toList := rfl
  have hnull : AllSolid ["NULL"] := .cons rfl .nil
  have hoperand : AllSolid [d.placeholder (c + 1)] := .cons (solid_placeholder d _) .nil
  have hrange : AllSolid [d.placeholder (c + 1), "AND", d.placeholder (c + 1 + 1)] :=
    .cons (solid_placeholder d _) (.cons rfl (.cons (solid_placeholder d _) .nil))
  rw [parts, Operator.write_parts]
  obtain ⟨key, op, sign⟩ := f
  cases op with
  | eq | ne | gt | gte | lt | lte | contains | containedBy | overlap | regex | iregex | notRegex
  | notIregex | jsonPath | jsonPathMatch =>
    exact spelled_binary hk (by decide) (by decide) (by decide)
  | custom =>
    obtain ⟨s, hs, hsign⟩ := hv.sign rfl
    simp only at hs
    subst hs
    apply spelled_signed (d := d) (c := c + 1) hk (Operator.of_checkSign hsign).2 rfl
    simp [Operator.fill, Operator.template, Operator.signText, line, join]
  | isNull =>
    apply spelled_worded "IS" hk (by decide) hnull
    · simp [Operator.fill, Operator.template, line, join]
    · intro rest
      simp [readWorded, canonical]
  | isNotNull =>
    apply spelled_worded "IS" hk (by decide) (.cons hnot hnull)
    · simp [Operator.fill, Operator.template, line, join]
    · intro rest
      simp [readWorded, canonical]
  | between =>
    apply spelled_worded "BETWEEN" hk (by decide) hrange
    · simp [Operator.fill, Operator.template, Operator.ranged, line, join]
    · intro rest
      simp [readWorded, canonical]
  | notBetween =>
    apply spelled_worded "NOT" hk (by decide) (.cons hbetween hrange)
    · simp [Operator.fill, Operator.template, Operator.ranged, line, join]
    · intro rest
      simp [readWorded, canonical]
  | inList => exact spelled_inList hk
  | notInList => exact spelled_notInList hk
  | like =>
    apply spelled_exact (d := d) (c := c + 1) hk (by decide) leads_like (by decide)
    simp [Operator.fill, Operator.template, Operator.binary, line, join]
  | notLike =>
    apply spelled_exact (d := d) (c := c + 1) hk (by decide) leads_notLike (by decide)
    simp [Operator.fill, Operator.template, Operator.binary, line, join]
  | ilike =>
    cases d with
    | numbered =>
      apply spelled_worded "ILIKE" hk (by decide) hoperand
      · simp [Operator.fill, Operator.template, Operator.binary, line, join]
      · intro rest
        simp [readWorded, canonical]
    | unnumbered =>
      apply spelled_lowered (d := .unnumbered) (c := c + 1) hk (by decide) leads_like (by decide)
      simp [Operator.fill, Operator.template, Operator.lowered, lowered, line, join]
  | notIlike =>
    cases d with
    | numbered =>
      apply spelled_worded "NOT" hk (by decide) (.cons hilike hoperand)
      · simp [Operator.fill, Operator.template, Operator.binary, line, join]
      · intro rest
        simp [readWorded, canonical]
    | unnumbered =>
      apply spelled_lowered (d := .unnumbered) (c := c + 1) hk (by decide) leads_notLike (by decide)
      simp [Operator.fill, Operator.template, Operator.lowered, lowered, line, join]

end Fragment

end Quarry
