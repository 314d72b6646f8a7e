import Quarry.Clause.Page
import Quarry.Proofs.Json.Integer
import Quarry.Proofs.Name.Call

namespace Quarry

open Text Number

/-- A limit, cut down to the greatest one that is allowed. -/
def PageConfig.capped (c : PageConfig) (n : Int) : Int :=
  match c.maxLimit with
  | some m => min n m.toInt
  | none => n

structure PageConfig.NonNegative (c : PageConfig) : Prop where
  defaultLimit : 0 ≤ c.defaultLimit
  defaultOffset : 0 ≤ c.defaultOffset
  maxLimit : ∀ m ∈ c.maxLimit, 0 ≤ m

namespace Page

/-- A text with nothing but blanks around it. -/
structure Padded (whole cs : List Char) : Prop where
  around : ∃ before after, whole = before ++ (cs ++ after) ∧ before.all isBlank ∧ after.all isBlank

/-- A document that stands for an integer: the number itself or a text of it. -/
inductive Spells : Json → Int → Prop where
  | int (n : Int) : Spells (.int n) n
  | text {s : String} {cs : List Char} {n : Int} (hs : Padded s.toList cs)
      (h : Decimal.Numeral cs n) : Spells (.str s) n

/-- The field `name` of a document has an integer that is not negative and fits a word. -/
structure Asks (p : Json) (name : String) (n : Int) : Prop where
  field : ∃ fields j, p = .obj fields ∧ fields.lookup name = some j ∧ Spells j n
  nonNegative : 0 ≤ n
  fits : n ≤ Int64.maxValue.toInt

section

variable {p j k : Json} {c : PageConfig} {name s : String} {n : Int} {w : Int64} {cs : List Char}

theorem not_isBlank_of_isDigit {c : Char} (h : c.isDigit) : !isBlank c := by
  apply Name.not_isBlank_of_isBody
  simp [Name.isBody, Char.isAlphanum, h]

theorem trimmed_of_run (h : Decimal.Run cs) : Name.Trimmed cs := by
  constructor
  · cases cs with
    | nil => exact absurd rfl h.ne_nil
    | cons c cs => exact not_isBlank_of_isDigit h.head
  · have hlast := Name.any_getLast?_of_all h.ne_nil h.digits
    exact Name.any_mono (fun _ => not_isBlank_of_isDigit) hlast

theorem trimmed_of_numeral (h : Decimal.Numeral cs n) : Name.Trimmed cs := by
  have hsigned {sign : Char} {ds : List Char} (hsign : !isBlank sign) (hds : Decimal.Run ds) :
      Name.Trimmed ([sign] ++ ds) :=
    ⟨hsign, Name.any_getLast?_append (trimmed_of_run hds).last⟩
  cases h with
  | unsigned h => exact trimmed_of_run h
  | plus h => exact hsigned (by decide) h
  | minus h => exact hsigned (by decide) h

/-- The number of a text is that of the numeral in it. -/
theorem number?_str (hs : Padded s.toList cs) (h : Decimal.Numeral cs n) :
    number? (.str s) = word? n := by
  obtain ⟨before, after, hs, hbefore, hafter⟩ := hs.around
  rw [number?, hs, (trimmed_of_numeral h).trim hbefore hafter, Decimal.readInt?_eq_some_iff.2 h]
  rfl

theorem number?_eq_some_iff : number? j = some w ↔ Spells j w.toInt := by
  constructor
  · intro h
    cases j with
    | int n =>
      rw [toInt_of_word? h]
      exact .int n
    | str s =>
      obtain ⟨n, hn, hw⟩ := Option.bind_eq_some_iff.1 h
      rw [toInt_of_word? hw]
      exact .text ⟨Name.trim_eq s.toList⟩ (Decimal.readInt?_eq_some_iff.1 hn)
    | _ => cases h
  · intro h
    have hw := word?_toInt w
    cases h with
    | int n => exact hw
    | text hs h => exact (number?_str hs h).trans hw

theorem nonNegative?_eq_some_iff {w v : Int64} : nonNegative? w = some v ↔ w = v ∧ 0 ≤ w := by
  rw [nonNegative?]
  split
  · rename_i hw
    simp [hw]
  · rename_i hw
    simp [hw]

/-- The number that a document asks for in the field `name`. -/
def requested? (p : Json) (name : String) : Option Int64 :=
  ((p.field? name).bind number?).bind nonNegative?

theorem requested?_eq_some_iff : requested? p name = some w ↔ Asks p name w.toInt := by
  constructor
  · intro h
    obtain ⟨v, hv, hw⟩ := Option.bind_eq_some_iff.1 h
    obtain ⟨rfl, hsign⟩ := nonNegative?_eq_some_iff.1 hw
    obtain ⟨d, hd, hnumber⟩ := Option.bind_eq_some_iff.1 hv
    cases p with
    | obj fields =>
      exact ⟨⟨fields, d, rfl, hd, number?_eq_some_iff.1 hnumber⟩, Int64.le_iff_toInt_le.1 hsign,
        Int.le_of_lt_add_one v.toInt_lt⟩
    | _ => cases hd
  · intro h
    obtain ⟨fields, j, rfl, hj, hv⟩ := h.field
    have hfield : Json.field? name (.obj fields) = some j := hj
    have hw := nonNegative?_eq_some_iff.2 ⟨rfl, Int64.le_iff_toInt_le.2 h.nonNegative⟩
    rw [requested?, hfield, Option.bind_some, number?_eq_some_iff.2 hv, Option.bind_some, hw]

theorem Asks.requested? (h : Asks p name n) : ∃ w, w.toInt = n ∧ requested? p name = some w := by
  have hlow : -9223372036854775808 ≤ n := Int.le_trans (by decide) h.nonNegative
  obtain ⟨w, hw⟩ := exists_word?_iff.2 ⟨hlow, h.fits⟩
  have hn := toInt_of_word? hw
  rw [← hn] at h
  exact ⟨w, hn, requested?_eq_some_iff.2 h⟩

theorem requested?_eq_none (h : ∀ n, ¬Asks p name n) : requested? p name = none := by
  cases hw : requested? p name with
  | none => rfl
  | some w => exact absurd (requested?_eq_some_iff.1 hw) (h _)

/-- What was checked once passes the second check. -/
theorem bind_nonNegative? (o : Option Int64) :
    (o.bind nonNegative?).bind nonNegative? = o.bind nonNegative? := by
  cases o with
  | none => rfl
  | some w =>
    rw [Option.bind_some]
    cases h : nonNegative? w with
    | none => rfl
    | some v =>
      obtain ⟨rfl, -⟩ := nonNegative?_eq_some_iff.1 h
      exact h

theorem limitUnder_ofJson (p : Json) (c : PageConfig) :
    (ofJson p).limitUnder c = c.clamp ((requested? p "limit").getD c.defaultLimit) := by
  have h : (ofJson p).limit.bind nonNegative? = requested? p "limit" := bind_nonNegative? _
  rw [limitUnder, h]

theorem offsetUnder_ofJson (p : Json) (c : PageConfig) :
    (ofJson p).offsetUnder c = (requested? p "offset").getD c.defaultOffset := by
  have h : (ofJson p).offset.bind nonNegative? = requested? p "offset" := bind_nonNegative? _
  rw [offsetUnder, h]

theorem toInt_min (v w : Int64) : (min v w).toInt = min v.toInt w.toInt := by
  change (if v ≤ w then v else w).toInt = _
  rw [Int.min_def]
  by_cases h : v ≤ w
  · rw [if_pos h, if_pos (Int64.le_iff_toInt_le.1 h)]
  · rw [if_neg h, if_neg fun hle => h (Int64.le_iff_toInt_le.2 hle)]

theorem toInt_clamp (c : PageConfig) (w : Int64) : (c.clamp w).toInt = c.capped w.toInt := by
  unfold PageConfig.clamp PageConfig.capped
  cases c.maxLimit with
  | none => rfl
  | some m => exact toInt_min w m

theorem capped_le {m : Int64} (hm : m ∈ c.maxLimit) (n : Int) : c.capped n ≤ m.toInt := by
  unfold PageConfig.capped
  rw [hm]
  exact Int.min_le_right n m.toInt

theorem le_capped (hc : c.NonNegative) (hn : 0 ≤ n) : 0 ≤ c.capped n := by
  unfold PageConfig.capped
  cases hmax : c.maxLimit with
  | none => exact hn
  | some m => exact Int.le_min.2 ⟨hn, Int64.le_iff_toInt_le.1 (hc.maxLimit m hmax)⟩

theorem le_getD_requested? (hw : 0 ≤ w) : 0 ≤ (requested? p name).getD w := by
  cases h : requested? p name with
  | none => exact hw
  | some v => exact Int64.le_iff_toInt_le.2 (requested?_eq_some_iff.1 h).nonNegative

/-- A number and a text of it ask for the same. -/
theorem number?_eq_number?_str (hj : Json.read? (Decimal.writeInt n) = some j)
    (hs : Padded s.toList (Decimal.writeInt n).toList) : number? j = number? (.str s) := by
  rw [number?_str hs (Decimal.numeral_writeInt n)]
  rcases Json.of_read?_writeInt hj with rfl | ⟨⟨x, rfl⟩, hn⟩
  · rfl
  · exact hn.symm

/-- A field may have any document that stands for the same number. -/
theorem requested?_congr (h : number? j = number? k) (before after : List (String × Json))
    (key name : String) :
    requested? (.obj (before ++ (key, j) :: after)) name =
      requested? (.obj (before ++ (key, k) :: after)) name := by
  have hlookup (d : Json) : Json.field? name (.obj (before ++ (key, d) :: after)) =
      (before.lookup name).or (((key, d) :: after).lookup name) := List.lookup_append
  rw [requested?, requested?, hlookup, hlookup]
  congr 1
  cases before.lookup name with
  | some d => rfl
  | none =>
    rw [Option.none_or, Option.none_or, List.lookup_cons, List.lookup_cons]
    cases name == key with
    | true => exact h
    | false => rfl

/-- A page has the limit and the offset that were asked for, if they are integers that fit a word
and are not negative, as numbers or as texts, and otherwise those of the configuration. No limit is
above the greatest one. A number and a text of it, whether they fit a word or not, come to the same
page, and nothing becomes negative under a configuration without negative numbers. -/
theorem ofJson_resolved (p : Json) (c : PageConfig) :
    (∀ n, Asks p "limit" n → ((ofJson p).limitUnder c).toInt = c.capped n) ∧
      ((∀ n, ¬Asks p "limit" n) →
        ((ofJson p).limitUnder c).toInt = c.capped c.defaultLimit.toInt) ∧
      (∀ n, Asks p "offset" n → ((ofJson p).offsetUnder c).toInt = n) ∧
      ((∀ n, ¬Asks p "offset" n) → (ofJson p).offsetUnder c = c.defaultOffset) ∧
      (∀ m ∈ c.maxLimit, ((ofJson p).limitUnder c).toInt ≤ m.toInt) ∧
      (∀ n j s name before after, Json.read? (Decimal.writeInt n) = some j →
        Padded s.toList (Decimal.writeInt n).toList →
          (ofJson (.obj (before ++ (name, j) :: after))).limitUnder c =
              (ofJson (.obj (before ++ (name, .str s) :: after))).limitUnder c ∧
            (ofJson (.obj (before ++ (name, j) :: after))).offsetUnder c =
              (ofJson (.obj (before ++ (name, .str s) :: after))).offsetUnder c) ∧
      (c.NonNegative → 0 ≤ (ofJson p).limitUnder c ∧ 0 ≤ (ofJson p).offsetUnder c) := by
  simp only [limitUnder_ofJson, offsetUnder_ofJson, toInt_clamp]
  refine ⟨?_, ?_, ?_, ?_, ?_, ?_, ?_⟩
  · intro n h
    obtain ⟨w, rfl, hw⟩ := h.requested?
    rw [hw]
    rfl
  · intro h
    rw [requested?_eq_none h]
    rfl
  · intro n h
    obtain ⟨w, rfl, hw⟩ := h.requested?
    rw [hw]
    rfl
  · intro h
    rw [requested?_eq_none h]
    rfl
  · intro m hm
    exact capped_le hm _
  · intro n j s name before after hj hs
    have h := requested?_congr (number?_eq_number?_str hj hs) before after name
    exact ⟨by rw [h], by rw [h]⟩
  · intro hc
    refine ⟨?_, le_getD_requested? hc.defaultOffset⟩
    rw [Int64.le_iff_toInt_le, toInt_clamp]
    exact le_capped hc (Int64.le_iff_toInt_le.1 (le_getD_requested? hc.defaultLimit))

/-- A document that asks for five hundred rows, in a text, and for an offset that no page has. -/
def tooMany : Json :=
  .obj [("limit", .str " +500\t"), ("offset", .int (-1))]

def atMostHundred : PageConfig where
  maxLimit := some 100

theorem asks_tooMany : Asks tooMany "limit" 500 where
  field := by
    have hs : Padded " +500\t".toList ['+', '5', '0', '0'] :=
      ⟨[' '], ['\t'], by decide, by decide, by decide⟩
    exact ⟨_, _, rfl, rfl, .text hs (Decimal.readInt?_eq_some_iff.1 (by decide))⟩
  nonNegative := by decide
  fits := by decide

theorem not_asks_tooMany (n : Int) : ¬Asks tooMany "offset" n := by
  intro h
  obtain ⟨fields, j, ⟨⟩, ⟨⟩, hj⟩ := h.field
  cases hj with
  | int _ => exact absurd h.nonNegative (by decide)

theorem nonNegative_atMostHundred : atMostHundred.NonNegative where
  defaultLimit := by decide
  defaultOffset := by decide
  maxLimit := by
    intro m hm
    cases hm
    decide

/-- The last part is about the first integer above the words. -/
theorem ofJson_resolved_tooMany :
    (Asks tooMany "limit" 500 ∧ ((ofJson tooMany).limitUnder atMostHundred).toInt = 100) ∧
      ((∀ n, ¬Asks tooMany "offset" n) ∧ (ofJson tooMany).offsetUnder atMostHundred = 0) ∧
      (atMostHundred.NonNegative ∧ 0 ≤ (ofJson tooMany).limitUnder atMostHundred) ∧
      (Json.read? (Decimal.writeInt 9223372036854775808) = some (.int 9223372036854775808) ∧
        Padded "\n9223372036854775808 ".toList (Decimal.writeInt 9223372036854775808).toList ∧
        (ofJson (.obj [("limit", .int 9223372036854775808)])).limitUnder atMostHundred =
          (ofJson (.obj [("limit", .str "\n9223372036854775808 ")])).limitUnder atMostHundred) := by
  obtain ⟨hlimit, -, -, hoffset, -, hsame, hsign⟩ := ofJson_resolved tooMany atMostHundred
  have hread : Json.read? (Decimal.writeInt 9223372036854775808) =
      some (.int 9223372036854775808) := Json.read?_writeInt_eq_int (by decide) (by decide)
  have hpadded : Padded "\n9223372036854775808 ".toList
      (Decimal.writeInt 9223372036854775808).toList :=
    ⟨['\n'], [' '], by rw [Decimal.toList_writeInt]; decide +kernel, by decide, by decide⟩
  exact ⟨⟨asks_tooMany, hlimit 500 asks_tooMany⟩, ⟨not_asks_tooMany, hoffset not_asks_tooMany⟩,
    ⟨nonNegative_atMostHundred, (hsign nonNegative_atMostHundred).1⟩, hread, hpadded,
    (hsame _ _ _ "limit" [] [] hread hpadded).1⟩

end

end Page

end Quarry
