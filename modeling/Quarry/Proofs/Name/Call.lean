import Quarry.Proofs.Name.Solid
import Quarry.Proofs.Name.Spelling

namespace Quarry.Name

open Text

/-- A text that trimming takes nothing from: neither end of it is blank. -/
structure Trimmed (cs : List Char) : Prop where
  first : cs.head?.any fun c => !isBlank c
  last : cs.getLast?.any fun c => !isBlank c

/-- The characters that names end with. -/
def isLast (c : Char) : Bool :=
  isBody c || c = '"'

section

variable {name : String} {cs rest before after func arg : List Char} {p q : Char → Bool} {c : Char}

theorem trimStart_blanks (h : before.all isBlank) (hcs : cs.head?.any fun c => !isBlank c) :
    trimStart (before ++ cs) = cs := by
  apply dropWhile_stops h
  intro c hc
  rw [hc] at hcs
  simpa using hcs

/-- Trimming takes the blanks around it. -/
theorem Trimmed.trim (h : Trimmed cs) (hbefore : before.all isBlank) (hafter : after.all isBlank) :
    Text.trim (before ++ (cs ++ after)) = cs := by
  have hstart : trimStart (before ++ (cs ++ after)) = cs ++ after :=
    trimStart_blanks hbefore (any_head?_append h.first)
  have hend : trimStart (after.reverse ++ cs.reverse) = cs.reverse := by
    apply trimStart_blanks
    · rwa [List.all_reverse]
    · rw [List.head?_reverse]
      exact h.last
  rw [Text.trim, hstart, trimEnd, List.reverse_append]
  exact (congrArg List.reverse hend).trans (List.reverse_reverse cs)

theorem any_mono {o : Option Char} (hpq : ∀ c, p c → q c) (h : o.any p) : o.any q := by
  cases o with
  | none => cases h
  | some c => exact hpq c h

theorem any_getLast?_of_all (hne : cs ≠ []) (h : cs.all p) : cs.getLast?.any p := by
  rw [List.getLast?_eq_some_getLast hne]
  exact List.all_eq_true.1 h _ (List.getLast_mem hne)

theorem any_getLast?_append {ds : List Char} (h : ds.getLast?.any p) :
    (cs ++ ds).getLast?.any p := by
  rw [List.getLast?_append]
  cases hlast : ds.getLast? with
  | none =>
    rw [hlast] at h
    cases h
  | some d => rwa [hlast] at h

theorem isBody_of_isStart (h : isStart c) : isBody c := by
  rw [isBody_eq_isWord]
  exact isWord_of_isStart h

/-- Blanks are below the characters of names, or far above. -/
theorem not_isBlank_of_isBody (h : isBody c) : !isBlank c := by
  simp only [isBody, Bool.or_eq_true, decide_eq_true_eq] at h
  rcases h with (rfl | rfl) | h
  · decide
  · decide
  · obtain ⟨hfrom, hto⟩ := toNat_of_isAlphanum h
    cases hblank : isBlank c with
    | false => rfl
    | true =>
      simp only [isBlank, blankRanges, List.any_cons, List.any_nil, Bool.or_false, Bool.or_eq_true,
        Bool.and_eq_true, decide_eq_true_eq] at hblank
      omega

theorem not_isBlank_of_isLast (h : isLast c) : !isBlank c := by
  rcases Bool.or_eq_true_iff.1 h with hbody | hquote
  · exact not_isBlank_of_isBody hbody
  · cases of_decide_eq_true hquote
    decide

theorem not_isBlank_of_isFirst (h : isFirst c) : !isBlank c := by
  apply not_isBlank_of_isLast
  rcases Bool.or_eq_true_iff.1 h with hstart | hquote
  · rw [isLast, isBody_of_isStart hstart]
    rfl
  · exact Bool.or_eq_true_iff.2 (.inr hquote)

theorem Bare.body (h : Bare cs) : cs.all isBody := by
  cases h with
  | word hc hcs => rw [List.all_cons, isBody_of_isStart hc, hcs, Bool.and_self]

theorem Part.last (h : Part cs) : cs.getLast?.any isLast := by
  cases h with
  | bare h =>
    have hlast := any_getLast?_of_all (Part.bare h).ne_nil h.body
    exact any_mono (fun c hc => Bool.or_eq_true_iff.2 (.inl hc)) hlast
  | quoted h _ =>
    rw [← List.cons_append, List.getLast?_concat]
    rfl

theorem Path.last (h : Path cs) : cs.getLast?.any isLast := by
  induction h with
  | part h => exact h.last
  | @dot cs ds _ hd ih =>
    rw [List.append_cons]
    exact any_getLast?_append ih

theorem Path.trimmed (h : Path cs) : Trimmed cs :=
  ⟨any_mono (fun _ => not_isBlank_of_isFirst) h.first,
    any_mono (fun _ => not_isBlank_of_isLast) h.last⟩

theorem path_of_unexpected (h : part name cs = .ok (c :: rest)) (hdot : '.' ≠ c) :
    path name cs = .error (.unexpected name c) := by
  rw [path]
  split <;> simp_all

/-- After a bare part a path goes on with a dot, if at all. -/
theorem Bare.not_path (h : Bare cs) (hbody : isBody c = false) (hquote : c ≠ '"') (hdot : '.' ≠ c) :
    ¬Path (cs ++ c :: rest) := by
  intro hpath
  have hends : EndsPart (c :: rest) := by
    intro d hd
    cases hd
    exact ⟨hbody, hquote⟩
  have hpart : part "" (cs ++ c :: rest) = .ok (c :: rest) := (Part.bare h).scanned hends
  have hok : path "" (cs ++ c :: rest) = .ok () := hpath.scanned
  rw [path_of_unexpected hpart hdot] at hok
  cases hok

/-- The word is a bare part itself, in any case. -/
theorem bare_of_distinct {word : List Char} (h : word.map Char.toLower = "distinct".toList) :
    Bare word := by
  have halpha : ∀ c ∈ word, c.isAlpha := by
    intro c hc
    have hlower : c.toLower ∈ "distinct".toList := h ▸ List.mem_map_of_mem hc
    have hall : "distinct".toList.all Char.isAlpha := by decide
    exact of_toLower (fun _ => id) (List.all_eq_true.1 hall _ hlower)
  have hstart : ∀ c ∈ word, isStart c := fun c hc => Bool.or_eq_true_iff.2 (.inr (halpha c hc))
  cases word with
  | nil => cases h
  | cons c cs =>
    refine .word (hstart c (.head _)) (List.all_eq_true.2 fun d hd => ?_)
    exact isBody_of_isStart (hstart d (.tail _ hd))

theorem AcceptedArgument.trimmed (h : AcceptedArgument cs) : Trimmed cs := by
  cases h with
  | star => exact ⟨by decide, by decide⟩
  | ident h => exact (spelled_of_ofList h).trimmed
  | @distinct word blanks cs hword hblanks h =>
    have hpath := spelled_of_ofList h
    have hfirst : word.head?.any isFirst := (bare_of_distinct hword).first
    refine ⟨any_head?_append (any_mono (fun _ => not_isBlank_of_isFirst) hfirst), ?_⟩
    rw [List.append_cons, ← List.append_assoc]
    exact any_getLast?_append hpath.trimmed.last

/-- No path starts like the word and a blank, so a path is left as it is. -/
theorem Path.dropDistinct (h : Path cs) : dropDistinct cs = cs := by
  rw [Name.dropDistinct]
  split
  · rename_i hword
    have hsplit : "distinct ".toList = "distinct".toList ++ [' '] := rfl
    rw [hsplit, List.map_eq_append_iff] at hword
    obtain ⟨word, last, htake, hword, hlast⟩ := hword
    obtain ⟨c, rfl, hc⟩ := List.map_eq_singleton_iff.1 hlast
    have hcs : cs = word ++ c :: cs.drop 9 := by
      rw [List.append_cons, ← htake, List.take_append_drop]
    rw [eq_space_of_toLower hc] at hcs
    rw [hcs] at h
    exact absurd h ((bare_of_distinct hword).not_path (by decide) (by decide) (by decide))
  · rfl

theorem dropDistinct_word {word blanks : List Char}
    (hword : word.map Char.toLower = "distinct".toList)
    (hblanks : blanks.all isBlank) (h : Path cs) :
    dropDistinct (word ++ ' ' :: (blanks ++ cs)) = cs := by
  have hlength : (word ++ [' ']).length = 9 := by
    rw [List.length_append, ← List.length_map (f := Char.toLower), hword]
    rfl
  have htake : (word ++ ' ' :: (blanks ++ cs)).take 9 = word ++ [' '] := by
    rw [List.append_cons, List.take_left' hlength]
  have hdrop : (word ++ ' ' :: (blanks ++ cs)).drop 9 = blanks ++ cs := by
    rw [List.append_cons, List.drop_left' hlength]
  have hmap : (word ++ [' ']).map Char.toLower = "distinct ".toList := by
    rw [List.map_append, hword]
    rfl
  rw [dropDistinct, htake, if_pos hmap, hdrop]
  exact trimStart_blanks hblanks h.trimmed.first

theorem AcceptedArgument.checked (h : AcceptedArgument cs) (hstar : cs ≠ ['*']) :
    checkIdent (String.ofList (dropDistinct cs)) = .ok () := by
  cases h with
  | star => exact absurd rfl hstar
  | ident h => rwa [(spelled_of_ofList h).dropDistinct]
  | distinct hword hblanks h => rwa [dropDistinct_word hword hblanks (spelled_of_ofList h)]

theorem isArgument_iff :
    isArgument cs ↔ ∃ before arg after, cs = before ++ (arg ++ (after ++ [')'])) ∧
      before.all isBlank ∧ AcceptedArgument arg ∧ after.all isBlank := by
  constructor
  · exact accepted_of_isArgument
  · rintro ⟨before, arg, after, rfl, hbefore, harg, hafter⟩
    have hassoc : before ++ (arg ++ (after ++ [')'])) = before ++ (arg ++ after) ++ [')'] := by
      simp only [List.append_assoc]
    rw [hassoc, isArgument, if_pos List.getLast?_concat, List.dropLast_concat]
    simp only [harg.trimmed.trim hbefore hafter]
    split
    · rfl
    · rename_i hstar
      rw [harg.checked hstar]
      rfl

theorem checkField_of_not_mem (h : '(' ∉ name.toList) : checkField name = checkIdent name := by
  have hdrop : name.toList.dropWhile (· ≠ '(') = [] := by
    apply List.dropWhile_eq_nil_iff.2
    intro c hc
    apply decide_eq_true
    rintro rfl
    exact h hc
  rw [checkField]
  split
  · rfl
  · rename_i heq
    rw [hdrop] at heq
    cases heq

/-- The first parenthesis is the one after the function. -/
theorem checkField_of_call (hname : name.toList = func ++ '(' :: arg) (hfunc : Bare func)
    (harg : isArgument arg) : checkField name = .ok () := by
  have hword : ∀ c ∈ func, decide (c ≠ '(') := by
    intro c hc
    exact decide_eq_true (ne_of_class (List.all_eq_true.1 hfunc.body c hc) (by decide))
  have hdrop : name.toList.dropWhile (· ≠ '(') = '(' :: arg := by
    rw [hname]
    apply dropWhile_stops (List.all_eq_true.2 hword)
    intro c hc
    cases hc
    rfl
  have htake : name.toList.takeWhile (· ≠ '(') = func := by
    rw [hname, List.takeWhile_append_of_pos hword]
    simp
  have hbare : bare name (func ++ []) = .ok [] := hfunc.scanned nofun
  rw [List.append_nil] at hbare
  rw [checkField]
  split
  · rename_i heq
    rw [hdrop] at heq
    cases heq
  · rename_i heq
    rw [hdrop] at heq
    cases heq
    simp only [htake]
    rw [if_neg (Part.bare hfunc).ne_nil, hbare]
    exact if_pos ⟨rfl, harg⟩

/-- The fields are the identifiers without a parenthesis and the functions of one argument. -/
theorem checkField_eq_ok_iff :
    checkField name = .ok () ↔ '(' ∉ name.toList ∧ checkIdent name = .ok () ∨
      ∃ func arg, name.toList = func ++ '(' :: arg ∧ Bare func ∧ isArgument arg := by
  constructor
  · exact split_of_checkField
  · rintro (⟨hopen, hident⟩ | ⟨func, arg, hname, hfunc, harg⟩)
    · rwa [checkField_of_not_mem hopen]
    · exact checkField_of_call hname hfunc harg

theorem checkField_of_accepted {arg : List Char}
    (hname : name.toList = func ++ '(' :: (arg ++ [')']))
    (hfunc : Bare func) (harg : AcceptedArgument arg) : checkField name = .ok () :=
  checkField_of_call hname hfunc (isArgument_iff.2 ⟨[], arg, [], rfl, rfl, harg, rfl⟩)

/-- An identifier is accepted as a field unless it has an opening parenthesis, which only its quoted
parts can have. A function of everything, of the identifier, or of its distinct values is accepted,
whatever quoted parts the identifier has. -/
theorem accepts_identifiers_and_calls (hident : checkIdent name = .ok ()) :
    (checkField name = .ok () ↔ '(' ∉ name.toList) ∧
    ∀ func : String, Bare func.toList → checkField (func ++ "(*)") = .ok () ∧
      checkField (func ++ "(" ++ name ++ ")") = .ok () ∧
      checkField (func ++ "(DISTINCT " ++ name ++ ")") = .ok () := by
  constructor
  · rw [checkField_eq_ok_iff]
    constructor
    · rintro (⟨hopen, -⟩ | ⟨func, arg, hname, hfunc, -⟩)
      · exact hopen
      · have hpath := spelled_of_checkIdent hident
        rw [hname] at hpath
        exact absurd hpath (hfunc.not_path (by decide) (by decide) (by decide))
    · exact fun hopen => .inl ⟨hopen, hident⟩
  · intro func hfunc
    rw [← String.ofList_toList (s := name)] at hident
    have hdistinct : AcceptedArgument ("DISTINCT".toList ++ ' ' :: ([] ++ name.toList)) :=
      .distinct (by decide) rfl hident
    refine ⟨checkField_of_accepted ?_ hfunc .star, checkField_of_accepted ?_ hfunc (.ident hident),
      checkField_of_accepted ?_ hfunc hdistinct⟩
    · simp
    · simp
    · simp

/-- A column that can be joined on and ordered by. -/
def priceColumn : String :=
  "o.\"Price (EUR)\""

theorem accepts_identifiers_and_calls_priceColumn :
    (checkIdent "o.\"DISTINCT *\"" = .ok () ∧ checkField "o.\"DISTINCT *\"" = .ok ()) ∧
      checkIdent priceColumn = .ok () ∧ checkField ("sum" ++ "(" ++ priceColumn ++ ")") = .ok () ∧
      checkField ("sum" ++ "(DISTINCT " ++ priceColumn ++ ")") = .ok () := by
  have hstar : checkIdent "o.\"DISTINCT *\"" = .ok () := of_toOption (by decide +kernel)
  have hprice : checkIdent priceColumn = .ok () := of_toOption (by decide +kernel)
  have hsum : Bare "sum".toList := .word (by decide) (by decide)
  obtain ⟨hfield, -⟩ := accepts_identifiers_and_calls hstar
  obtain ⟨-, hcalls⟩ := accepts_identifiers_and_calls hprice
  obtain ⟨-, hargument⟩ := hcalls "sum" hsum
  exact ⟨⟨hstar, hfield.2 (by decide)⟩, hprice, hargument⟩

/-- It cannot be filtered by, as it is taken for a function. -/
theorem priceColumn_refused :
    checkIdent priceColumn = .ok () ∧ checkField priceColumn ≠ .ok () := by
  have hprice : checkIdent priceColumn = .ok () := of_toOption (by decide +kernel)
  have hrefused : (checkField priceColumn).toOption = none := by decide +kernel
  refine ⟨hprice, fun haccepted => ?_⟩
  rw [haccepted] at hrefused
  cases hrefused

end

end Quarry.Name
