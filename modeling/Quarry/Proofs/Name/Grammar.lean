import Mathlib.Data.List.TakeWhile
import Quarry.Name
import Quarry.Proofs.Checked

namespace Quarry.Name

open Text

inductive Bare : List Char → Prop where
  | word {c : Char} {cs : List Char} (hc : isStart c) (hcs : cs.all isBody) : Bare (c :: cs)

/-- What stands between the quotes of a part: a quote in it is doubled. -/
inductive Inside : List Char → Prop where
  | nil : Inside []
  | char {c : Char} {cs : List Char} (hc : c ≠ '"') (h : Inside cs) : Inside (c :: cs)
  | pair {cs : List Char} (h : Inside cs) : Inside ('"' :: '"' :: cs)

inductive Part : List Char → Prop where
  | bare {cs : List Char} (h : Bare cs) : Part cs
  | quoted {cs : List Char} (h : Inside cs) (hne : cs ≠ []) : Part ('"' :: (cs ++ ['"']))

inductive Path : List Char → Prop where
  | part {cs : List Char} (h : Part cs) : Path cs
  | dot {cs ds : List Char} (hc : Part cs) (hd : Path ds) : Path (cs ++ '.' :: ds)

/-- What a function is applied to, without the blanks around it. -/
inductive Argument : List Char → Prop where
  | star : Argument ['*']
  | path {cs : List Char} (h : Path cs) : Argument cs
  | distinct {word blanks cs : List Char} (hword : word.map Char.toLower = "distinct ".toList)
      (hblanks : blanks.all isBlank) (h : Path cs) : Argument (word ++ (blanks ++ cs))

inductive Field : List Char → Prop where
  | path {cs : List Char} (h : Path cs) : Field cs
  | call {func before arg after : List Char} (hfunc : Bare func) (hbefore : before.all isBlank)
      (harg : Argument arg) (hafter : after.all isBlank) :
      Field (func ++ '(' :: (before ++ (arg ++ (after ++ [')']))))

/-- What a function is accepted with: the name in it is an identifier that is accepted. -/
inductive AcceptedArgument : List Char → Prop where
  | star : AcceptedArgument ['*']
  | ident {cs : List Char} (h : checkIdent (String.ofList cs) = .ok ()) : AcceptedArgument cs
  | distinct {word blanks cs : List Char} (hword : word.map Char.toLower = "distinct".toList)
      (hblanks : blanks.all isBlank) (h : checkIdent (String.ofList cs) = .ok ()) :
      AcceptedArgument (word ++ ' ' :: (blanks ++ cs))

/-- The forms of accepted fields: nothing follows the parenthesis that closes a function. -/
inductive AcceptedField : List Char → Prop where
  | ident {cs : List Char} (h : checkIdent (String.ofList cs) = .ok ()) : AcceptedField cs
  | call {func before arg after : List Char} (hfunc : Bare func) (hbefore : before.all isBlank)
      (harg : AcceptedArgument arg) (hafter : after.all isBlank) :
      AcceptedField (func ++ '(' :: (before ++ (arg ++ (after ++ [')']))))

/-- The characters that a bare part starts with, `[A-Za-z_]`. -/
def startChars : List Char :=
  "ABCDEFGHIJKLMNOPQRSTUVWXYZabcdefghijklmnopqrstuvwxyz_".toList

/-- The characters that a bare part goes on with, `[A-Za-z0-9_$]`. -/
def bodyChars : List Char :=
  "ABCDEFGHIJKLMNOPQRSTUVWXYZabcdefghijklmnopqrstuvwxyz0123456789_$".toList

section

variable {name : String} {cs rest : List Char} {c : Char}

theorem toNat_of_isAlphanum (h : c.isAlphanum) : 48 ≤ c.toNat ∧ c.toNat ≤ 122 := by
  have hrange {a b : Char} (ha : 48 ≤ a.toNat) (hb : b.toNat ≤ 122)
      (hac : c.val ≥ a.val) (hcb : c.val ≤ b.val) : 48 ≤ c.toNat ∧ c.toNat ≤ 122 :=
    ⟨ha.trans (UInt32.le_iff_toNat_le.1 hac), (UInt32.le_iff_toNat_le.1 hcb).trans hb⟩
  rcases Bool.or_eq_true_iff.1 h with halpha | hdigit
  · rcases Bool.or_eq_true_iff.1 halpha with hupper | hlower
    · obtain ⟨hfrom, hto⟩ := of_decide_eq_true hupper
      exact hrange (by decide) (by decide) hfrom hto
    · obtain ⟨hfrom, hto⟩ := Bool.and_eq_true_iff.1 hlower
      exact hrange (by decide) (by decide) (of_decide_eq_true hfrom) (of_decide_eq_true hto)
  · obtain ⟨hfrom, hto⟩ := Bool.and_eq_true_iff.1 hdigit
    exact hrange (by decide) (by decide) (of_decide_eq_true hfrom) (of_decide_eq_true hto)

/-- A class of characters below 128 is given by a list if all of the list are in the class and,
number by number, all of the class are in the list. -/
theorem iff_of_ascii {p : Char → Bool} {list : List Char} (hp : ∀ c, p c → c.toNat < 128)
    (hlist : list.all p)
    (h : (List.range 128).all fun n => p (Char.ofNat n) → list.contains (Char.ofNat n)) :
    p c ↔ c ∈ list := by
  constructor
  · intro hc
    have hmem := of_decide_eq_true (List.all_eq_true.1 h c.toNat (List.mem_range.2 (hp c hc)))
    rw [Char.ofNat_toNat] at hmem
    exact List.contains_iff_mem.1 (hmem hc)
  · exact List.all_eq_true.1 hlist c

theorem isBody_iff : isBody c ↔ c ∈ bodyChars := by
  apply iff_of_ascii
  · intro c h
    simp only [isBody, Bool.or_eq_true, decide_eq_true_eq] at h
    rcases h with (rfl | rfl) | h
    · decide
    · decide
    · exact Nat.lt_of_le_of_lt (toNat_of_isAlphanum h).2 (by decide)
  · decide
  · decide +kernel

theorem isStart_iff : isStart c ↔ c ∈ startChars := by
  apply iff_of_ascii
  · intro c h
    simp only [isStart, Bool.or_eq_true, decide_eq_true_eq] at h
    rcases h with rfl | h
    · decide
    · have halphanum : c.isAlphanum := Bool.or_eq_true_iff.2 (.inl h)
      exact Nat.lt_of_le_of_lt (toNat_of_isAlphanum halphanum).2 (by decide)
  · decide
  · decide +kernel

/-- The grammar of bare parts, character by character. -/
theorem bare_iff : Bare (c :: cs) ↔ c ∈ startChars ∧ ∀ d ∈ cs, d ∈ bodyChars := by
  have hbody : cs.all isBody ↔ ∀ d ∈ cs, d ∈ bodyChars := by
    simp only [List.all_eq_true, isBody_iff]
  rw [← isStart_iff, ← hbody]
  constructor
  · rintro ⟨hc, hcs⟩
    exact ⟨hc, hcs⟩
  · rintro ⟨hc, hcs⟩
    exact .word hc hcs

theorem spelled_of_bare (h : bare name cs = .ok rest) : ∃ pre, cs = pre ++ rest ∧ Bare pre := by
  cases cs with
  | nil => cases h
  | cons c cs =>
    simp only [bare] at h
    split at h
    · rename_i hc
      cases h
      refine ⟨c :: cs.takeWhile isBody, ?_, .word hc List.all_takeWhile⟩
      rw [List.cons_append, List.takeWhile_append_dropWhile]
    · cases h

theorem spelled_of_quoted {filled : Bool} (h : quoted name filled cs = .ok rest) :
    ∃ pre, cs = pre ++ '"' :: rest ∧ Inside pre ∧ (filled = false → pre ≠ []) := by
  fun_induction quoted name filled cs with
  | case1 _ cs ih =>
    obtain ⟨pre, rfl, hpre, -⟩ := ih h
    exact ⟨'"' :: '"' :: pre, rfl, .pair hpre, fun _ => List.cons_ne_nil _ _⟩
  | case2 cs =>
    cases h
    exact ⟨[], rfl, .nil, fun hempty => absurd hempty (by decide)⟩
  | case3 => cases h
  | case4 _ c cs _ hquote ih =>
    obtain ⟨pre, rfl, hpre, -⟩ := ih h
    have hc : c ≠ '"' := by
      rintro rfl
      exact hquote rfl
    exact ⟨c :: pre, rfl, .char hc hpre, fun _ => List.cons_ne_nil _ _⟩
  | case5 => cases h

theorem spelled_of_part (h : part name cs = .ok rest) : ∃ pre, cs = pre ++ rest ∧ Part pre := by
  unfold part at h
  split at h
  · obtain ⟨pre, rfl, hpre, hne⟩ := spelled_of_quoted h
    exact ⟨'"' :: (pre ++ ['"']), by simp, .quoted hpre (hne rfl)⟩
  · obtain ⟨pre, rfl, hpre⟩ := spelled_of_bare h
    exact ⟨pre, rfl, .bare hpre⟩

theorem spelled_of_path (h : path name cs = .ok ()) : Path cs := by
  fun_induction path name cs with
  | case1 => cases h
  | case2 cs hp =>
    obtain ⟨pre, rfl, hpre⟩ := spelled_of_part hp
    rw [List.append_nil]
    exact .part hpre
  | case3 cs c rest hp ih =>
    obtain ⟨pre, rfl, hpre⟩ := spelled_of_part hp
    exact .dot hpre (ih h)
  | case4 => cases h
  | case5 => cases h

theorem spelled_of_checkIdent (h : checkIdent name = .ok ()) : Path name.toList := by
  rw [checkIdent] at h
  split at h
  · cases h
  · split at h
    · cases h
    · exact spelled_of_path h

theorem spelled_of_checkAlias (h : checkAlias name = .ok ()) : Path name.toList := by
  obtain ⟨_, hident, -⟩ := of_bind h
  exact spelled_of_checkIdent hident

theorem trimStart_eq (cs : List Char) :
    ∃ before, cs = before ++ trimStart cs ∧ before.all isBlank :=
  ⟨cs.takeWhile isBlank, List.takeWhile_append_dropWhile.symm, List.all_takeWhile⟩

theorem trim_eq (cs : List Char) :
    ∃ before after, cs = before ++ (trim cs ++ after) ∧ before.all isBlank ∧ after.all isBlank := by
  obtain ⟨before, hstart, hbefore⟩ := trimStart_eq cs
  refine ⟨before, ((trimStart cs).reverse.takeWhile isBlank).reverse, ?_, hbefore, ?_⟩
  · rw [trim, trimEnd, ← List.reverse_append, List.takeWhile_append_dropWhile,
      List.reverse_reverse]
    exact hstart
  · rw [List.all_reverse]
    exact List.all_takeWhile

theorem eq_space_of_toLower {c : Char} (h : c.toLower = ' ') : c = ' ' := by
  unfold Char.toLower at h
  split at h
  · rename_i hupper
    obtain ⟨hlow, hhigh⟩ := hupper
    have hval := congrArg (fun d : Char => d.val.toNat) h
    simp only [ge_iff_le, UInt32.le_iff_toNat_le] at hlow hhigh
    simp [UInt32.toNat_add] at hval hlow hhigh
    omega
  · exact h

/-- A class that all letters belong to does not tell their case. -/
theorem of_toLower {p : Char → Bool} {c : Char} (hp : ∀ c, c.isAlpha → p c) (h : p c.toLower) :
    p c := by
  by_cases hc : c.isUpper
  · exact hp c (Bool.or_eq_true_iff.2 (.inl hc))
  · have hlower : c.toLower = c := dif_neg fun hrange => hc (decide_eq_true hrange)
    rwa [hlower] at h

theorem accepted_of_dropDistinct (h : checkIdent (String.ofList (dropDistinct cs)) = .ok ()) :
    AcceptedArgument cs := by
  rw [dropDistinct] at h
  split at h
  · rename_i hword
    obtain ⟨blanks, hdrop, hblanks⟩ := trimStart_eq (cs.drop 9)
    have hsplit : "distinct ".toList = "distinct".toList ++ [' '] := rfl
    rw [hsplit, List.map_eq_append_iff] at hword
    obtain ⟨word, last, htake, hword, hlast⟩ := hword
    obtain ⟨c, rfl, hc⟩ := List.map_eq_singleton_iff.1 hlast
    have hspace := eq_space_of_toLower hc
    have hcs : cs = word ++ ' ' :: (blanks ++ trimStart (cs.drop 9)) := by
      rw [← hdrop, ← hspace, List.append_cons, ← htake, List.take_append_drop]
    rw [hcs]
    exact .distinct hword hblanks h
  · exact .ident h

theorem accepted_of_isArgument (h : isArgument cs) :
    ∃ before arg after, cs = before ++ (arg ++ (after ++ [')'])) ∧ before.all isBlank ∧
      AcceptedArgument arg ∧ after.all isBlank := by
  rw [isArgument] at h
  split at h
  · rename_i hlast
    obtain ⟨inner, rfl⟩ := List.getLast?_eq_some_iff.1 hlast
    rw [List.dropLast_concat] at h
    obtain ⟨before, after, hinner, hbefore, hafter⟩ := trim_eq inner
    refine ⟨before, trim inner, after, ?_, hbefore, ?_, hafter⟩
    · have hclosed := congrArg (· ++ [')']) hinner
      simpa only [List.append_assoc] using hclosed
    · simp only at h
      split at h
      · rename_i hstar
        rw [hstar]
        exact .star
      · apply accepted_of_dropDistinct
        revert h
        cases checkIdent (String.ofList (dropDistinct (trim inner))) with
        | ok u => exact fun _ => rfl
        | error e => exact nofun
  · cases h

/-- A field that is accepted is an identifier without a parenthesis, or a function and what follows
the first parenthesis. -/
theorem split_of_checkField (h : checkField name = .ok ()) :
    '(' ∉ name.toList ∧ checkIdent name = .ok () ∨
      ∃ func arg, name.toList = func ++ '(' :: arg ∧ Bare func ∧ isArgument arg := by
  rw [checkField] at h
  split at h
  · rename_i hdrop
    refine .inl ⟨fun hopen => ?_, h⟩
    have hpassed := List.dropWhile_eq_nil_iff.1 hdrop '(' hopen
    exact absurd hpassed (by decide)
  · rename_i c arg hdrop
    have hc : c = '(' := by
      have hhead := List.head?_dropWhile_not (· ≠ '(') name.toList
      rw [hdrop] at hhead
      simpa using hhead
    have hname : name.toList = name.toList.takeWhile (· ≠ '(') ++ c :: arg := by
      rw [← hdrop, List.takeWhile_append_dropWhile]
    subst c
    simp only at h
    split at h
    · cases h
    · obtain ⟨rest, hbare, h⟩ := of_bind h
      split at h
      · rename_i hargument
        obtain ⟨func, hpre, hfunc⟩ := spelled_of_bare hbare
        rw [hargument.1, List.append_nil] at hpre
        rw [hpre] at hname
        exact .inr ⟨func, arg, hname, hfunc, hargument.2⟩
      · cases h

/-- A field that is accepted is an identifier, or a function of one argument. -/
theorem accepted_of_checkField (h : checkField name = .ok ()) : AcceptedField name.toList := by
  rcases split_of_checkField h with ⟨-, hident⟩ | ⟨func, arg, hname, hfunc, hargument⟩
  · rw [← String.ofList_toList (s := name)] at hident
    exact .ident hident
  · obtain ⟨before, inner, after, rfl, hbefore, hinner, hafter⟩ := accepted_of_isArgument hargument
    rw [hname]
    exact .call hfunc hbefore hinner hafter

theorem spelled_of_ofList (h : checkIdent (String.ofList cs) = .ok ()) : Path cs := by
  have hpath := spelled_of_checkIdent h
  rwa [String.toList_ofList] at hpath

theorem AcceptedArgument.spelled (h : AcceptedArgument cs) : Argument cs := by
  cases h with
  | star => exact .star
  | ident h => exact .path (spelled_of_ofList h)
  | @distinct word blanks cs hword hblanks h =>
    have hspaced : (word ++ [' ']).map Char.toLower = "distinct ".toList := by
      rw [List.map_append, hword]
      rfl
    rw [List.append_cons]
    exact .distinct hspaced hblanks (spelled_of_ofList h)

theorem AcceptedField.spelled (h : AcceptedField cs) : Field cs := by
  cases h with
  | ident h => exact .path (spelled_of_ofList h)
  | call hfunc hbefore harg hafter => exact .call hfunc hbefore harg.spelled hafter

/-- A field that is accepted is spelled by the grammar. -/
theorem spelled_of_checkField (h : checkField name = .ok ()) : Field name.toList :=
  (accepted_of_checkField h).spelled

end

end Quarry.Name
