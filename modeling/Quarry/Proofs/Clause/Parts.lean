import Quarry.Clause.Conditions
import Quarry.Proofs.Name.Inert
import Quarry.Proofs.Operator.Parts

namespace Quarry

open Text Placeholder

namespace Fragment

/-- A fragment that a search can be compiled to. -/
structure Valid (f : Fragment) : Prop where
  key : Name.checkField f.key = .ok ()
  sign : f.operator = .custom → ∃ s, f.sign = some s ∧ Operator.checkSign f.key s = .ok ()

def check (d : Dialect) (f : Fragment) : Except Invalid Unit :=
  f.operator.check f.key f.sign d

def parts (d : Dialect) (c : Nat) (f : Fragment) : List Part :=
  Operator.parts f.key (f.operator.signText f.sign) c (f.operator.template d)

theorem text_eq_check (d : Dialect) (c : Nat) (f : Fragment) :
    f.text c d = (f.check d).map fun _ => (write d (f.parts d c), c + f.operator.arity) := by
  rw [text, Operator.text_eq_check, check, parts, Operator.write_parts]

theorem numbers_parts (d : Dialect) (c : Nat) (f : Fragment) :
    numbers (f.parts d c) = List.range' (c + 1) f.operator.arity := by
  rw [parts, Operator.numbers_parts, Operator.count_param_template]

theorem parts_shift (d : Dialect) (k c : Nat) (f : Fragment) :
    f.parts d (c + k) = (f.parts d c).map (Part.shift k) :=
  Operator.parts_shift ..

theorem sign_template {op : Operator} {d : Dialect} (h : .sign ∈ op.template d) : op = .custom := by
  revert h
  cases op <;> cases d <;> decide

/-- A character of a sign, unless it would read as a placeholder. -/
theorem isInert_of_mem_signChars {c : Char} {d : Dialect} (hc : c ∈ Invalid.signChars.toList)
    (hmark : d = .unnumbered → c ≠ '?') : isInert d c ∧ isWord c = false := by
  have hall : Invalid.signChars.toList.all fun c =>
      (isInert d c || (d = .unnumbered && c = '?')) && !isWord c := by
    cases d <;> decide
  have hchar := List.all_eq_true.1 hall c hc
  simp only [Bool.and_eq_true, Bool.or_eq_true, Bool.not_eq_true', decide_eq_true_eq] at hchar
  obtain ⟨hinert | ⟨hd, he⟩, hword⟩ := hchar
  · exact ⟨hinert, hword⟩
  · exact absurd he (hmark hd)

theorem apart_signText {f : Fragment} {d : Dialect} (hv : f.Valid) (hc : f.check d = .ok ())
    (hop : f.operator = .custom) : Apart d (f.operator.signText f.sign) := by
  obtain ⟨s, hs, hsign⟩ := hv.sign hop
  have hmark : d = .unnumbered → '?' ∉ s.toList := by
    rintro rfl hmem
    simp [check, Operator.check, Operator.isPostgresOnly, hop, hs, hmem] at hc
  obtain ⟨hne, hchars⟩ := Operator.of_checkSign hsign
  have hclear (c : Char) (hmem : c ∈ s.toList) : isInert d c ∧ isWord c = false := by
    apply isInert_of_mem_signChars (hchars c hmem)
    rintro hd rfl
    exact hmark hd hmem
  rw [hop, hs]
  refine ⟨List.all_eq_true.2 fun c hmem => (hclear c hmem).1, ?_, ?_⟩
  · refine (Option.any_eq_true _ _).2 ⟨s.toList.head hne, List.head?_eq_some_head hne, ?_⟩
    simp [(hclear _ (List.head_mem hne)).2]
  · refine (Option.any_eq_true _ _).2 ⟨s.toList.getLast hne, List.getLast?_eq_some_getLast hne, ?_⟩
    simp [(hclear _ (List.getLast_mem hne)).2]

theorem legible_parts {f : Fragment} {d : Dialect} (hv : f.Valid) (hc : f.check d = .ok ())
    (c : Nat) : Legible d (f.parts d c) := by
  refine Operator.legible_parts (Name.inert_of_checkField hv.key) (fun h => ?_) ?_
    (Operator.isSpaced_template ..) c
  · exact apart_signText hv hc (sign_template h)
  · refine Operator.isPlain_template fun h => ?_
    simp only [check, Operator.check, if_pos h] at hc
    cases hc

theorem space_mem_text {f : Fragment} {d : Dialect} (c : Nat) :
    ' ' ∈ (write d (f.parts d c)).toList := by
  rw [parts, Operator.write_parts]
  exact Operator.space_mem_fill (Operator.any_isWide_template ..) c

def checks (d : Dialect) : List Fragment → Except Invalid Unit
  | [] => .ok ()
  | f :: fs => do
    f.check d
    checks d fs

/-- The parts of fragments one after another, numbered on from a cursor. -/
def partsList (d : Dialect) : Nat → List Fragment → List (List Part)
  | _, [] => []
  | c, f :: fs => f.parts d c :: partsList d (c + f.operator.arity) fs

def conjunctionParts (d : Dialect) (c : Nat) (fs : List Fragment) : List Part :=
  (fixedParts " AND ").intercalate (partsList d c fs)

/-- The parts of alternatives, each in parentheses. -/
def alternativesParts (d : Dialect) : Nat → List (List Fragment) → List (List Part)
  | _, [] => []
  | c, fs :: rest =>
    (fixedParts "(" ++ conjunctionParts d c fs ++ fixedParts ")") ::
      alternativesParts d (c + paramCount fs) rest

theorem checks_append (d : Dialect) (fs gs : List Fragment) :
    checks d (fs ++ gs) = (checks d fs).bind fun _ => checks d gs := by
  induction fs with
  | nil => rfl
  | cons f fs ih =>
    simp only [checks, List.cons_append, ih]
    cases f.check d <;> rfl

theorem check_of_checks {d : Dialect} {fs : List Fragment} {f : Fragment}
    (h : checks d fs = .ok ()) (hf : f ∈ fs) : f.check d = .ok () := by
  induction fs with
  | nil => cases hf
  | cons g fs ih =>
    rw [checks] at h
    cases hg : g.check d with
    | error e =>
      rw [hg] at h
      cases h
    | ok u =>
      rw [hg] at h
      cases hf with
      | head => exact hg
      | tail _ hf => exact ih h hf

theorem checks_of_forall {d : Dialect} {fs : List Fragment} (h : ∀ f ∈ fs, f.check d = .ok ()) :
    checks d fs = .ok () := by
  induction fs with
  | nil => rfl
  | cons f fs ih =>
    rw [checks, h f (.head _)]
    exact ih fun g hg => h g (.tail _ hg)

theorem paramCount_append (fs gs : List Fragment) :
    paramCount (fs ++ gs) = paramCount fs + paramCount gs := by
  induction fs with
  | nil => exact (Nat.zero_add _).symm
  | cons f fs ih => rw [List.cons_append, paramCount, paramCount, ih, Nat.add_assoc]

theorem partsList_append (d : Dialect) (c : Nat) (fs gs : List Fragment) :
    partsList d c (fs ++ gs) = partsList d c fs ++ partsList d (c + paramCount fs) gs := by
  induction fs generalizing c with
  | nil => rfl
  | cons f fs ih =>
    rw [List.cons_append, partsList, ih, partsList, paramCount, List.cons_append, Nat.add_assoc]

theorem texts_eq_checks (d : Dialect) (c : Nat) (fs : List Fragment) :
    texts d c fs = (checks d fs).map fun _ =>
      ((partsList d c fs).map (write d), c + paramCount fs) := by
  induction fs generalizing c with
  | nil => rfl
  | cons f fs ih =>
    simp only [texts, text_eq_check, ih, checks, partsList, paramCount, ← Nat.add_assoc]
    cases f.check d with
    | error e => rfl
    | ok u => cases checks d fs <;> rfl

theorem conjunction_eq_checks (d : Dialect) (c : Nat) (fs : List Fragment) :
    conjunction d c fs = (checks d fs).map fun _ =>
      (write d (conjunctionParts d c fs), c + paramCount fs) := by
  rw [conjunction, texts_eq_checks, conjunctionParts, write_intercalate, write_fixedParts]
  cases checks d fs <;> rfl

theorem alternatives_eq_checks (d : Dialect) (c : Nat) (fss : List (List Fragment)) :
    alternatives d c fss = (checks d fss.flatten).map fun _ =>
      ((alternativesParts d c fss).map (write d), c + paramCount fss.flatten) := by
  induction fss generalizing c with
  | nil => rfl
  | cons fs fss ih =>
    simp only [alternatives, conjunction_eq_checks, ih, List.flatten_cons, checks_append,
      paramCount_append, alternativesParts, ← Nat.add_assoc, List.map_cons, write_append,
      write_fixedParts]
    cases checks d fs with
    | error e => rfl
    | ok u => cases checks d fss.flatten <;> rfl

theorem partsList_shift (d : Dialect) (k c : Nat) (fs : List Fragment) :
    partsList d (c + k) fs = (partsList d c fs).map (List.map (Part.shift k)) := by
  induction fs generalizing c with
  | nil => rfl
  | cons f fs ih => rw [partsList, partsList, List.map_cons, parts_shift, Nat.add_right_comm, ih]

theorem conjunctionParts_shift (d : Dialect) (k c : Nat) (fs : List Fragment) :
    conjunctionParts d (c + k) fs = (conjunctionParts d c fs).map (Part.shift k) := by
  rw [conjunctionParts, partsList_shift, conjunctionParts, intercalate_shift, fixedParts_shift]

theorem alternativesParts_shift (d : Dialect) (k c : Nat) (fss : List (List Fragment)) :
    alternativesParts d (c + k) fss =
      (alternativesParts d c fss).map (List.map (Part.shift k)) := by
  induction fss generalizing c with
  | nil => rfl
  | cons fs fss ih =>
    rw [alternativesParts, alternativesParts, Nat.add_right_comm, ih, conjunctionParts_shift]
    simp

theorem numbers_partsList (d : Dialect) (c : Nat) (fs : List Fragment) :
    (partsList d c fs).flatMap numbers = List.range' (c + 1) (paramCount fs) := by
  induction fs generalizing c with
  | nil => rfl
  | cons f fs ih =>
    rw [partsList, List.flatMap_cons, ih, numbers_parts, paramCount, Nat.add_right_comm,
      List.range'_append_1]

theorem numbers_conjunctionParts (d : Dialect) (c : Nat) (fs : List Fragment) :
    numbers (conjunctionParts d c fs) = List.range' (c + 1) (paramCount fs) := by
  rw [conjunctionParts, numbers_intercalate (numbers_fixedParts _), numbers_partsList]

theorem numbers_alternativesParts (d : Dialect) (c : Nat) (fss : List (List Fragment)) :
    (alternativesParts d c fss).flatMap numbers = List.range' (c + 1) (paramCount fss.flatten) := by
  induction fss generalizing c with
  | nil => rfl
  | cons fs fss ih =>
    rw [alternativesParts, List.flatMap_cons, ih, List.flatten_cons, paramCount_append]
    simp only [numbers_append, numbers_fixedParts, numbers_conjunctionParts, List.nil_append,
      List.append_nil]
    rw [Nat.add_right_comm, List.range'_append_1]

section Legible

variable {d : Dialect} {fs : List Fragment}

theorem legible_partsList (hv : ∀ f ∈ fs, f.Valid) (hc : checks d fs = .ok ()) (c : Nat) :
    ∀ ps ∈ partsList d c fs, Legible d ps := by
  have hcheck (f : Fragment) (hf : f ∈ fs) : f.check d = .ok () := check_of_checks hc hf
  clear hc
  induction fs generalizing c with
  | nil => exact nofun
  | cons f fs ih =>
    intro ps hps
    cases hps with
    | head => exact legible_parts (hv f (.head _)) (hcheck f (.head _)) c
    | tail _ hps =>
      exact ih (fun g hg => hv g (.tail _ hg)) _ (fun g hg => hcheck g (.tail _ hg)) ps hps

theorem apart_and (d : Dialect) : Apart d " AND " := by
  cases d <;> decide

theorem apart_or (d : Dialect) : Apart d " OR " := by
  cases d <;> decide

theorem apart_open (d : Dialect) : Apart d "(" := by
  cases d <;> decide

theorem apart_close (d : Dialect) : Apart d ")" := by
  cases d <;> decide

theorem legible_conjunctionParts (hv : ∀ f ∈ fs, f.Valid) (hc : checks d fs = .ok ()) (c : Nat) :
    Legible d (conjunctionParts d c fs) :=
  (apart_and d).intercalate (legible_partsList hv hc c)

theorem legible_alternativesParts {fss : List (List Fragment)} (hv : ∀ fs ∈ fss, ∀ f ∈ fs, f.Valid)
    (hc : ∀ fs ∈ fss, checks d fs = .ok ()) (c : Nat) :
    ∀ ps ∈ alternativesParts d c fss, Legible d ps := by
  induction fss generalizing c with
  | nil => exact nofun
  | cons fs fss ih =>
    intro ps hps
    cases hps with
    | head =>
      have hinner := legible_conjunctionParts (hv fs (.head _)) (hc fs (.head _)) c
      exact (apart_close d).after ((apart_open d).before hinner)
    | tail _ hps =>
      exact ih (fun gs hg => hv gs (.tail _ hg)) (fun gs hg => hc gs (.tail _ hg)) _ ps hps

end Legible

end Fragment

namespace Fragments

open Fragment

def mainParts (d : Dialect) (c : Nat) (fs : List Fragment) : List Part :=
  if fs = [] then fixedParts tautology else conjunctionParts d c fs

def parts (d : Dialect) (c : Nat) (g : Fragments) : List Part :=
  if g.alternatives = [] then mainParts d c g.main
  else
    mainParts d c g.main ++ fixedParts " AND (" ++
      (fixedParts " OR ").intercalate
        (alternativesParts d (c + paramCount g.main) g.alternatives) ++ fixedParts ")"

theorem space_mem_conjunctionParts {d : Dialect} {fs : List Fragment} (h : fs ≠ []) (c : Nat) :
    ' ' ∈ (write d (conjunctionParts d c fs)).toList := by
  cases fs with
  | nil => exact absurd rfl h
  | cons f fs =>
    cases fs with
    | nil =>
      rw [conjunctionParts, partsList, partsList, List.intercalate_singleton]
      exact space_mem_text c
    | cons g fs =>
      rw [conjunctionParts, partsList, partsList, List.intercalate_cons_cons, List.append_assoc,
        write_append, String.toList_append]
      exact List.mem_append_left _ (space_mem_text c)

theorem write_mainParts (d : Dialect) (c : Nat) (fs : List Fragment) :
    write d (mainParts d c fs) =
      if write d (conjunctionParts d c fs) = "" then tautology
      else write d (conjunctionParts d c fs) := by
  by_cases h : fs = []
  · subst fs
    rw [mainParts, if_pos rfl, write_fixedParts]
    rfl
  · have hspace := space_mem_conjunctionParts (d := d) h c
    rw [mainParts, if_neg h, if_neg]
    intro hempty
    rw [hempty] at hspace
    cases hspace

theorem write_parts {g : Fragments} (h : g.alternatives ≠ []) (d : Dialect) (c : Nat) :
    write d (g.parts d c) =
      write d (mainParts d c g.main) ++ " AND (" ++
        join " OR "
          ((alternativesParts d (c + paramCount g.main) g.alternatives).map (write d)) ++ ")" := by
  rw [parts, if_neg h, write_append, write_append, write_append, write_intercalate]
  simp only [write_fixedParts]

/-- The text of a group is a check, followed by writing its parts. -/
theorem text_eq_checks (g : Fragments) (d : Dialect) (c : Nat) :
    g.text d c = (checks d g.all).map fun _ => (write d (g.parts d c), c + g.placeholderCount) := by
  by_cases halts : g.alternatives = []
  · have hall : g.all = g.main := by rw [all, halts, List.flatten_nil, List.append_nil]
    rw [text, conjunction_eq_checks, parts, if_pos halts, placeholderCount, hall]
    by_cases hmain : g.main = []
    · simp [isEmpty, hmain, halts, checks, mainParts, paramCount, Except.map, pure, Except.pure]
    · rw [if_neg (by simp [isEmpty, hmain]), write_mainParts]
      cases checks d g.main with
      | error e => rfl
      | ok u => simp [halts, Except.map, bind, Except.bind, pure, Except.pure]
  · rw [text, if_neg (by simp [isEmpty, halts]), conjunction_eq_checks, write_parts halts,
      write_mainParts, placeholderCount, all, checks_append, paramCount_append]
    cases checks d g.main with
    | error e => rfl
    | ok u =>
      simp only [Except.map, bind, Except.bind, if_neg halts, alternatives_eq_checks]
      cases checks d g.alternatives.flatten with
      | error e => rfl
      | ok v => simp [pure, Except.pure, Nat.add_assoc]

theorem numbers_mainParts (d : Dialect) (c : Nat) (fs : List Fragment) :
    numbers (mainParts d c fs) = List.range' (c + 1) (paramCount fs) := by
  rw [mainParts]
  split
  · rename_i h
    rw [numbers_fixedParts, h]
    rfl
  · exact numbers_conjunctionParts d c fs

/-- The placeholders of a group are numbered on from the cursor. -/
theorem numbers_parts (g : Fragments) (d : Dialect) (c : Nat) :
    numbers (g.parts d c) = List.range' (c + 1) g.placeholderCount := by
  rw [placeholderCount, all, paramCount_append]
  rw [parts]
  split
  · rename_i h
    rw [numbers_mainParts, h]
    rfl
  · simp only [numbers_append, numbers_mainParts, numbers_fixedParts, List.append_nil,
      numbers_intercalate (numbers_fixedParts _), numbers_alternativesParts]
    rw [Nat.add_right_comm, List.range'_append_1]

theorem mainParts_shift (d : Dialect) (k c : Nat) (fs : List Fragment) :
    mainParts d (c + k) fs = (mainParts d c fs).map (Part.shift k) := by
  unfold mainParts
  split
  · rw [fixedParts_shift]
  · exact conjunctionParts_shift d k c fs

/-- Moving the cursor moves the numbers and nothing else. -/
theorem parts_shift (g : Fragments) (d : Dialect) (k c : Nat) :
    g.parts d (c + k) = (g.parts d c).map (Part.shift k) := by
  unfold parts
  split
  · exact mainParts_shift d k c g.main
  · simp only [List.map_append, mainParts_shift, fixedParts_shift, intercalate_shift]
    rw [Nat.add_right_comm, alternativesParts_shift]

theorem legible_mainParts {d : Dialect} {fs : List Fragment} (hv : ∀ f ∈ fs, f.Valid)
    (hc : checks d fs = .ok ()) (c : Nat) : Legible d (mainParts d c fs) := by
  rw [mainParts]
  split
  · exact legible_fixedParts (inert_of_all (by cases d <;> decide))
  · exact legible_conjunctionParts hv hc c

theorem checks_of_all {d : Dialect} {g : Fragments} (h : checks d g.all = .ok ()) :
    checks d g.main = .ok () ∧ ∀ fs ∈ g.alternatives, checks d fs = .ok () := by
  have hchecks (fs : List Fragment) (hfs : ∀ f ∈ fs, f ∈ g.all) : checks d fs = .ok () :=
    checks_of_forall fun f hf => check_of_checks h (hfs f hf)
  refine ⟨hchecks _ fun f hf => List.mem_append_left _ hf, fun fs hfs => hchecks fs fun f hf => ?_⟩
  exact List.mem_append_right _ (List.mem_flatten.2 ⟨fs, hfs, hf⟩)

theorem apart_alternatives (d : Dialect) : Apart d " AND (" := by
  cases d <;> decide

theorem legible_parts {d : Dialect} {g : Fragments} (hv : ∀ f ∈ g.all, f.Valid)
    (hc : checks d g.all = .ok ()) (c : Nat) : Legible d (g.parts d c) := by
  obtain ⟨hmain, halts⟩ := checks_of_all hc
  have hvmain : ∀ f ∈ g.main, f.Valid := fun f hf => hv f (List.mem_append_left _ hf)
  rw [parts]
  split
  · exact legible_mainParts hvmain hmain c
  · refine (apart_close d).after ((apart_alternatives d).between ?_ ((apart_or d).intercalate ?_))
    · exact legible_mainParts hvmain hmain c
    · refine legible_alternativesParts (fun fs hfs f hf => hv f ?_) halts _
      exact List.mem_append_right _ (List.mem_flatten.2 ⟨fs, hfs, hf⟩)

theorem space_mem_parts {g : Fragments} (h : ¬g.isEmpty) (d : Dialect) (c : Nat) :
    ' ' ∈ (write d (g.parts d c)).toList := by
  by_cases halts : g.alternatives = []
  · have hmain : g.main ≠ [] := by
      intro hmain
      exact h (by simp [isEmpty, hmain, halts])
    rw [parts, if_pos halts, mainParts, if_neg hmain]
    exact space_mem_conjunctionParts hmain c
  · rw [write_parts halts]
    simp [String.toList_append]

/-- Only a group without conditions is written as the tautology. -/
theorem write_parts_eq_tautology (g : Fragments) (d : Dialect) (c : Nat) :
    write d (g.parts d c) = tautology ↔ g.isEmpty := by
  constructor
  · intro htext
    by_cases h : g.isEmpty
    · exact h
    · have hspace := space_mem_parts h d c
      rw [htext] at hspace
      exact absurd hspace (by decide)
  · intro h
    obtain ⟨hmain, halts⟩ : g.main = [] ∧ g.alternatives = [] := by simpa [isEmpty] using h
    rw [parts, if_pos halts, mainParts, if_pos hmain, write_fixedParts]

end Fragments

end Quarry
